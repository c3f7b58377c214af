import P9cpu.Ninep.Path

/-! Paths read without looking at the host: their components, where `.` and `..` lead, and how
far a list of names climbs. -/
namespace P9cpu.Ninep

namespace PathBuf

/-- A component that counts; an empty one and `.` do not. -/
def keptComponent (cur : List UInt8) : List (List UInt8) :=
  if cur = [] ∨ cur = [0x2e] then [] else [cur]

/-- The components between the separators, `cur` being what was read of the first one. -/
def componentsFrom (cur : List UInt8) : List UInt8 → List (List UInt8)
  | [] => keptComponent cur
  | b :: bs =>
    if b = 0x2f then keptComponent cur ++ componentsFrom [] bs else componentsFrom (cur ++ [b]) bs

def components (bytes : List UInt8) : List (List UInt8) := componentsFrom [] bytes

/-- `..` -/
def PARENT : List UInt8 := [0x2e, 0x2e]

/-- From the directory `dirs`, outermost first; the parent of the root is the root. -/
def enter (dirs : List (List UInt8)) (component : List UInt8) : List (List UInt8) :=
  if component = PARENT then dirs.dropLast else dirs ++ [component]

/-- Where an absolute path leads lexically. -/
def resolve (p : PathBuf) : List (List UInt8) := (components p.bytes).foldl enter []

/-- `p` is at `r` or below it. -/
def Below (r p : PathBuf) : Prop := isAbsolute p.bytes = true ∧ r.resolve <+: p.resolve

/-- How far `p` is below `r`. -/
def depth (r p : PathBuf) : ℕ := p.resolve.length - r.resolve.length

instance (r p : PathBuf) : Decidable (Below r p) := inferInstanceAs (Decidable (_ ∧ _))

end PathBuf

/-- The depth after components were entered at depth `d`; `none` when they lead above depth 0. -/
def climb : ℕ → List (List UInt8) → Option ℕ
  | d, [] => some d
  | d, c :: cs =>
    if c = PathBuf.PARENT then
      if d = 0 then none else climb (d - 1) cs
    else climb (d + 1) cs

def nameComponents (name : String) : List (List UInt8) := PathBuf.components (strBytes name)

/-- Names that are relative and, appended one after the other at depth `d`, never lead above
depth 0. -/
def Stays (d : ℕ) (names : List String) : Prop :=
  (∀ name ∈ names, PathBuf.isAbsolute (strBytes name) = false) ∧
    (climb d (names.flatMap nameComponents)).isSome = true

instance (d : ℕ) (names : List String) : Decidable (Stays d names) :=
  inferInstanceAs (Decidable (_ ∧ _))

theorem strBytes_append (a b : String) : strBytes (a ++ b) = strBytes a ++ strBytes b := by
  simp [strBytes]

namespace PathBuf

theorem componentsFrom_separator (cur xs ys : List UInt8) :
    componentsFrom cur (xs ++ 0x2f :: ys) = componentsFrom cur xs ++ components ys := by
  induction xs generalizing cur with
  | nil => simp [componentsFrom, components]
  | cons b xs ih =>
    simp only [List.cons_append, componentsFrom]
    split_ifs with hb
    · rw [ih, List.append_assoc]
    · exact ih _

/-- A relative name adds its components. -/
theorem components_push (p : PathBuf) {name : String} (h : isAbsolute (strBytes name) = false) :
    components (p.push name).bytes = components p.bytes ++ nameComponents name := by
  unfold push nameComponents
  simp only [h, Bool.false_eq_true, if_false]
  split_ifs with hp
  · obtain hp | hp := hp
    · simp [hp, components, componentsFrom, keptComponent]
    · -- the separator at the end of `p` is the one before the name
      obtain ⟨q, hq⟩ := List.getLast?_eq_some_iff.mp hp
      have hend : components p.bytes = components q ++ components [] := by
        rw [hq]
        exact componentsFrom_separator [] q []
      have hpush : components (p.bytes ++ strBytes name) =
          components q ++ components (strBytes name) := by
        rw [hq, List.append_assoc]
        exact componentsFrom_separator [] q (strBytes name)
      rw [hpush, hend]
      simp [components, componentsFrom, keptComponent]
  · exact componentsFrom_separator [] p.bytes (strBytes name)

theorem isAbsolute_push (p : PathBuf) (name : String) (h : isAbsolute p.bytes = true) :
    isAbsolute (p.push name).bytes = true := by
  have hne : p.bytes ≠ [] := by
    intro hnil
    simp [isAbsolute, hnil] at h
  unfold push
  dsimp only
  split_ifs with habs
  · exact habs
  · simpa [isAbsolute, List.head?_append_of_ne_nil _ hne] using h
  · simpa [isAbsolute, List.head?_append_of_ne_nil _ hne] using h

end PathBuf

/-- Components that never climb above the directory `base`. -/
theorem foldl_enter_of_climb (base : List (List UInt8)) {d d' : ℕ} {cs rest : List (List UInt8)}
    (h : climb d cs = some d') (hrest : rest.length = d) :
    ∃ rest', cs.foldl PathBuf.enter (base ++ rest) = base ++ rest' ∧ rest'.length = d' := by
  induction cs generalizing d rest with
  | nil =>
    cases h
    exact ⟨rest, rfl, hrest⟩
  | cons c cs ih =>
    rw [climb] at h
    split_ifs at h with hc hd
    · have hne : rest ≠ [] := by
        intro hnil
        exact hd (by rw [← hrest, hnil, List.length_nil])
      have hparent : PathBuf.enter (base ++ rest) c = base ++ rest.dropLast := by
        rw [PathBuf.enter, if_pos hc, List.dropLast_append_of_ne_nil hne]
      rw [List.foldl_cons, hparent]
      exact ih h (by simp [hrest])
    · have hchild : PathBuf.enter (base ++ rest) c = base ++ (rest ++ [c]) := by
        rw [PathBuf.enter, if_neg hc, List.append_assoc]
      rw [List.foldl_cons, hchild]
      exact ih h (by simp [hrest])

/-- They lead below `base` to where they lead below the root. -/
theorem foldl_enter_append (base : List (List UInt8)) {rest cs : List (List UInt8)}
    (h : (climb rest.length cs).isSome = true) :
    cs.foldl PathBuf.enter (base ++ rest) = base ++ cs.foldl PathBuf.enter rest := by
  induction cs generalizing rest with
  | nil => rfl
  | cons c cs ih =>
    rw [climb] at h
    split_ifs at h with hc hd
    · simp at h
    · have hne : rest ≠ [] := fun hnil => hd (by rw [hnil, List.length_nil])
      have hparent : PathBuf.enter (base ++ rest) c = base ++ PathBuf.enter rest c := by
        rw [PathBuf.enter, PathBuf.enter, if_pos hc, if_pos hc,
          List.dropLast_append_of_ne_nil hne]
      rw [List.foldl_cons, List.foldl_cons, hparent]
      apply ih
      rwa [PathBuf.enter, if_pos hc, List.length_dropLast]
    · have hchild : PathBuf.enter (base ++ rest) c = base ++ PathBuf.enter rest c := by
        rw [PathBuf.enter, PathBuf.enter, if_neg hc, if_neg hc, List.append_assoc]
      rw [List.foldl_cons, List.foldl_cons, hchild]
      apply ih
      rwa [PathBuf.enter, if_neg hc, List.length_append, List.length_singleton]

theorem climb_append {d : ℕ} {cs : List (List UInt8)} (es : List (List UInt8))
    (h : (climb d (cs ++ es)).isSome = true) : (climb d cs).isSome = true := by
  induction cs generalizing d with
  | nil => rfl
  | cons c cs ih =>
    rw [List.cons_append, climb] at h
    rw [climb]
    split_ifs at h ⊢ with hc hd
    · exact h
    · exact ih h
    · exact ih h

theorem Stays.take {d : ℕ} {names : List String} (h : Stays d names) (k : ℕ) :
    Stays d (names.take k) := by
  refine ⟨fun name hname => h.1 name (List.mem_of_mem_take hname), ?_⟩
  apply climb_append ((names.drop k).flatMap nameComponents)
  rw [← List.flatMap_append, List.take_append_drop]
  exact h.2

namespace PathBuf

/-- The path after the names were pushed. -/
def pushAll (path : PathBuf) (names : List String) : PathBuf := names.foldl push path

theorem components_pushAll {names : List String}
    (h : ∀ name ∈ names, isAbsolute (strBytes name) = false) (p : PathBuf) :
    components (p.pushAll names).bytes =
      components p.bytes ++ names.flatMap nameComponents := by
  induction names generalizing p with
  | nil => simp [pushAll]
  | cons name names ih =>
    have hname : isAbsolute (strBytes name) = false := h name (by simp)
    have hrest := ih (fun n hn => h n (by simp [hn])) (p.push name)
    rw [components_push p hname] at hrest
    rw [List.flatMap_cons, ← List.append_assoc]
    exact hrest

theorem isAbsolute_pushAll (names : List String) (p : PathBuf) (h : isAbsolute p.bytes = true) :
    isAbsolute (p.pushAll names).bytes = true := by
  induction names generalizing p with
  | nil => exact h
  | cons name names ih => exact ih (p.push name) (isAbsolute_push p name h)

/-- Names that stay keep a path at `r` or below it. -/
theorem Below.pushAll {r p : PathBuf} (hp : Below r p) {names : List String}
    (h : Stays (depth r p) names) : Below r (p.pushAll names) := by
  obtain ⟨habs, rest, hrest⟩ := hp
  have hdepth : rest.length = depth r p := by
    unfold depth
    rw [← hrest, List.length_append, Nat.add_sub_cancel_left]
  obtain ⟨d', hd'⟩ := Option.isSome_iff_exists.mp h.2
  obtain ⟨rest', henter, -⟩ := foldl_enter_of_climb r.resolve hd' hdepth
  refine ⟨isAbsolute_pushAll names p habs, rest', ?_⟩
  rw [← henter, hrest]
  unfold resolve
  rw [components_pushAll h.1, List.foldl_append]

theorem below_self {r : PathBuf} (h : isAbsolute r.bytes = true) : Below r r :=
  ⟨h, List.prefix_refl _⟩

end PathBuf

/-- More room above is never worse. -/
theorem Stays.mono {d d' : ℕ} (hd : d ≤ d') {names : List String} (h : Stays d names) :
    Stays d' names := by
  have hclimb : ∀ (cs : List (List UInt8)) (d d' : ℕ), d ≤ d' → (climb d cs).isSome = true →
      (climb d' cs).isSome = true := by
    intro cs
    induction cs with
    | nil => intro d d' _ _; rfl
    | cons c cs ih =>
      intro d d' hle h
      rw [climb] at h ⊢
      by_cases hc : c = PathBuf.PARENT
      · simp only [if_pos hc] at h ⊢
        have hpos : d ≠ 0 := by
          rintro rfl
          simp at h
        have hpos' : d' ≠ 0 := by omega
        rw [if_neg hpos] at h
        rw [if_neg hpos']
        exact ih (d - 1) (d' - 1) (by omega) h
      · simp only [if_neg hc] at h ⊢
        exact ih (d + 1) (d' + 1) (by omega) h
  exact ⟨h.1, hclimb _ d d' hd h.2⟩

example : Stays 0 ["a", "..", "b/./c"] := by decide
example : ¬ Stays 0 ["a/../.."] := by decide

end P9cpu.Ninep
