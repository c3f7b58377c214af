import Mathlib.Data.List.Induction
import P9cpu.Core.Run

/-! Systems that come one after the other and share a part of their states: what happens to one of
them is a run of its own, in which the others are part of what happens from outside. -/
namespace P9cpu.Core

variable {S σ L E J : Type*}

/-- A part of the states of a system. -/
structure Part (S σ : Type*) where
  get : S → σ
  put : S → σ → S
  get_put : ∀ s x, get (put s x) = x
  put_get : ∀ s, put s (get s) = s
  put_put : ∀ s x y, put (put s x) y = put s y

/-- The shared part, and the systems in the order in which they joined. What a system says of the
shared part does not count. -/
structure Members (S σ : Type*) where
  shared : σ
  joining : Bool
  members : List S

/-- What happens to one system alone: what it does, what it begins with and what is from outside. -/
structure Solo (S σ L E J : Type*) where
  part : Part S σ
  step : S → L → Option S
  fresh : J → σ → S
  tick : E → σ → Option σ
  /-- the steps that are not the system's own -/
  outer : L → Bool

/-- From outside, all that can happen to the shared part can happen to each system. -/
structure Solo.Open (C : Solo S σ L E J) : Prop where
  ticked : ∀ e x y s, C.tick e x = some y →
    ∃ ls, (∀ l ∈ ls, C.outer l = true) ∧ runs C.step (C.part.put s x) ls = some (C.part.put s y)
  acted : ∀ s l t u, C.step s l = some t → C.outer l = false →
    ∃ ls, (∀ l ∈ ls, C.outer l = true) ∧
      runs C.step (C.part.put u (C.part.get s)) ls = some (C.part.put u (C.part.get t))

namespace Members

inductive Label (L E J : Type*)
  | join (j : J)
  /-- no system joins from here on -/
  | close
  | member (k : ℕ) (l : L)
  | outside (e : E)

def start (x : σ) : Members S σ := ⟨x, true, []⟩

/-- A system of the family with the shared part. -/
def view (C : Solo S σ L E J) (f : Members S σ) (k : ℕ) : Option S :=
  f.members[k]?.map fun s => C.part.put s f.shared

def step (C : Solo S σ L E J) (f : Members S σ) : Label L E J → Option (Members S σ)
  | .join j => if f.joining then some { f with members := f.members ++ [C.fresh j f.shared] } else none
  | .close => if f.joining then some { f with joining := false } else none
  | .member k l =>
    if C.outer l then none
    else (f.view C k).bind fun s =>
      (C.step s l).map fun t => { f with shared := C.part.get t, members := f.members.set k t }
  | .outside e => (C.tick e f.shared).map fun x => { f with shared := x }

/-- What a label is for one of the systems. -/
def Label.own (k : ℕ) : Label L E J → Option L
  | .member i l => if i = k then some l else none
  | _ => none

def Label.joined : Label L E J → Option J
  | .join j => some j
  | _ => none

/-- What a system of the family does, in its order. -/
def own (k : ℕ) (ls : List (Label L E J)) : List L := ls.filterMap (Label.own k)

/-- What the systems begin with. -/
def joined (ls : List (Label L E J)) : List J := ls.filterMap Label.joined

section
variable {C : Solo S σ L E J} {f g : Members S σ} {l : Label L E J} {ls : List (Label L E J)}
  {k : ℕ} {s : S}

/-- What a step can do. -/
inductive Steps (C : Solo S σ L E J) (f : Members S σ) : Label L E J → Members S σ → Prop
  | joined (j : J) : Steps C f (.join j) { f with members := f.members ++ [C.fresh j f.shared] }
  | closed : Steps C f .close { f with joining := false }
  | acted (k : ℕ) (l : L) (s t : S) (hl : C.outer l = false) (hs : f.view C k = some s)
      (h : C.step s l = some t) :
      Steps C f (.member k l) { f with shared := C.part.get t, members := f.members.set k t }
  | ticked (e : E) (x : σ) (h : C.tick e f.shared = some x) :
      Steps C f (.outside e) { f with shared := x }

theorem steps_of_step (h : step C f l = some g) : Steps C f l g := by
  cases l with
  | join j =>
    simp only [step] at h
    split_ifs at h
    cases h
    exact .joined j
  | close =>
    simp only [step] at h
    split_ifs at h
    cases h
    exact .closed
  | member k l =>
    simp only [step] at h
    split_ifs at h with hl
    obtain ⟨s, hs, hstep⟩ := Option.bind_eq_some_iff.mp h
    obtain ⟨t, ht, rfl⟩ := Option.map_eq_some_iff.mp hstep
    exact .acted k l s t (by simpa using hl) hs ht
  | outside e =>
    obtain ⟨x, hx, rfl⟩ := Option.map_eq_some_iff.mp h
    exact .ticked e x hx

theorem length_of_run (h : runs (step C) f ls = some g) :
    g.members.length = f.members.length + (joined ls).length := by
  induction ls generalizing f with
  | nil =>
    cases h
    rfl
  | cons l ls ih =>
    obtain ⟨u, hu, hr⟩ := runs_cons_eq_some.mp h
    have hlen := ih hr
    cases steps_of_step hu with
    | joined j =>
      simp only [List.length_append, List.length_singleton] at hlen
      simp only [joined, Label.joined, List.filterMap_cons, List.length_cons] at hlen ⊢
      omega
    | closed => exact hlen
    | acted k l s t hl hs ht =>
      simp only [List.length_set] at hlen
      exact hlen
    | ticked e x hx => exact hlen

/-- A system that has not joined has done nothing. -/
theorem own_of_le (h : runs (step C) f ls = some g) (hk : g.members.length ≤ k) : own k ls = [] := by
  induction ls using List.reverseRecOn generalizing g with
  | nil => rfl
  | append_singleton ls l ih =>
    obtain ⟨u, hu, hr⟩ := runs_append_eq_some.mp h
    obtain ⟨v, hv, hg⟩ := runs_cons_eq_some.mp hr
    cases hg
    have hlen := length_of_run hr
    have hle : u.members.length ≤ k := by omega
    have hbefore := ih hu hle
    have hnone : Label.own k l = none := by
      cases steps_of_step hv with
      | acted i l s t hl hs ht =>
        have hi : i < u.members.length := by
          obtain ⟨m, hm, -⟩ := Option.map_eq_some_iff.mp hs
          exact (List.getElem?_eq_some_iff.mp hm).1
        have hne : i ≠ k := by omega
        simp [Label.own, hne]
      | _ => rfl
    unfold own at hbefore ⊢
    rw [List.filterMap_append, hbefore]
    simp [hnone]

/-- With the shared part as it is after the step, the system is where it was or has taken the step. -/
theorem view_of_step (h : step C f l = some g) (hs : g.view C k = some s) :
    (∃ j, l = .join j ∧ k = f.members.length ∧ s = C.part.put (C.fresh j f.shared) f.shared) ∨
      ∃ r, f.view C k = some r ∧
        ((∃ m, l.own k = some m ∧ C.outer m = false ∧ C.step r m = some s) ∨
          l.own k = none ∧ s = C.part.put r g.shared) := by
  obtain ⟨m, hm, rfl⟩ := Option.map_eq_some_iff.mp hs
  cases steps_of_step h with
  | joined j =>
    by_cases hk : k < f.members.length
    · rw [List.getElem?_append_left hk] at hm
      refine .inr ⟨C.part.put m f.shared, ?_, .inr ⟨rfl, ?_⟩⟩
      · unfold view
        rw [hm]
        rfl
      · rw [C.part.put_put]
    · have hlen := (List.getElem?_eq_some_iff.mp hm).1
      simp only [List.length_append, List.length_singleton] at hlen
      obtain rfl : k = f.members.length := by omega
      rw [List.getElem?_concat_length] at hm
      cases hm
      exact .inl ⟨j, rfl, rfl, rfl⟩
  | closed =>
    refine .inr ⟨C.part.put m f.shared, ?_, .inr ⟨rfl, ?_⟩⟩
    · unfold view
      rw [hm]
      rfl
    · rw [C.part.put_put]
  | acted i l r t hl hr ht =>
    by_cases hi : i = k
    · subst hi
      obtain ⟨n, hn, -⟩ := Option.map_eq_some_iff.mp hr
      have hlt := (List.getElem?_eq_some_iff.mp hn).1
      rw [List.getElem?_set_self hlt] at hm
      cases hm
      refine .inr ⟨r, hr, .inl ⟨l, ?_, hl, ?_⟩⟩
      · simp [Label.own]
      · rw [ht, C.part.put_get]
    · rw [List.getElem?_set_ne hi] at hm
      refine .inr ⟨C.part.put m f.shared, ?_, .inr ⟨?_, ?_⟩⟩
      · unfold view
        rw [hm]
        rfl
      · simp [Label.own, hi]
      · rw [C.part.put_put]
  | ticked e x hx =>
    refine .inr ⟨C.part.put m f.shared, ?_, .inr ⟨rfl, ?_⟩⟩
    · unfold view
      rw [hm]
      rfl
    · rw [C.part.put_put]

/-- What a step does to the shared part, each system can see happen from outside. -/
theorem outside_of_step (hC : C.Open) (h : step C f l = some g) (r : S) :
    ∃ ms, (∀ m ∈ ms, C.outer m = true) ∧
      runs C.step (C.part.put r f.shared) ms = some (C.part.put r g.shared) := by
  have hstill : ∃ ms, (∀ m ∈ ms, C.outer m = true) ∧
      runs C.step (C.part.put r f.shared) ms = some (C.part.put r f.shared) :=
    ⟨[], by simp, rfl⟩
  cases steps_of_step h with
  | joined j => exact hstill
  | closed => exact hstill
  | acted k l s t hl hs ht =>
    obtain ⟨n, -, rfl⟩ := Option.map_eq_some_iff.mp hs
    have hacted := hC.acted _ l t r ht hl
    rw [C.part.get_put] at hacted
    exact hacted
  | ticked e x hx => exact hC.ticked e f.shared x r hx

/-- A run of the family is a run of each of its systems alone, from when it joined: what the system
does is the same, and the others are from outside. -/
theorem view_run (hC : C.Open) {x : σ} (h : runs (step C) (start x) ls = some f)
    (hs : f.view C k = some s) :
    ∃ j y ms, (joined ls)[k]? = some j ∧ runs C.step (C.part.put (C.fresh j y) y) ms = some s ∧
      ms.filter (fun m => !C.outer m) = own k ls := by
  induction ls using List.reverseRecOn generalizing f s with
  | nil =>
    cases h
    cases hs
  | append_singleton ls l ih =>
    obtain ⟨u, hu, hr⟩ := runs_append_eq_some.mp h
    obtain ⟨v, hv, hf⟩ := runs_cons_eq_some.mp hr
    cases hf
    have hjoined : joined (ls ++ [l]) = joined ls ++ l.joined.toList := by
      unfold joined
      rw [List.filterMap_append]
      cases l <;> rfl
    have hown : own k (ls ++ [l]) = own k ls ++ (l.own k).toList := by
      unfold own
      rw [List.filterMap_append]
      cases hl : l.own k <;> simp [hl]
    obtain ⟨j, rfl, rfl, rfl⟩ | ⟨r, hview, hstep⟩ := view_of_step hv hs
    · have hlen := length_of_run hu
      have hnone := own_of_le hu (Nat.le_refl _)
      refine ⟨j, u.shared, [], ?_, rfl, ?_⟩
      · rw [hjoined, hlen]
        simp [start, Label.joined]
      · rw [hown, hnone]
        rfl
    · obtain ⟨j, y, ms, hj, hms, hfilter⟩ := ih hu hview
      have hj' : (joined (ls ++ [l]))[k]? = some j := by
        rw [hjoined, List.getElem?_append_left (List.getElem?_eq_some_iff.mp hj).1, hj]
      obtain ⟨m, hm, houter, hs⟩ | ⟨hm, rfl⟩ := hstep
      · refine ⟨j, y, ms ++ [m], hj', runs_append_eq_some.mpr ⟨r, hms, ?_⟩, ?_⟩
        · rw [runs_cons, hs]
          rfl
        · rw [hown, hm, List.filter_append, hfilter]
          simp [houter]
      · obtain ⟨n, -, rfl⟩ := Option.map_eq_some_iff.mp hview
        obtain ⟨outs, houts, hrun⟩ := outside_of_step hC hv n
        rw [C.part.put_put]
        refine ⟨j, y, ms ++ outs, hj', runs_append_eq_some.mpr ⟨_, hms, hrun⟩, ?_⟩
        have hnone : outs.filter (fun m => !C.outer m) = [] := by
          rw [List.filter_eq_nil_iff]
          intro m hm
          simp [houts m hm]
        rw [hown, hm, List.filter_append, hfilter, hnone]
        rfl

end

end Members
end P9cpu.Core
