import Mathlib.Data.List.Basic

/-! Runs of a partial labelled step function. Every choice of the scheduler and of
the environment is in the label, so a run is determined by its list of labels. -/
namespace P9cpu.Core

/-- What is at an index when a list has got one more element at its end. -/
theorem getElem?_concat_cases {α : Type*} {xs : List α} {x y : α} {i : ℕ}
    (h : (xs ++ [y])[i]? = some x) : xs[i]? = some x ∨ i = xs.length ∧ x = y := by
  rw [List.getElem?_append] at h
  split_ifs at h with hlt
  · exact .inl h
  · have hlen := (List.getElem?_eq_some_iff.mp h).1
    have hmem := List.mem_of_getElem? h
    rw [List.length_singleton] at hlen
    exact .inr ⟨by omega, List.mem_singleton.mp hmem⟩

variable {S L : Type*} {step : S → L → Option S}

/-- Take the labelled steps in order; `none` as soon as one of them is not enabled. -/
def runs (step : S → L → Option S) : S → List L → Option S
  | s, [] => some s
  | s, l :: ls => (step s l).bind (fun t => runs step t ls)

@[simp] theorem runs_nil (s : S) : runs step s [] = some s := rfl

@[simp] theorem runs_cons (s : S) (l : L) (ls : List L) :
    runs step s (l :: ls) = (step s l).bind (fun t => runs step t ls) := rfl

theorem runs_cons_eq_some {s u : S} {l : L} {ls : List L} :
    runs step s (l :: ls) = some u ↔ ∃ t, step s l = some t ∧ runs step t ls = some u := by
  simp [Option.bind_eq_some_iff]

theorem runs_append (s : S) (ls ms : List L) :
    runs step s (ls ++ ms) = (runs step s ls).bind (fun t => runs step t ms) := by
  induction ls generalizing s with
  | nil => rfl
  | cons l ls ih =>
    cases h : step s l with
    | none => simp [h]
    | some t => simpa [h] using ih t

theorem runs_append_eq_some {s u : S} {ls ms : List L} :
    runs step s (ls ++ ms) = some u ↔
      ∃ t, runs step s ls = some t ∧ runs step t ms = some u := by
  simp [runs_append, Option.bind_eq_some_iff]

/-- Every step of the run from `s` is taken in a state and with a label that meet `C`. -/
def Along (step : S → L → Option S) (C : S → L → Prop) : S → List L → Prop
  | _, [] => True
  | s, l :: ls => C s l ∧ ∀ t, step s l = some t → Along step C t ls

theorem Along.trivial (s : S) (ls : List L) : Along step (fun _ _ => True) s ls := by
  induction ls generalizing s with
  | nil => exact True.intro
  | cons l ls ih => exact ⟨True.intro, fun t _ => ih t⟩

theorem Along.of_forall {D : L → Prop} {ls : List L} (h : ∀ l ∈ ls, D l) (s : S) :
    Along step (fun _ l => D l) s ls := by
  induction ls generalizing s with
  | nil => exact True.intro
  | cons l ls ih =>
    exact ⟨h l (by simp), fun t _ => ih (fun m hm => h m (by simp [hm])) t⟩

theorem Along.and {C D : S → L → Prop} {s : S} {ls : List L} (hC : Along step C s ls)
    (hD : Along step D s ls) : Along step (fun s l => C s l ∧ D s l) s ls := by
  induction ls generalizing s with
  | nil => exact True.intro
  | cons l ls ih => exact ⟨⟨hC.1, hD.1⟩, fun t ht => ih (hC.2 t ht) (hD.2 t ht)⟩

theorem Along.imp {C D : S → L → Prop} (h : ∀ s l, C s l → D s l) {s : S} {ls : List L}
    (hC : Along step C s ls) : Along step D s ls := by
  induction ls generalizing s with
  | nil => exact True.intro
  | cons l ls ih => exact ⟨h s l hC.1, fun t ht => ih (hC.2 t ht)⟩

theorem Along.append {C : S → L → Prop} {s : S} {ls ms : List L} (hls : Along step C s ls)
    (hms : ∀ t, runs step s ls = some t → Along step C t ms) : Along step C s (ls ++ ms) := by
  induction ls generalizing s with
  | nil => exact hms s rfl
  | cons l ls ih =>
    refine ⟨hls.1, fun t ht => ih (hls.2 t ht) fun u hu => hms u ?_⟩
    exact runs_cons_eq_some.mpr ⟨t, ht, hu⟩

theorem Along.append_left {C : S → L → Prop} {s : S} {ls ms : List L}
    (h : Along step C s (ls ++ ms)) : Along step C s ls := by
  induction ls generalizing s with
  | nil => exact True.intro
  | cons l ls ih => exact ⟨h.1, fun t ht => ih (h.2 t ht)⟩

instance Along.decidable {C : S → L → Prop} [∀ s l, Decidable (C s l)] :
    (s : S) → (ls : List L) → Decidable (Along step C s ls)
  | _, [] => .isTrue True.intro
  | s, l :: ls =>
    match h : step s l with
    | none => decidable_of_iff (C s l) (by simp [Along, h])
    | some t =>
      have : Decidable (Along step C t ls) := Along.decidable t ls
      decidable_of_iff (C s l ∧ Along step C t ls) (by simp [Along, h])

/-- A condition on the steps of a run is a condition on its prefixes. -/
theorem along_of_prefix {C : S → L → Prop} {s : S} {ls : List L}
    (h : ∀ (ms : List L) (l : L) (ns : List L) (t : S), ls = ms ++ l :: ns →
      runs step s ms = some t → C t l) : Along step C s ls := by
  induction ls generalizing s with
  | nil => exact True.intro
  | cons l ls ih =>
    refine ⟨h [] l ls s rfl rfl, fun t ht => ih fun ms m ns u hls hu => ?_⟩
    subst hls
    exact h (l :: ms) m ns u rfl (runs_cons_eq_some.mpr ⟨t, ht, hu⟩)

/-- The run rule: what each step meeting `C` preserves, a run meeting `C` preserves. -/
theorem runs_invariant_along {C : S → L → Prop} {I : S → Prop}
    (hstep : ∀ s l t, I s → C s l → step s l = some t → I t)
    {s t : S} {ls : List L} (hC : Along step C s ls) (hr : runs step s ls = some t)
    (hs : I s) : I t := by
  induction ls generalizing s with
  | nil => cases hr; exact hs
  | cons l ls ih =>
    obtain ⟨u, hu, hr⟩ := runs_cons_eq_some.mp hr
    exact ih (hC.2 u hu) hr (hstep s l u hs hC.1 hu)

theorem runs_invariant {I : S → Prop}
    (hstep : ∀ s l t, I s → step s l = some t → I t)
    {s t : S} {ls : List L} (hr : runs step s ls = some t) (hs : I s) : I t :=
  runs_invariant_along (fun s l t hs _ h => hstep s l t hs h) (Along.trivial s ls) hr hs

/-- A relation to the start of the run that every step extends holds of the whole run. -/
theorem runs_relation {R : S → S → Prop} (hrefl : ∀ s, R s s)
    (htrans : ∀ s t u, R s t → R t u → R s u)
    (hstep : ∀ s l t, step s l = some t → R s t)
    {s t : S} {ls : List L} (hr : runs step s ls = some t) : R s t := by
  refine runs_invariant (I := fun u => R s u) (fun u l v hu h => ?_) hr (hrefl s)
  exact htrans s u v hu (hstep u l v h)

/-- What is observed of the steps of a run, in their order. -/
def observed {A : Type*} (step : S → L → Option S) (note : S → L → Option A) : S → List L → List A
  | _, [] => []
  | s, l :: ls => (note s l).toList ++
    match step s l with
    | some t => observed step note t ls
    | none => []

theorem observed_cons {A : Type*} {note : S → L → Option A} {s t : S} {l : L}
    (h : step s l = some t) (ls : List L) :
    observed step note s (l :: ls) = (note s l).toList ++ observed step note t ls := by
  simp only [observed, h]

/-! Actions that are taken one at a time. -/

section
variable {A : Type*} {does : A → S → S → Prop}

/-- From `s` to `t` by the actions in their order, each as `does` allows. -/
def Serially (does : A → S → S → Prop) : List A → S → S → Prop
  | [], s, t => s = t
  | a :: as, s, t => ∃ u, does a s u ∧ Serially does as u t

theorem serially_append {as bs : List A} {s t : S} :
    Serially does (as ++ bs) s t ↔ ∃ u, Serially does as s u ∧ Serially does bs u t := by
  induction as generalizing s with
  | nil => simp [Serially]
  | cons a as ih =>
    simp only [List.cons_append, Serially, ih]
    constructor
    · rintro ⟨v, ha, u, has, hbs⟩
      exact ⟨u, ⟨v, ha, has⟩, hbs⟩
    · rintro ⟨u, ⟨v, ha, has⟩, hbs⟩
      exact ⟨v, ha, u, has, hbs⟩

theorem Serially.concat {as : List A} {a : A} {s t u : S} (h : Serially does as s t)
    (ha : does a t u) : Serially does (as ++ [a]) s u :=
  serially_append.mpr ⟨t, h, u, ha, rfl⟩

end

/-! Ghost state. -/

section
variable {G : Type*} {note : S → L → G → G}

/-- Beside every step, the ghost state notes the label and the state before it. -/
def withGhost (step : S → L → Option S) (note : S → L → G → G) (x : S × G) (l : L) :
    Option (S × G) :=
  (step x.1 l).map fun t => (t, note x.1 l x.2)

theorem withGhost_eq_some {x y : S × G} {l : L} :
    withGhost step note x l = some y ↔ step x.1 l = some y.1 ∧ note x.1 l x.2 = y.2 := by
  unfold withGhost
  rw [Option.map_eq_some_iff]
  constructor
  · rintro ⟨t, ht, rfl⟩
    exact ⟨ht, rfl⟩
  · rintro ⟨ht, hy⟩
    exact ⟨y.1, ht, Prod.ext rfl hy⟩

/-- Ghost state neither stops a run nor changes it. -/
theorem map_runs_withGhost (s : S) (g : G) (ls : List L) :
    (runs (withGhost step note) (s, g) ls).map Prod.fst = runs step s ls := by
  induction ls generalizing s g with
  | nil => rfl
  | cons l ls ih =>
    cases h : step s l with
    | none => simp [withGhost, h]
    | some t => simpa [withGhost, h] using ih t (note s l g)

end

end P9cpu.Core
