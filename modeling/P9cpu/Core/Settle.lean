import P9cpu.Core.Prog
import Mathlib.Logic.Hydra
import Mathlib.Logic.Relation

/-! What a system comes to however it goes on, and why programs end. -/
namespace P9cpu.Core

section
variable {S : Type*} {move : S → S → Prop} {P : S → Prop}

/-- Whichever moves are chosen, finitely many of them lead to a state in `P`, and none of the
states before it is stuck. -/
inductive Inevitable (move : S → S → Prop) (P : S → Prop) : S → Prop
  | now {s : S} (h : P s) : Inevitable move P s
  | later {s : S} (hgo : ∃ t, move s t) (h : ∀ t, move s t → Inevitable move P t) :
      Inevitable move P s

theorem Inevitable.mono {Q : S → Prop} {s : S} (h : Inevitable move P s) (hPQ : ∀ t, P t → Q t) :
    Inevitable move Q s := by
  induction h with
  | now h => exact .now (hPQ _ h)
  | later hgo h ih => exact .later hgo ih

/-- An endless choice of moves comes by a state in `P`. -/
theorem Inevitable.met {s : S} (h : Inevitable move P s) : ∀ trace : ℕ → S, trace 0 = s →
    (∀ n, move (trace n) (trace (n + 1))) → ∃ n, P (trace n) := by
  induction h with
  | now h =>
    intro trace hstart _
    exact ⟨0, hstart ▸ h⟩
  | later hgo h ih =>
    intro trace hstart hmove
    have hfirst : move _ (trace 1) := hstart ▸ hmove 0
    have hrest : ∃ n, P (trace (n + 1)) :=
      ih (trace 1) hfirst (fun n => trace (n + 1)) rfl fun n => hmove (n + 1)
    obtain ⟨n, hn⟩ := hrest
    exact ⟨n + 1, hn⟩

/-- The rule for what is inevitable: what is left to do gets less with every move, the moves keep
an invariant, and with it there is a move to take until `P` holds. -/
theorem inevitable_of_wellFounded {M : Type*} {less : M → M → Prop} (hwf : WellFounded less)
    {I : S → Prop} (left : S → M) (hkeep : ∀ s t, I s → move s t → I t)
    (hless : ∀ s t, I s → move s t → less (left t) (left s))
    (hgo : ∀ s, I s → P s ∨ ∃ t, move s t) {s : S} (hs : I s) : Inevitable move P s := by
  have hall : ∀ m, ∀ s, left s = m → I s → Inevitable move P s := by
    intro m
    induction m using hwf.induction with
    | _ m ih =>
      intro s hm hs
      rcases hgo s hs with hP | hmove
      · exact .now hP
      · apply Inevitable.later hmove
        intro t ht
        have hlt : less (left t) m := hm ▸ hless s t hs ht
        exact ih (left t) hlt t rfl (hkeep s t hs ht)
  exact hall (left s) s rfl hs

end

/-! Parties that wait for each other. -/

section
variable {P : Type*} {waits : P → P → Prop} {live outside : P → Prop}

/-- Where each party waits for one of a lower rank there is no circle: a chain of parties that
wait for the next ends at one that waits for something outside. -/
theorem waits_end_outside (rank : P → ℕ)
    (h : ∀ p, live p → outside p ∨ ∃ q, waits p q ∧ live q ∧ rank q < rank p) {p : P}
    (hp : live p) : ∃ q, Relation.ReflTransGen waits p q ∧ outside q := by
  have hall : ∀ n p, rank p < n → live p → ∃ q, Relation.ReflTransGen waits p q ∧ outside q := by
    intro n
    induction n with
    | zero =>
      intro p hn
      omega
    | succ n ih =>
      intro p hn hp
      rcases h p hp with houtside | ⟨q, hwaits, hq, hrank⟩
      · exact ⟨p, .refl, houtside⟩
      · have hlt : rank q < n := by omega
        obtain ⟨r, hchain, hr⟩ := ih q hlt hq
        exact ⟨r, .head hwaits hchain, hr⟩
  exact hall (rank p + 1) p (Nat.lt_succ_self _) hp

end

/-! What is left of a program. -/

section
variable {Op : Type} {Res : Op → Type} {α : Type}

/-- What is left of a program after its first operation. -/
inductive Prog.Left : Prog Op Res α → Prog Op Res α → Prop
  | op (o : Op) (k : Res o → Prog Op Res α) (r : Res o) : Left (k r) (.op o k)

/-- A program ends, whatever its operations are answered. -/
theorem Prog.wellFounded_left : WellFounded (Left : Prog Op Res α → Prog Op Res α → Prop) := by
  constructor
  intro p
  induction p with
  | ret a =>
    constructor
    intro q hq
    cases hq
  | op o k ih =>
    constructor
    intro q hq
    cases hq with
    | op o k r => exact ih r

end

/-! One of many goes on. -/

section
variable {α : Type*} {less : α → α → Prop}

/-- One element of a list gets less, the others stay. -/
theorem cutExpand_set {xs : List α} {i : ℕ} {x y : α} (hi : xs[i]? = some x) (hless : less y x) :
    Relation.CutExpand less (xs.set i y : Multiset α) (xs : Multiset α) := by
  obtain ⟨hlt, hx⟩ := List.getElem?_eq_some_iff.mp hi
  have hset : (xs.set i y : Multiset α) = (xs.eraseIdx i : Multiset α) + {y} := by
    have hperm : (xs.set i y).Perm (y :: xs.eraseIdx i) := List.set_perm_cons_eraseIdx hlt y
    rw [Multiset.coe_eq_coe.mpr hperm, ← Multiset.cons_coe, add_comm, Multiset.singleton_add]
  have hxs : (xs : Multiset α) = (xs.eraseIdx i : Multiset α) + {x} := by
    have hperm : (xs[i] :: xs.eraseIdx i).Perm xs := List.getElem_cons_eraseIdx_perm hlt
    rw [hx] at hperm
    rw [← Multiset.coe_eq_coe.mpr hperm, ← Multiset.cons_coe, add_comm, Multiset.singleton_add]
  rw [hset, hxs]
  exact Relation.cutExpand_add_single _ hless

/-- What a change of one element of a list does to a sum over it. -/
theorem sum_map_modify {xs : List α} {i : ℕ} {x : α} (hi : xs[i]? = some x) (f : α → ℕ)
    (g : α → α) : ((xs.modify i g).map f).sum + f x = (xs.map f).sum + f (g x) := by
  induction xs generalizing i with
  | nil => simp at hi
  | cons y ys ih =>
    cases i with
    | zero =>
      obtain rfl : y = x := by simpa using hi
      simp only [List.modify_zero_cons, List.map_cons, List.sum_cons]
      omega
    | succ i =>
      have hrest : ((ys.modify i g).map f).sum + f x = (ys.map f).sum + f (g x) :=
        ih (by simpa using hi)
      simp only [List.modify_succ_cons, List.map_cons, List.sum_cons]
      omega

theorem sum_map_modify_le {xs : List α} {i n : ℕ} {f : α → ℕ} {g : α → α}
    (h : ∀ x, f (g x) ≤ f x + n) : ((xs.modify i g).map f).sum ≤ (xs.map f).sum + n := by
  cases hi : xs[i]? with
  | none =>
    have hsame : xs.modify i g = xs := by
      rw [List.modify_eq_self]
      exact List.getElem?_eq_none_iff.mp hi
    rw [hsame]
    omega
  | some x =>
    have hsum := sum_map_modify hi f g
    have hx := h x
    omega

theorem sum_map_set {xs : List α} {i : ℕ} {x : α} (hi : xs[i]? = some x) (f : α → ℕ) (y : α) :
    ((xs.set i y).map f).sum + f x = (xs.map f).sum + f y := by
  have hset : xs.set i y = xs.modify i (fun _ => y) := by
    apply List.ext_getElem?
    intro j
    rw [List.getElem?_set', List.getElem?_modify]
    split <;> simp_all
  rw [hset]
  exact sum_map_modify hi f fun _ => y

end
end P9cpu.Core
