import Mathlib.Data.List.Basic

/-! Scripts: calls to a system in a fixed order, up to the first failure that matters. The system
answers a call in view of all the calls before it. -/
namespace P9cpu.Core

inductive Item (C : Type) (E : C → Type) (ε : Type)
  /-- a call that the script does not survive when it fails -/
  | call (c : C) (err : E c → ε)
  /-- a call whose failure does not matter -/
  | attempt (c : C)
  | stop (e : ε)

abbrev Script (C : Type) (E : C → Type) (ε : Type) := List (Item C E ε)

variable {C : Type} {E : C → Type} {ε : Type}

def Item.calls : Item C E ε → List C
  | .call c _ | .attempt c => [c]
  | .stop _ => []

namespace Script

def calls (is : Script C E ε) : List C := is.flatMap Item.calls

@[simp] theorem calls_nil : calls ([] : Script C E ε) = [] := rfl

@[simp] theorem calls_cons (i : Item C E ε) (is : Script C E ε) :
    calls (i :: is) = i.calls ++ calls is := rfl

@[simp] theorem calls_append (is js : Script C E ε) : calls (is ++ js) = calls is ++ calls js :=
  List.flatMap_append

end Script

variable (sys : List C → (c : C) → Except (E c) Unit)

/-- Why the script ends at the item, when `log` was called before it. -/
def Item.failure (log : List C) : Item C E ε → Option ε
  | .call c err =>
    match sys log c with
    | .ok _ => none
    | .error e => some (err e)
  | .attempt _ => none
  | .stop e => some e

namespace Script

/-- The result and all calls, when `log` was called before. -/
def run : Script C E ε → List C → Except ε Unit × List C
  | [], log => (.ok (), log)
  | i :: is, log =>
    match i.failure sys log with
    | none => run is (log ++ i.calls)
    | some e => (.error e, log ++ i.calls)

theorem run_append (is js : Script C E ε) (log : List C) :
    run sys (is ++ js) log = match run sys is log with
      | (.ok _, log) => run sys js log
      | (.error e, log) => (.error e, log) := by
  induction is generalizing log with
  | nil => rfl
  | cons i is ih =>
    rw [List.cons_append, run, run]
    cases hi : i.failure sys log with
    | none => exact ih _
    | some e => rfl

/-- No item of the script fails in its place. -/
def Passes : Script C E ε → List C → Prop
  | [], _ => True
  | i :: is, log => i.failure sys log = none ∧ Passes is (log ++ i.calls)

variable {sys} {is js : Script C E ε} {log : List C}

theorem run_of_passes (h : Passes sys is log) : run sys is log = (.ok (), log ++ calls is) := by
  induction is generalizing log with
  | nil => simp [run]
  | cons i is ih =>
    rw [run, h.1]
    simp only [ih h.2, calls_cons, List.append_assoc]

/-- The script ends at its first item that fails. -/
theorem run_of_failure {i : Item C E ε} {e : ε} (h : Passes sys is log)
    (hi : i.failure sys (log ++ calls is) = some e) :
    run sys (is ++ i :: js) log = (.error e, log ++ calls is ++ i.calls) := by
  rw [run_append, run_of_passes h]
  simp only [run, hi]

/-- A script passes, or there is a first item that fails. -/
theorem passes_or_fails (is : Script C E ε) (log : List C) : Passes sys is log ∨
    ∃ before i after e, is = before ++ i :: after ∧ Passes sys before log ∧
      i.failure sys (log ++ calls before) = some e := by
  induction is generalizing log with
  | nil => exact .inl True.intro
  | cons i is ih =>
    cases hi : i.failure sys log with
    | some e => exact .inr ⟨[], i, is, e, rfl, True.intro, by simpa using hi⟩
    | none =>
      rcases ih (log ++ i.calls) with hpass | ⟨before, j, after, e, rfl, hbefore, hj⟩
      · exact .inl ⟨hi, hpass⟩
      · refine .inr ⟨i :: before, j, after, e, rfl, ⟨hi, hbefore⟩, ?_⟩
        rwa [calls_cons, ← List.append_assoc]

/-- Where the script starts in `P`, it ends in `Q`, or with an error in `R`. -/
def Triple (sys : List C → (c : C) → Except (E c) Unit) (P : List C → Prop) (is : Script C E ε)
    (Q R : List C → Prop) : Prop :=
  ∀ log, P log → match run sys is log with
    | (.ok _, log) => Q log
    | (.error _, log) => R log

variable {P Q Q' R : List C → Prop}

theorem triple_nil : Triple sys P ([] : Script C E ε) P R := fun _ h => h

theorem triple_append (his : Triple sys P is Q R) (hjs : Triple sys Q js Q' R) :
    Triple sys P (is ++ js) Q' R := by
  intro log hlog
  have hfirst := his log hlog
  rw [run_append]
  rcases hrun : run sys is log with ⟨e | a, log'⟩ <;> rw [hrun] at hfirst
  · exact hfirst
  · exact hjs log' hfirst

theorem triple_call {c : C} {err : E c → ε}
    (hok : ∀ log, P log → sys log c = .ok () → Q (log ++ [c]))
    (herror : ∀ log e, P log → sys log c = .error e → R (log ++ [c])) :
    Triple sys P [.call c err] Q R := by
  intro log hlog
  cases hc : sys log c with
  | error e =>
    have hrun : run sys [.call c err] log = (.error (err e), log ++ [c]) := by
      simp [run, Item.failure, Item.calls, hc]
    rw [hrun]
    exact herror log e hlog hc
  | ok =>
    have hrun : run sys [.call c err] log = (.ok (), log ++ [c]) := by
      simp [run, Item.failure, Item.calls, hc]
    rw [hrun]
    exact hok log hlog hc

theorem triple_attempt {c : C} (h : ∀ log, P log → Q (log ++ [c])) :
    Triple sys P [(.attempt c : Item C E ε)] Q R := h

theorem triple_stop {e : ε} (h : ∀ log, P log → R log) : Triple sys P [.stop e] Q R := by
  intro log hlog
  have hrun : run sys [.stop e] log = (.error e, log ++ []) := rfl
  rw [hrun, List.append_nil]
  exact h log hlog

/-- What a script calls is known when it passes. -/
theorem triple_calls (h : Triple sys P is Q R) (log : List C) :
    Triple sys (fun l => l = log ∧ P l) is (fun l => l = log ++ calls is ∧ Q l) R := by
  rintro l ⟨hl, hlog⟩
  subst hl
  have hend := h l hlog
  have hcases : Passes sys is l ∨ _ := passes_or_fails is l
  rcases hcases with hpass | ⟨before, i, after, e, rfl, hbefore, hi⟩
  · rw [run_of_passes hpass] at hend ⊢
    exact ⟨rfl, hend⟩
  · rw [run_of_failure hbefore hi] at hend ⊢
    exact hend

theorem triple_weaken (h : Triple sys P is Q R) (hQ : ∀ log, Q log → Q' log) :
    Triple sys P is Q' R := by
  intro log hlog
  have hend := h log hlog
  rcases hrun : run sys is log with ⟨e | a, log'⟩ <;> rw [hrun] at hend
  · exact hend
  · exact hQ log' hend

end Script

namespace Script
variable {sys} {α : Type} {R : List C → Prop}

theorem triple_exists {P : α → List C → Prop} {Q : List C → Prop} {is : Script C E ε}
    (h : ∀ a, Triple sys (P a) is Q R) : Triple sys (fun log => ∃ a, P a log) is Q R := by
  rintro log ⟨a, ha⟩
  exact h a log ha

/-- A loop: the invariant speaks of what it has been through. -/
theorem triple_flatMap {P : List α → List C → Prop} {f : α → Script C E ε}
    (h : ∀ done a, Triple sys (P done) (f a) (P (done ++ [a])) R) (done as : List α) :
    Triple sys (P done) (as.flatMap f) (P (done ++ as)) R := by
  induction as generalizing done with
  | nil =>
    rw [List.append_nil]
    exact triple_nil
  | cons a as ih =>
    have hrest := ih (done ++ [a])
    rw [List.append_assoc, List.singleton_append] at hrest
    exact triple_append (h done a) hrest

end Script

/-! What the calls of a log do to a state. -/

section
variable {S : Type} (apply : S → C → S)

/-- The state after the calls, when `log` was called before: a call that fails changes nothing. -/
def effects (s : S) (log : List C) : List C → S
  | [] => s
  | c :: cs =>
    match sys log c with
    | .ok _ => effects (apply s c) (log ++ [c]) cs
    | .error _ => effects s (log ++ [c]) cs

variable {sys apply}

theorem effects_append (s : S) (log cs ds : List C) :
    effects sys apply s log (cs ++ ds) =
      effects sys apply (effects sys apply s log cs) (log ++ cs) ds := by
  induction cs generalizing s log with
  | nil => simp [effects]
  | cons c cs ih =>
    have hlog : log ++ c :: cs = log ++ [c] ++ cs := by simp
    rw [List.cons_append, effects, effects, hlog]
    cases sys log c with
    | ok => exact ih _ _
    | error e => exact ih _ _

/-- The last call has succeeded. -/
theorem effects_ok {s : S} {log : List C} {c : C} (h : sys log c = .ok ()) :
    effects sys apply s [] (log ++ [c]) = apply (effects sys apply s [] log) c := by
  rw [effects_append]
  simp only [List.nil_append, effects, h]

theorem effects_error {s : S} {log : List C} {c : C} {e : E c} (h : sys log c = .error e) :
    effects sys apply s [] (log ++ [c]) = effects sys apply s [] log := by
  rw [effects_append]
  simp only [List.nil_append, effects, h]

end

end P9cpu.Core
