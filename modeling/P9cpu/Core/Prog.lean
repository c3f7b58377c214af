import Mathlib.Control.Basic

/-! Programs as trees of operations. A program is written once; it is then run
without interruption, or one operation at a time between the steps of others. -/
namespace P9cpu.Core

/-- A program that performs operations `o : Op`, each answered by a value of `Res o`. -/
inductive Prog (Op : Type) (Res : Op → Type) (α : Type) : Type
  | ret (a : α)
  | op (o : Op) (k : Res o → Prog Op Res α)

namespace Prog

variable {Op : Type} {Res : Op → Type} {α β γ σ τ : Type}

def bind : Prog Op Res α → (α → Prog Op Res β) → Prog Op Res β
  | .ret a, f => f a
  | .op o k, f => .op o (fun r => (k r).bind f)

instance : Monad (Prog Op Res) where
  pure := .ret
  bind := bind

/-- The program that performs one operation and returns its answer. -/
def call (o : Op) : Prog Op Res (Res o) := .op o .ret

@[simp] theorem pure_def (a : α) : (pure a : Prog Op Res α) = .ret a := rfl

@[simp] theorem ret_bind (a : α) (f : α → Prog Op Res β) : (Prog.ret a >>= f) = f a := rfl

@[simp] theorem op_bind (o : Op) (k : Res o → Prog Op Res α) (f : α → Prog Op Res β) :
    (Prog.op o k >>= f) = .op o (fun r => k r >>= f) := rfl

@[simp] theorem call_bind (o : Op) (f : Res o → Prog Op Res β) :
    (call o >>= f) = .op o f := rfl

theorem bind_ret (p : Prog Op Res α) : (p >>= Prog.ret) = p := by
  induction p with
  | ret a => rfl
  | op o k ih => rw [op_bind]; congr 1; funext r; exact ih r

theorem bind_assoc (p : Prog Op Res α) (f : α → Prog Op Res β) (g : β → Prog Op Res γ) :
    ((p >>= f) >>= g) = (p >>= fun a => f a >>= g) := by
  induction p with
  | ret a => rfl
  | op o k ih => simp only [op_bind]; congr 1; funext r; exact ih r

instance : LawfulMonad (Prog Op Res) :=
  LawfulMonad.mk' _ bind_ret (fun _ _ => rfl) bind_assoc

/-! Running without interruption. -/

/-- Run to the end, `exec` answering every operation. -/
def run (exec : (o : Op) → σ → Res o × σ) : Prog Op Res α → σ → α × σ
  | .ret a, s => (a, s)
  | .op o k, s => (k (exec o s).1).run exec (exec o s).2

section
variable (exec : (o : Op) → σ → Res o × σ)

@[simp] theorem run_ret (a : α) (s : σ) : (Prog.ret a : Prog Op Res α).run exec s = (a, s) := rfl

@[simp] theorem run_op (o : Op) (k : Res o → Prog Op Res α) (s : σ) :
    (Prog.op o k).run exec s = (k (exec o s).1).run exec (exec o s).2 := rfl

@[simp] theorem run_bind (p : Prog Op Res α) (f : α → Prog Op Res β) (s : σ) :
    (p >>= f).run exec s = (f (p.run exec s).1).run exec (p.run exec s).2 := by
  induction p generalizing s with
  | ret a => rfl
  | op o k ih => exact ih _ _

/-- What every operation preserves, the program preserves. -/
theorem run_preserves {R : σ → σ → Prop} (hrefl : ∀ s, R s s)
    (htrans : ∀ s t u, R s t → R t u → R s u)
    (hexec : ∀ o s, R s (exec o s).2) (p : Prog Op Res α) (s : σ) :
    R s (p.run exec s).2 := by
  induction p generalizing s with
  | ret a => exact hrefl s
  | op o k ih => exact htrans _ _ _ (hexec o s) (ih _ _)

end

/-- Run to the end when no operation has to wait. -/
def run? (exec : (o : Op) → σ → Option (Res o × σ)) : Prog Op Res α → σ → Option (α × σ)
  | .ret a, s => some (a, s)
  | .op o k, s => (exec o s).bind (fun x => (k x.1).run? exec x.2)

@[simp] theorem run?_bind (exec : (o : Op) → σ → Option (Res o × σ)) (p : Prog Op Res α)
    (f : α → Prog Op Res β) (s : σ) :
    (p >>= f).run? exec s = (p.run? exec s).bind (fun x => (f x.1).run? exec x.2) := by
  induction p generalizing s with
  | ret a => rfl
  | op o k ih =>
    simp only [op_bind, run?]
    cases exec o s with
    | none => rfl
    | some x => exact ih x.1 x.2

/-! What the program returns, whatever else happens between its operations. -/

/-- Every answer of the environment meeting `C`, the program returns a value in `Q`. -/
def Ensures (C : (o : Op) → Res o → Prop) (Q : α → Prop) : Prog Op Res α → Prop
  | .ret a => Q a
  | .op o k => ∀ r, C o r → (k r).Ensures C Q

variable {C : (o : Op) → Res o → Prop} {Q : α → Prop} {P : β → Prop}

@[simp] theorem ensures_ret (a : α) : (Prog.ret a : Prog Op Res α).Ensures C Q ↔ Q a := Iff.rfl

@[simp] theorem ensures_op (o : Op) (k : Res o → Prog Op Res α) :
    (Prog.op o k).Ensures C Q ↔ ∀ r, C o r → (k r).Ensures C Q := Iff.rfl

@[simp] theorem ensures_bind (p : Prog Op Res α) (f : α → Prog Op Res β) :
    (p >>= f).Ensures C P ↔ p.Ensures C (fun a => (f a).Ensures C P) := by
  induction p with
  | ret a => rfl
  | op o k ih => exact forall_congr' fun r => imp_congr_right fun _ => ih r

@[simp] theorem ensures_map (p : Prog Op Res α) (f : α → β) :
    (f <$> p).Ensures C P ↔ p.Ensures C (fun a => P (f a)) := by
  rw [map_eq_pure_bind]
  exact ensures_bind p _

theorem ensures_congr {Q' : α → Prop} (h : ∀ a, Q a ↔ Q' a) (p : Prog Op Res α) :
    p.Ensures C Q ↔ p.Ensures C Q' := by
  induction p with
  | ret a => exact h a
  | op o k ih => exact forall_congr' fun r => imp_congr_right fun _ => ih r

theorem ensures_of_forall (h : ∀ a, Q a) (p : Prog Op Res α) : p.Ensures C Q := by
  induction p with
  | ret a => exact h a
  | op o k ih => exact fun r _ => ih r

theorem Ensures.mono {Q' : α → Prop} {p : Prog Op Res α} (h : p.Ensures C Q)
    (hQ : ∀ a, Q a → Q' a) : p.Ensures C Q' := by
  induction p with
  | ret a => exact hQ a h
  | op o k ih => exact fun r hr => ih r (h r hr)

/-! Programs that may return early with an error. -/

section
variable {ε : Type}

/-- Every answer of the environment meeting `C`, the program fails or its result is in `Q`. -/
def Returns (C : (o : Op) → Res o → Prop) (Q : α → Prop) (h : ExceptT ε (Prog Op Res) α) : Prop :=
  h.run.Ensures C (fun r => ∀ a, r = .ok a → Q a)

@[simp] theorem returns_pure (a : α) :
    Returns C Q (pure a : ExceptT ε (Prog Op Res) α) ↔ Q a := by
  simp [Returns]

@[simp] theorem returns_throw (e : ε) :
    Returns C Q (throw e : ExceptT ε (Prog Op Res) α) := by
  simp [Returns]

@[simp] theorem returns_bind (h : ExceptT ε (Prog Op Res) α)
    (f : α → ExceptT ε (Prog Op Res) β) :
    Returns C P (h >>= f) ↔ Returns C (fun a => Returns C P (f a)) h := by
  simp only [Returns, ExceptT.run_bind, ensures_bind]
  refine ensures_congr (fun r => ?_) h.run
  cases r with
  | ok a => simp
  | error e => simp

@[simp] theorem returns_lift (p : Prog Op Res α) :
    Returns C Q (ExceptT.lift p : ExceptT ε (Prog Op Res) α) ↔ p.Ensures C Q := by
  simp [Returns]

/-- A result that the rest of the program does not look at. -/
theorem returns_bind_of_forall {f : α → ExceptT ε (Prog Op Res) β} (hf : ∀ a, Returns C P (f a))
    (h : ExceptT ε (Prog Op Res) α) : Returns C P (h >>= f) :=
  (returns_bind h f).mpr (ensures_of_forall (fun _ a _ => hf a) h.run)

theorem Returns.mono {Q' : α → Prop} {h : ExceptT ε (Prog Op Res) α} (hh : Returns C Q h)
    (hQ : ∀ a, Q a → Q' a) : Returns C Q' h :=
  Ensures.mono hh fun _ hr a ha => hQ a (hr a ha)

end

/-! Which operations a program performs. -/

/-- Every answer of the environment meeting `C`, the program performs operations in `P` only and
returns a value in `Q`. -/
def Performs (P : Op → Prop) (C : (o : Op) → Res o → Prop) (Q : α → Prop) : Prog Op Res α → Prop
  | .ret a => Q a
  | .op o k => P o ∧ ∀ r, C o r → (k r).Performs P C Q

section
variable {P : Op → Prop} {R : β → Prop}

@[simp] theorem performs_ret (a : α) :
    (Prog.ret a : Prog Op Res α).Performs P C Q ↔ Q a := Iff.rfl

@[simp] theorem performs_op (o : Op) (k : Res o → Prog Op Res α) :
    (Prog.op o k).Performs P C Q ↔ P o ∧ ∀ r, C o r → (k r).Performs P C Q := Iff.rfl

@[simp] theorem performs_bind (p : Prog Op Res α) (f : α → Prog Op Res β) :
    (p >>= f).Performs P C R ↔ p.Performs P C (fun a => (f a).Performs P C R) := by
  induction p with
  | ret a => rfl
  | op o k ih => exact and_congr_right fun _ => forall_congr' fun r => imp_congr_right fun _ => ih r

@[simp] theorem performs_map (p : Prog Op Res α) (f : α → β) :
    (f <$> p).Performs P C R ↔ p.Performs P C (fun a => R (f a)) := by
  rw [map_eq_pure_bind]
  exact performs_bind p _

theorem Performs.mono {Q' : α → Prop} {p : Prog Op Res α} (h : p.Performs P C Q)
    (hQ : ∀ a, Q a → Q' a) : p.Performs P C Q' := by
  induction p with
  | ret a => exact hQ a h
  | op o k ih => exact ⟨h.1, fun r hr => ih r (h.2 r hr)⟩

theorem Performs.imp {P' : Op → Prop} {p : Prog Op Res α} (h : p.Performs P C Q)
    (hP : ∀ o, P o → P' o) : p.Performs P' C Q := by
  induction p with
  | ret a => exact h
  | op o k ih => exact ⟨hP o h.1, fun r hr => ih r (h.2 r hr)⟩

/-- What the operations in `P` preserve, a program of such operations preserves. -/
theorem Performs.run_preserves {exec : (o : Op) → σ → Res o × σ} {I : σ → Prop}
    {p : Prog Op Res α} {s : σ} (h : p.Performs P C Q)
    (hexec : ∀ o s, I s → P o → C o (exec o s).1 ∧ I (exec o s).2) (hs : I s) :
    Q (p.run exec s).1 ∧ I (p.run exec s).2 := by
  induction p generalizing s with
  | ret a => exact ⟨h, hs⟩
  | op o k ih =>
    obtain ⟨hC, hI⟩ := hexec o s hs h.1
    exact ih _ (h.2 _ hC) hI

end

section
variable {ε : Type} {P : Op → Prop} {R : β → Prop}

/-- `Performs` for a program that may return early: `Q` holds of what it returns at its end. -/
def Uses (P : Op → Prop) (C : (o : Op) → Res o → Prop) (Q : α → Prop)
    (h : ExceptT ε (Prog Op Res) α) : Prop :=
  h.run.Performs P C (fun r => ∀ a, r = .ok a → Q a)

@[simp] theorem uses_pure (a : α) : Uses P C Q (pure a : ExceptT ε (Prog Op Res) α) ↔ Q a := by
  simp [Uses]

@[simp] theorem uses_throw (e : ε) : Uses P C Q (throw e : ExceptT ε (Prog Op Res) α) := by
  simp [Uses]

theorem uses_bind {h : ExceptT ε (Prog Op Res) α} {f : α → ExceptT ε (Prog Op Res) β}
    (hh : Uses P C Q h) (hf : ∀ a, Q a → Uses P C R (f a)) : Uses P C R (h >>= f) := by
  unfold Uses
  rw [ExceptT.run_bind, performs_bind]
  refine Performs.mono hh fun r hr => ?_
  cases r with
  | ok a => exact hf a (hr a rfl)
  | error e => simp

theorem Uses.mono {Q' : α → Prop} {h : ExceptT ε (Prog Op Res) α} (hh : Uses P C Q h)
    (hQ : ∀ a, Q a → Q' a) : Uses P C Q' h :=
  Performs.mono hh fun _ hr a ha => hQ a (hr a ha)

end

/-! Programs that fail only for a reason. -/

section
variable {ε : Type} {P : Op → Prop} {F : Prop} {R : β → Prop}

/-- `Uses`, and a program that fails has met an answer for which `F` holds. -/
def Achieves (P : Op → Prop) (C : (o : Op) → Res o → Prop) (F : Prop) (Q : α → Prop)
    (h : ExceptT ε (Prog Op Res) α) : Prop :=
  h.run.Performs P C (fun r => (∀ a, r = .ok a → Q a) ∧ ∀ e, r = .error e → F)

@[simp] theorem achieves_pure (a : α) :
    Achieves P C F Q (pure a : ExceptT ε (Prog Op Res) α) ↔ Q a := by
  simp [Achieves]

@[simp] theorem achieves_throw (e : ε) :
    Achieves P C F Q (throw e : ExceptT ε (Prog Op Res) α) ↔ F := by
  simp [Achieves]

theorem achieves_bind {h : ExceptT ε (Prog Op Res) α} {f : α → ExceptT ε (Prog Op Res) β}
    (hh : Achieves P C F Q h) (hf : ∀ a, Q a → Achieves P C F R (f a)) :
    Achieves P C F R (h >>= f) := by
  unfold Achieves
  rw [ExceptT.run_bind, performs_bind]
  refine Performs.mono hh fun r hr => ?_
  cases r with
  | ok a => exact hf a (hr.1 a rfl)
  | error e => simp [hr.2 e rfl]

theorem Achieves.mono {Q' : α → Prop} {h : ExceptT ε (Prog Op Res) α}
    (hh : Achieves P C F Q h) (hQ : ∀ a, Q a → Q' a) : Achieves P C F Q' h :=
  Performs.mono hh fun _ hr => ⟨fun a ha => hQ a (hr.1 a ha), hr.2⟩

theorem Achieves.returns {h : ExceptT ε (Prog Op Res) α} (hh : Achieves P C F Q h) :
    Returns C Q h := by
  unfold Achieves at hh
  unfold Returns
  generalize h.run = p at hh
  induction p with
  | ret r => exact hh.1
  | op o k ih => exact fun r hr => ih r (hh.2 r hr)

end

/-! Programs that fail before they have changed anything. -/

section
variable {ε : Type} {W : Op → Prop} {I : σ → Prop} {exec : (o : Op) → σ → Res o × σ}

/-- Whatever the answers are, the program does not fail. -/
def Succeeds (h : ExceptT ε (Prog Op Res) α) : Prop :=
  h.run.Ensures (fun _ _ => True) (fun r => ∃ a, r = .ok a)

/-- After an operation in `W` the program does not fail any more. -/
def Commits (W : Op → Prop) : Prog Op Res (Except ε α) → Prop
  | .ret _ => True
  | .op o k => (W o → ∀ r, Succeeds (ExceptT.mk (k r))) ∧ ∀ r, (k r).Commits W

theorem Succeeds.commits {h : ExceptT ε (Prog Op Res) α} (hh : Succeeds h) : h.run.Commits W := by
  unfold Succeeds at hh
  generalize h.run = p at hh
  induction p with
  | ret r => exact True.intro
  | op o k ih => exact ⟨fun _ r => hh r True.intro, fun r => ih r (hh r True.intro)⟩

theorem Uses.commits_bind {h : ExceptT ε (Prog Op Res) α} {f : α → ExceptT ε (Prog Op Res) β}
    (hh : Uses (fun o => ¬ W o) (fun _ _ => True) Q h) (hf : ∀ a, Q a → (f a).run.Commits W) :
    (h >>= f).run.Commits W := by
  unfold Uses at hh
  rw [ExceptT.run_bind]
  generalize h.run = p at hh
  induction p with
  | ret r =>
    cases r with
    | ok a => exact hf a (hh a rfl)
    | error e => exact True.intro
  | op o k ih => exact ⟨fun hW => absurd hW hh.1, fun r => ih r (hh.2 r True.intro)⟩

theorem Ensures.run {p : Prog Op Res α} (h : p.Ensures (fun _ _ => True) Q) (s : σ) :
    Q (p.run exec s).1 := by
  induction p generalizing s with
  | ret a => exact h
  | op o k ih => exact ih _ (h _ True.intro) _

/-- A program that commits and fails keeps what the operations outside `W` keep. -/
theorem Commits.run_error {p : Prog Op Res (Except ε α)} {s : σ} {e : ε} (hp : p.Commits W)
    (hexec : ∀ o s, I s → ¬ W o → I (exec o s).2) (hs : I s) (hr : (p.run exec s).1 = .error e) :
    I (p.run exec s).2 := by
  induction p generalizing s with
  | ret r => exact hs
  | op o k ih =>
    have hW : ¬ W o := by
      intro hW
      obtain ⟨a, ha⟩ := Ensures.run (hp.1 hW (exec o s).1) (exec o s).2
      rw [run_op] at hr
      exact absurd (ha.symm.trans hr) (by simp)
    exact ih _ (hp.2 _) (hexec o s hs hW) hr

end

/-! Programs that do something before they succeed. -/

section
variable {ε : Type} {W : Op → Prop}

/-- The program fails, or an operation in `W` comes before its end. -/
def After (W : Op → Prop) : Prog Op Res (Except ε α) → Prop
  | .ret r => ∃ e, r = .error e
  | .op o k => W o ∨ ∀ r, (k r).After W

theorem after_bind {h : ExceptT ε (Prog Op Res) α} {f : α → ExceptT ε (Prog Op Res) β}
    (hf : ∀ a, (f a).run.After W) : (h >>= f).run.After W := by
  rw [ExceptT.run_bind]
  generalize h.run = p
  induction p with
  | ret r =>
    cases r with
    | ok a => exact hf a
    | error e => exact ⟨e, rfl⟩
  | op o k ih => exact .inr fun r => ih r

end

/-! What a program has learned from its answers when it returns. -/

section
variable {ε δ : Type} {note : (o : Op) → Res o → List δ} {Q : List δ → α → Prop}
  {R : List δ → β → Prop} {log : List δ}

/-- `Q` holds of the notes taken of the answers, added to `log`, and of what the program returns. -/
def Notes (note : (o : Op) → Res o → List δ) (Q : List δ → α → Prop) :
    List δ → Prog Op Res α → Prop
  | log, .ret a => Q log a
  | log, .op o k => ∀ r, (k r).Notes note Q (log ++ note o r)

theorem Notes.mono {Q' : List δ → α → Prop} {p : Prog Op Res α} (h : p.Notes note Q log)
    (hQ : ∀ log a, Q log a → Q' log a) : p.Notes note Q' log := by
  induction p generalizing log with
  | ret a => exact hQ log a h
  | op o k ih => exact fun r => ih r (h r)

theorem notes_of_forall (hQ : ∀ log a, Q log a) (p : Prog Op Res α) (log : List δ) :
    p.Notes note Q log := by
  induction p generalizing log with
  | ret a => exact hQ log a
  | op o k ih => exact fun r => ih r _

/-- `Notes` for a program that may return early. -/
def Learns (note : (o : Op) → Res o → List δ) (Q : List δ → α → Prop) (log : List δ)
    (h : ExceptT ε (Prog Op Res) α) : Prop :=
  h.run.Notes note (fun log r => ∀ a, r = .ok a → Q log a) log

theorem learns_pure {a : α} (h : Q log a) :
    Learns note Q log (pure a : ExceptT ε (Prog Op Res) α) := by
  intro b hb
  cases hb
  exact h

theorem learns_throw (e : ε) : Learns note Q log (throw e : ExceptT ε (Prog Op Res) α) := by
  intro b hb
  cases hb

theorem learns_bind {h : ExceptT ε (Prog Op Res) α} {f : α → ExceptT ε (Prog Op Res) β}
    (hh : Learns note Q log h) (hf : ∀ log a, Q log a → Learns note R log (f a)) :
    Learns note R log (h >>= f) := by
  unfold Learns at hh ⊢
  rw [ExceptT.run_bind]
  generalize h.run = p at hh
  induction p generalizing log with
  | ret r =>
    cases r with
    | ok a => exact hf log a (hh a rfl)
    | error e => exact learns_throw e
  | op o k ih => exact fun r => ih r (hh r)

theorem learns_of_forall (hQ : ∀ log a, Q log a) (h : ExceptT ε (Prog Op Res) α) :
    Learns note Q log h :=
  notes_of_forall (fun log _ a _ => hQ log a) h.run log

/-- A result that says nothing about the notes. -/
theorem learns_bind_of_forall {h : ExceptT ε (Prog Op Res) α}
    {f : α → ExceptT ε (Prog Op Res) β} (hf : ∀ log a, Learns note R log (f a)) :
    Learns note R log (h >>= f) := by
  have hh : Learns note (fun _ _ => True) log h := learns_of_forall (fun _ _ => True.intro) h
  exact learns_bind hh fun log a _ => hf log a

end

/-! Programs that keep to a protocol. -/

section
variable {ε Stage : Type} {next : Stage → (o : Op) → Res o → Stage → Prop} {idle : Stage → Prop}
  {q : Stage} {Q : Stage → α → Prop} {R : Stage → β → Prop}

/-- From the stage `q`, every operation leads to a next stage whatever its answer is, and `Q` holds
of the last stage and of what the program returns. -/
def Follows (next : Stage → (o : Op) → Res o → Stage → Prop) (Q : Stage → α → Prop) :
    Stage → Prog Op Res α → Prop
  | q, .ret a => Q q a
  | q, .op o k => ∀ r, ∃ q', next q o r q' ∧ (k r).Follows next Q q'

theorem follows_bind {p : Prog Op Res α} {f : α → Prog Op Res β} (h : p.Follows next Q q)
    (hf : ∀ q a, Q q a → (f a).Follows next R q) : (p >>= f).Follows next R q := by
  induction p generalizing q with
  | ret a => exact hf q a h
  | op o k ih =>
    intro r
    obtain ⟨q', hnext, hk⟩ := h r
    exact ⟨q', hnext, ih r hk⟩

theorem Follows.mono {Q' : Stage → α → Prop} {p : Prog Op Res α} (h : p.Follows next Q q)
    (hQ : ∀ q a, Q q a → Q' q a) : p.Follows next Q' q := by
  induction p generalizing q with
  | ret a => exact hQ q a h
  | op o k ih =>
    intro r
    obtain ⟨q', hnext, hk⟩ := h r
    exact ⟨q', hnext, ih r hk⟩

theorem Follows.imp {next' : Stage → (o : Op) → Res o → Stage → Prop} {p : Prog Op Res α}
    (h : p.Follows next Q q) (hnext : ∀ q o r q', next q o r q' → next' q o r q') :
    p.Follows next' Q q := by
  induction p generalizing q with
  | ret a => exact h
  | op o k ih =>
    intro r
    obtain ⟨q', hq, hk⟩ := h r
    exact ⟨q', hnext q o r q' hq, ih r hk⟩

/-- A protocol within a larger one. -/
theorem Follows.embed {Stage' : Type} {next' : Stage' → (o : Op) → Res o → Stage' → Prop}
    {p : Prog Op Res α} (g : Stage → Stage') (h : p.Follows next Q q)
    (hnext : ∀ q o r q', next q o r q' → next' (g q) o r (g q')) :
    p.Follows next' (fun q' a => ∃ q, q' = g q ∧ Q q a) (g q) := by
  induction p generalizing q with
  | ret a => exact ⟨q, rfl, h⟩
  | op o k ih =>
    intro r
    obtain ⟨q', hq, hk⟩ := h r
    exact ⟨g q', hnext q o r q' hq, ih r hk⟩

/-- A protocol with the operations that the program performs at all. -/
theorem Follows.performs {P : Op → Prop} {Q' : α → Prop} {p : Prog Op Res α}
    (h : p.Follows next Q q) (hp : p.Performs P (fun _ _ => True) Q') :
    p.Follows (fun q o r q' => next q o r q' ∧ P o) Q q := by
  induction p generalizing q with
  | ret a => exact h
  | op o k ih =>
    intro r
    obtain ⟨q', hq, hk⟩ := h r
    exact ⟨q', ⟨hq, hp.1⟩, ih r hk (hp.2 r True.intro)⟩

/-- What a program returns, as a protocol without rules. -/
theorem Ensures.follows {Q : α → Prop} {p : Prog Op Res α} (h : p.Ensures (fun _ _ => True) Q)
    (hnext : ∀ o r, next q o r q) : p.Follows next (fun _ a => Q a) q := by
  induction p with
  | ret a => exact h
  | op o k ih => exact fun r => ⟨q, hnext o r, ih r (h r True.intro)⟩

/-- Operations that leave the stage as it is. -/
theorem Performs.follows {P : Op → Prop} {Q : α → Prop} {p : Prog Op Res α}
    (h : p.Performs P (fun _ _ => True) Q) (hstay : ∀ o, P o → ∀ r, next q o r q) :
    p.Follows next (fun q' a => q' = q ∧ Q a) q := by
  induction p with
  | ret a => exact ⟨rfl, h⟩
  | op o k ih => exact fun r => ⟨q, hstay o h.1 r, ih r (h.2 r True.intro)⟩

/-- `Follows` for a program that may return early, in a stage that `idle` allows. -/
def Obeys (next : Stage → (o : Op) → Res o → Stage → Prop) (idle : Stage → Prop)
    (Q : Stage → α → Prop) (q : Stage) (h : ExceptT ε (Prog Op Res) α) : Prop :=
  h.run.Follows next (fun q r => match r with
    | .ok a => Q q a
    | .error _ => idle q) q

theorem obeys_pure {a : α} (h : Q q a) :
    Obeys next idle Q q (pure a : ExceptT ε (Prog Op Res) α) := h

theorem obeys_throw {e : ε} (h : idle q) :
    Obeys next idle Q q (throw e : ExceptT ε (Prog Op Res) α) := h

theorem obeys_bind {h : ExceptT ε (Prog Op Res) α} {f : α → ExceptT ε (Prog Op Res) β}
    (hh : Obeys next idle Q q h) (hf : ∀ q a, Q q a → Obeys next idle R q (f a)) :
    Obeys next idle R q (h >>= f) := by
  unfold Obeys
  rw [ExceptT.run_bind]
  refine follows_bind hh fun q r hr => ?_
  cases r with
  | ok a => exact hf q a hr
  | error e => exact hr

theorem Uses.obeys {P : Op → Prop} {Q : α → Prop} {h : ExceptT ε (Prog Op Res) α}
    (hh : Uses P (fun _ _ => True) Q h) (hstay : ∀ o, P o → ∀ r, next q o r q) (hq : idle q) :
    Obeys next idle (fun q' a => q' = q ∧ Q a) q h := by
  refine (Performs.follows hh hstay).mono fun q' r hr => ?_
  obtain ⟨rfl, hr⟩ := hr
  cases r with
  | ok a => exact ⟨rfl, hr a rfl⟩
  | error e => exact hq

end
end Prog
end P9cpu.Core
