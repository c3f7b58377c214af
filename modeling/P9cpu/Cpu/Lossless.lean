import P9cpu.Cpu.Streams

/-! Runs of the server in which no output is lost on the way to the client. -/
namespace P9cpu.Cpu
open Core

variable {I : Type} [DecidableEq I] {s t u : Server I} {k : ℕ}

/-! What a step of the server leaves of its calls and tasks. -/

/-- Calls keep their requests, and those that returned keep their answers. -/
theorem call_of_step {label : Label I} {request : Request I} {p : Phase}
    (hcall : s.calls[k]? = some ⟨request, p⟩) (hstep : s.step label = some t) :
    ∃ q, t.calls[k]? = some ⟨request, q⟩ ∧ (p.returned = true → q = p) := by
  cases serverStep_of_step hstep with
  | called r =>
    refine ⟨p, ?_, fun _ => rfl⟩
    rw [List.getElem?_append_left (List.getElem?_eq_some_iff.mp hcall).1, hcall]
  | @moved _ i r p' q u hlabel hi hmove =>
    rw [calls_moved hi hmove.calls_eq]
    split_ifs with hki
    · subst hki
      rw [hcall] at hi
      cases hi
      exact ⟨q, rfl, fun hret => by simp [hmove.live] at hret⟩
    · exact ⟨p, hcall, fun _ => rfl⟩
  | child hchild hstep =>
    rw [(stepChild_same hstep).1]
    exact ⟨p, hcall, fun _ => rfl⟩
  | copy htask hcopy =>
    rw [(stepCopy_same hcopy).1]
    exact ⟨p, hcall, fun _ => rfl⟩
  | forwardDone htask => exact ⟨p, hcall, fun _ => rfl⟩

theorem request_of_step {label : Label I} {request : Request I} {q : Phase}
    (hcall : t.calls[k]? = some ⟨request, q⟩) (hstep : s.step label = some t) :
    (∃ p, s.calls[k]? = some ⟨request, p⟩) ∨ label = .call request := by
  cases serverStep_of_step hstep with
  | called r =>
    rcases getElem?_concat_cases hcall with hold | ⟨-, hnew⟩
    · exact .inl ⟨q, hold⟩
    · exact .inr (congrArg Label.call (Call.mk.inj hnew).1.symm)
  | @moved _ i r p q' u hlabel hi hmove =>
    rw [calls_moved hi hmove.calls_eq] at hcall
    split_ifs at hcall with hki
    · cases hcall
      exact .inl ⟨p, hki ▸ hi⟩
    · exact .inl ⟨q, hcall⟩
  | child hchild hstep =>
    rw [(stepChild_same hstep).1] at hcall
    exact .inl ⟨q, hcall⟩
  | copy htask hcopy =>
    rw [(stepCopy_same hcopy).1] at hcall
    exact .inl ⟨q, hcall⟩
  | forwardDone htask => exact .inl ⟨q, hcall⟩

theorem CallStep.streams {request : Request I} {p q : Phase} {j : ℕ}
    (h : CallStep s k request p q u) (hq : q.streams = some j) :
    p.streams = some j ∨ j = s.tasks.length := by
  cases h with
  | forwarded | openedOutput => exact .inr (Option.some.inj hq).symm
  | foundHandles | pushed => exact .inl hq
  | tookItem | wrote => split at hq <;> simp [Phase.streams] at hq
  | removed sid ret => cases ret <;> simp [Phase.streams, Except.map] at hq
  | _ => simp [Phase.streams] at hq

theorem copyAt_callStep {request : Request I} {p q : Phase} {j : ℕ} {a : Copy}
    (h : CallStep s k request p q u) (ha : u.copyAt j = some a) :
    s.copyAt j = some a ∨ s.copyAt j = none ∧ a.taken = [] := by
  cases h with
  | failed _ _ e | dropped =>
    rw [copyAt_release] at ha
    exact .inl ha
  | openedOutput out sid c =>
    rw [copyAt_spawnCopy] at ha
    split_ifs at ha with hj
    · cases ha
      exact .inr ⟨by simp [Server.copyAt, hj], rfl⟩
    · exact .inl ha
  | forwarded sid port =>
    have hget := copyAt_append s (.forward none) j
    split_ifs at hget with hj
    · exact absurd (hget.symm.trans ha) (by simp)
    · exact .inl (hget.symm.trans ha)
  | _ => exact .inl ha

theorem copyAt_of_step {label : Label I} {j : ℕ} {a : Copy} (ha : t.copyAt j = some a)
    (hstep : s.step label = some t) :
    (∃ b, s.copyAt j = some b ∧ (label ≠ .task j .consume → a.taken = b.taken) ∧
      (b.Over → a = b)) ∨ s.copyAt j = none ∧ a.taken = [] := by
  have hsame : s.copyAt j = some a → ∃ b, s.copyAt j = some b ∧
      (label ≠ .task j .consume → a.taken = b.taken) ∧ (b.Over → a = b) :=
    fun hold => ⟨a, hold, fun _ => rfl, fun _ => rfl⟩
  cases serverStep_of_step hstep with
  | called r => exact .inl (hsame ha)
  | moved hlabel hcall hmove =>
    rcases copyAt_callStep hmove ha with hold | hnew
    · exact .inl (hsame hold)
    · exact .inr hnew
  | child hchild hstep =>
    refine .inl (hsame ?_)
    simpa only [Server.copyAt, (stepChild_same hstep).2.2.1] using ha
  | @copy i task rxOpen e _ htask hcopy =>
    have hti : s.copyAt i = some task := by simp [Server.copyAt, htask]
    by_cases hij : j = i
    · subst hij
      refine .inl ⟨task, hti, ?_, ?_⟩
      · intro hlabel
        obtain ⟨t', rxOpen', u, hcopyStep, rfl, -, -, -, htaken⟩ := copyStep_of_stepCopy hcopy
        rw [copyAt_setTask (hcopyStep.same.2.2.1 ▸ hti), if_pos rfl] at ha
        cases ha
        rcases htaken with htaken | rfl
        · exact htaken
        · exact absurd rfl hlabel
      · intro hover
        rw [stepCopy_over hcopy hover, copyAt_setTask hti, if_pos rfl] at ha
        exact (Option.some.inj ha).symm
    · obtain ⟨t', rxOpen', u, hcopyStep, rfl, -⟩ := copyStep_of_stepCopy hcopy
      rw [copyAt_setTask (hcopyStep.same.2.2.1 ▸ hti), if_neg hij, hcopyStep.same.2.2.1] at ha
      exact .inl (hsame ha)
  | forwardDone htask =>
    rw [copyAt_forwardDone htask] at ha
    exact .inl (hsame ha)

theorem stream_of_step {label : Label I} {request : Request I} {q : Phase} {j : ℕ}
    (hcall : t.calls[k]? = some ⟨request, q⟩) (hq : q.streams = some j)
    (hstep : s.step label = some t) :
    (∃ p, s.calls[k]? = some ⟨request, p⟩ ∧ p.streams = some j) ∨ s.copyAt j = none := by
  cases serverStep_of_step hstep with
  | called r =>
    rcases getElem?_concat_cases hcall with hold | ⟨-, hnew⟩
    · exact .inl ⟨q, hold, hq⟩
    · cases hnew
      simp [Phase.streams] at hq
  | @moved _ i r p q' u hlabel hi hmove =>
    rw [calls_moved hi hmove.calls_eq] at hcall
    split_ifs at hcall with hki
    · cases hcall
      rcases hmove.streams hq with hp | rfl
      · exact .inl ⟨p, hki ▸ hi, hp⟩
      · exact .inr (by simp [Server.copyAt])
    · exact .inl ⟨q, hcall, hq⟩
  | child hchild hstep =>
    rw [(stepChild_same hstep).1] at hcall
    exact .inl ⟨q, hcall, hq⟩
  | copy htask hcopy =>
    rw [(stepCopy_same hcopy).1] at hcall
    exact .inl ⟨q, hcall, hq⟩
  | forwardDone htask => exact .inl ⟨q, hcall, hq⟩

/-- No read of an output fails and no receiver is dropped. -/
def Label.Lossless : Label I → Prop
  | .task _ (.readFailed _) | .task _ .dropStream => False
  | _ => True

/-- A task that fails has lost its receiver, and the tasks of the streams that were given away
have theirs. -/
structure Intact (s : Server I) : Prop where
  failed : ∀ (j : ℕ) (t : Copy) (rxOpen : Bool) (e : Error), s.tasks[j]? = some (.copy t rxOpen) →
    t.phase = .done (.error e) → rxOpen = false
  received : ∀ (k : ℕ) (call : Call I) (j : ℕ) (t : Copy) (rxOpen : Bool), s.calls[k]? = some call →
    call.phase.streams = some j → s.tasks[j]? = some (.copy t rxOpen) → rxOpen = true

omit [DecidableEq I] in
theorem Intact.moved {request : Request I} {p q : Phase} (h : Intact s)
    (hcall : s.calls[k]? = some ⟨request, p⟩) (hu : u.calls = s.calls)
    (htasks : ∀ (j : ℕ) (t : Copy) (rxOpen : Bool), u.tasks[j]? = some (.copy t rxOpen) →
      s.tasks[j]? = some (.copy t rxOpen) ∨
      s.tasks[j]? = none ∧ rxOpen = true ∧ t.phase = .locking)
    (hstreams : ∀ j, q.streams = some j → p.streams = some j ∨ j = s.tasks.length) :
    Intact (u.setPhase k q) := by
  constructor
  · intro j t rxOpen e ht hphase
    rcases htasks j t rxOpen ht with hold | ⟨-, -, hlocking⟩
    · exact h.failed j t rxOpen e hold hphase
    · simp [hlocking] at hphase
  · intro i call j t rxOpen hi hj ht
    rcases htasks j t rxOpen ht with hold | ⟨-, hopen, -⟩
    · rw [calls_moved hcall hu] at hi
      split_ifs at hi with hik
      · cases hi
        rcases hstreams j hj with hp | rfl
        · exact h.received k ⟨request, p⟩ j t rxOpen hcall hp hold
        · simp at hold
      · exact h.received i call j t rxOpen hi hj hold
    · exact hopen

omit [DecidableEq I] in
theorem tasks_release {p : Phase} {j : ℕ} {t : Copy} {rxOpen : Bool}
    (ht : (s.release k p).tasks[j]? = some (.copy t rxOpen)) :
    s.tasks[j]? = some (.copy t rxOpen) ∨
      p.streams = some j ∧ rxOpen = false ∧ s.copyAt j = some t := by
  have hclose : ∀ i, (s.closeRx i).tasks[j]? = some (.copy t rxOpen) →
      s.tasks[j]? = some (.copy t rxOpen) ∨ i = j ∧ rxOpen = false ∧ s.copyAt j = some t := by
    intro i hi
    simp only [Server.closeRx, List.getElem?_modify] at hi
    split_ifs at hi with hij
    · right
      cases htask : s.tasks[j]? with
      | none => simp [htask] at hi
      | some task =>
        cases task with
        | copy t' rxOpen' =>
          rw [htask] at hi
          cases hi
          exact ⟨hij, rfl, by simp [Server.copyAt, htask]⟩
        | forward ret => simp [htask, Task.closeRx] at hi
    · exact .inl (by simpa using hi)
  cases p with
  | opened i =>
    rcases hclose i ht with hold | ⟨rfl, hclosed⟩
    · exact .inl hold
    · exact .inr ⟨rfl, hclosed⟩
  | pushing c i =>
    rcases hclose i ht with hold | ⟨rfl, hclosed⟩
    · exact .inl hold
    · exact .inr ⟨rfl, hclosed⟩
  | _ => exact .inl ht

omit [DecidableEq I] in
theorem Intact.released {request : Request I} {p q : Phase} (h : Intact s) (hstreams : Streams s)
    (hcall : s.calls[k]? = some ⟨request, p⟩) (hq : q.streams = none) :
    Intact ((s.release k p).setPhase k q) := by
  constructor
  · intro j t rxOpen e ht hphase
    rcases tasks_release ht with hold | ⟨-, hclosed, -⟩
    · exact h.failed j t rxOpen e hold hphase
    · exact hclosed
  · intro i call j t rxOpen hi hj ht
    rw [calls_moved hcall (Server.release_calls s k p)] at hi
    split_ifs at hi with hik
    · cases hi
      simp [hq] at hj
    · rcases tasks_release ht with hold | ⟨hp, -, hcopy⟩
      · exact h.received i call j t rxOpen hi hj hold
      · -- the task of `k` is no other call's
        have hi' := hstreams.call_eq hi hj hcopy
        have hk' := hstreams.call_eq hcall hp hcopy
        exact absurd (hi'.symm.trans hk') hik

theorem intact_callStep {request : Request I} {p q : Phase} (h : Intact s) (hstreams : Streams s)
    (hcall : s.calls[k]? = some ⟨request, p⟩) (hstep : CallStep s k request p q u) :
    Intact (u.setPhase k q) := by
  have hu := hstep.calls_eq
  have hq : ∀ j, q.streams = some j → p.streams = some j ∨ j = s.tasks.length :=
    fun j hj => hstep.streams hj
  have happend : ∀ (task : Task) (j : ℕ) (t : Copy) (rxOpen : Bool),
      (s.tasks ++ [task])[j]? = some (.copy t rxOpen) →
        s.tasks[j]? = some (.copy t rxOpen) ∨ s.tasks[j]? = none ∧ task = .copy t rxOpen := by
    intro task j t rxOpen ht
    rcases getElem?_concat_cases ht with hold | ⟨rfl, hnew⟩
    · exact .inl hold
    · exact .inr ⟨List.getElem?_eq_none (Nat.le_refl _), hnew.symm⟩
  cases hstep with
  | failed _ _ e | dropped => exact h.released hstreams hcall rfl
  | openedOutput out sid c =>
    refine h.moved hcall hu (fun j t rxOpen ht => ?_) hq
    rcases happend _ j t rxOpen ht with hold | ⟨hnone, heq⟩
    · exact .inl hold
    · cases heq
      exact .inr ⟨hnone, rfl, rfl⟩
  | forwarded sid port =>
    refine h.moved hcall hu (fun j t rxOpen ht => ?_) hq
    rcases happend _ j t rxOpen ht with hold | ⟨hnone, heq⟩
    · exact .inl hold
    · cases heq
  | _ => exact h.moved hcall hu (fun j t rxOpen ht => .inl ht) hq

omit [DecidableEq I] in
theorem stepCopy_intact {j : ℕ} {task : Copy} {rxOpen : Bool} {e : TaskEvent}
    (hstep : s.stepCopy j task rxOpen e = some t) (hloss : (Label.task (I := I) j e).Lossless)
    (hfailed : ∀ e, task.phase = .done (.error e) → rxOpen = false) :
    ∃ task', t.tasks = s.tasks.set j (.copy task' rxOpen) ∧
      ∀ e, task'.phase = .done (.error e) → rxOpen = false := by
  revert hstep
  fun_cases Server.stepCopy s j task rxOpen e
  all_goals intro hstep
  all_goals cases hstep
  case case11.refl => exact hloss.elim
  case case17.refl hclosed => exact ⟨_, rfl, fun _ _ => by simpa using hclosed⟩
  case case20.refl => exact ⟨_, rfl, hfailed⟩
  case case23.refl => exact ⟨_, rfl, hfailed⟩
  case case24.refl => exact hloss.elim
  all_goals exact ⟨_, rfl, by simp⟩

theorem intact_step (s : Server I) (label : Label I) (t : Server I) (h : Intact s)
    (hstreams : Streams s) (hloss : label.Lossless) (hstep : s.step label = some t) :
    Intact t := by
  cases serverStep_of_step hstep with
  | called r =>
    refine ⟨h.failed, fun i call j t rxOpen hi hj ht => ?_⟩
    rcases getElem?_concat_cases hi with hi | ⟨-, rfl⟩
    · exact h.received i call j t rxOpen hi hj ht
    · simp [Phase.streams] at hj
  | moved hlabel hcall hmove => exact intact_callStep h hstreams hcall hmove
  | child hchild hstep =>
    obtain ⟨hcalls, -, htasks, -⟩ := stepChild_same hstep
    constructor
    · rw [htasks]
      exact h.failed
    · rw [hcalls, htasks]
      exact h.received
  | @copy i task rxOpen e _ htask hcopy =>
    obtain ⟨task', htasks, hfailed⟩ :=
      stepCopy_intact hcopy hloss (fun e => h.failed i task rxOpen e htask)
    have hlt := (List.getElem?_eq_some_iff.mp htask).1
    have hback : ∀ (j : ℕ) (a : Copy) (open' : Bool), t.tasks[j]? = some (.copy a open') →
        j = i ∧ a = task' ∧ open' = rxOpen ∨ s.tasks[j]? = some (.copy a open') := by
      intro j a open' ha
      rw [htasks, List.getElem?_set] at ha
      split_ifs at ha with hij
      · cases ha
        exact .inl ⟨hij.symm, rfl, rfl⟩
      · exact .inr ha
    constructor
    · intro j a open' e' ha hphase
      rcases hback j a open' ha with ⟨rfl, rfl, rfl⟩ | hold
      · exact hfailed e' hphase
      · exact h.failed j a open' e' hold hphase
    · intro k call j a open' hk hj ha
      rw [(stepCopy_same hcopy).1] at hk
      rcases hback j a open' ha with ⟨rfl, -, rfl⟩ | hold
      · exact h.received k call j task _ hk hj htask
      · exact h.received k call j a open' hk hj hold
  | @forwardDone i ret htask =>
    have hlt := (List.getElem?_eq_some_iff.mp htask).1
    have hback : ∀ (j : ℕ) (a : Copy) (open' : Bool),
        (s.setTask i (.forward (some ret))).tasks[j]? = some (.copy a open') →
          s.tasks[j]? = some (.copy a open') := by
      intro j a open' ha
      simp only [Server.setTask, List.getElem?_set] at ha
      split_ifs at ha
      · cases ha
      · exact ha
    exact ⟨fun j a open' e ha => h.failed j a open' e (hback j a open' ha),
      fun k call j a open' hk hj ha => h.received k call j a open' hk hj (hback j a open' ha)⟩

omit [DecidableEq I] in
theorem intact_new : Intact (Server.new : Server I) := by
  constructor <;> simp [Server.new]

end P9cpu.Cpu
