import P9cpu.Cpu.Waits

/-! The server comes to rest: what it can do by itself gets less with each of its steps. -/
namespace P9cpu.Cpu
open Core

variable {I : Type} {s t u : Server I} {k : ℕ}

/-! What is left to do. A call gives up as much as the task that it spawns or the handle that it
appends adds, and each byte in a pipe counts for its read and its send. -/

def Phase.left : Phase → ℕ
  | .called => 7
  | .lockingChild _ => 6
  | .waiting _ => 5
  | .starting _ | .exited _ => 4
  | .binding _ | .lockingHandles _ _ | .opened _ => 3
  | .launching _ | .pushing _ _ | .joining _ _ _ => 2
  | .accepting _ _ | .lockingStdin _ | .removing _ => 1
  | .sending _ _ _ _ | .streaming _ | .writing _ _ | .done _ | .dropped | .panicked => 0

def Call.left (call : Call I) : ℕ := call.phase.left

def Task.left : Task → ℕ
  | .copy t _ =>
    match t.phase with
    | .locking | .sending _ => 2
    | .reading => 1
    | .done _ => 0
  | .forward _ => 0

def Handle.left (handle : Handle) : ℕ := if handle.joined then 0 else 1

def Session.left (session : Session I) : ℕ := (session.handles.map Handle.left).sum

def Child.left (child : Child I) : ℕ :=
  2 * child.stdout.data.length + 2 * child.stderr.data.length + child.session.elim 0 Session.left

def Server.left (s : Server I) : ℕ :=
  (s.calls.map Call.left).sum + (s.tasks.map Task.left).sum + (s.children.map Child.left).sum

/-! How the parts of a step change it. -/

theorem left_setPhase {request : Request I} {p : Phase} (hcall : s.calls[k]? = some ⟨request, p⟩)
    (q : Phase) : (s.setPhase k q).left + p.left = s.left + q.left := by
  have hsum := sum_map_modify hcall Call.left (fun call => { call with phase := q })
  simp only [Server.left, Server.setPhase, Call.left] at hsum ⊢
  omega

theorem left_setTask {j : ℕ} {task : Task} (htask : s.tasks[j]? = some task) (task' : Task) :
    (s.setTask j task').left + task.left = s.left + task'.left := by
  have hsum := sum_map_set htask Task.left task'
  simp only [Server.left, Server.setTask]
  omega

theorem left_modifyChild {c : ℕ} {child : Child I} (hchild : s.children[c]? = some child)
    (f : Child I → Child I) : (s.modifyChild c f).left + child.left = s.left + (f child).left := by
  have hsum := sum_map_modify hchild Child.left f
  simp only [Server.left, Server.modifyChild]
  omega

theorem left_modifyChild_le {c n : ℕ} {f : Child I → Child I}
    (h : ∀ child, (f child).left ≤ child.left + n) : (s.modifyChild c f).left ≤ s.left + n := by
  have hsum : ((s.children.modify c f).map Child.left).sum ≤
      (s.children.map Child.left).sum + n := sum_map_modify_le h
  simp only [Server.left, Server.modifyChild]
  omega

theorem left_closeListener (s : Server I) (k : ℕ) : (s.closeListener k).left = s.left := by
  have hlink : Child.left ∘ (fun child : Child I =>
      if child.link = .queued k then { child with link := .closed } else child) = Child.left := by
    funext child
    simp only [Function.comp_apply]
    split <;> rfl
  simp only [Server.left, Server.closeListener, List.map_map, hlink]

theorem left_closeRx_le (s : Server I) (j : ℕ) : (s.closeRx j).left ≤ s.left := by
  have hsum : ((s.tasks.modify j Task.closeRx).map Task.left).sum ≤
      (s.tasks.map Task.left).sum + 0 := by
    apply sum_map_modify_le
    intro task
    cases task <;> exact Nat.le_refl _
  simp only [Server.left, Server.closeRx]
  omega

theorem left_release (s : Server I) (k : ℕ) (p : Phase) : (s.release k p).left ≤ s.left := by
  cases p with
  | launching l | accepting l c => exact Nat.le_of_eq (left_closeListener s k)
  | sending l c peer next =>
    have hclose := left_closeListener (s.setLink peer .closed) k
    have hlink : (s.setLink peer .closed).left ≤ s.left + 0 :=
      left_modifyChild_le fun child => Nat.le_refl _
    simp only [Server.release]
    omega
  | opened j | pushing c j => exact left_closeRx_le s j
  | _ => exact Nat.le_refl _

theorem left_pushHandle (s : Server I) (c j : ℕ) : (s.pushHandle c j).left ≤ s.left + 1 := by
  apply left_modifyChild_le
  intro child
  cases hsession : child.session with
  | none => simp [Child.left, hsession]
  | some session =>
    simp only [Child.left, hsession, Option.map_some, Option.elim_some, Session.left,
      List.map_append, List.sum_append, List.map_cons, List.map_nil, List.sum_cons, List.sum_nil,
      Handle.left]
    simp only [Bool.false_eq_true, if_false]
    omega

theorem left_takeHandle {c i : ℕ} {handle : Handle} (hhandle : (s.handles c)[i]? = some handle)
    (hjoined : handle.joined = false) : (s.takeHandle c i).left + 1 = s.left := by
  unfold Server.handles at hhandle
  cases hchild : s.children[c]? with
  | none => simp [hchild] at hhandle
  | some child =>
    cases hsession : child.session with
    | none => simp [hchild, hsession] at hhandle
    | some session =>
      have hget : session.handles[i]? = some handle := by
        simpa [hchild, hsession] using hhandle
      have hchildLeft := left_modifyChild hchild (fun child => { child with
        session := child.session.map (fun session =>
          { session with handles := session.handles.modify i (fun h => { h with joined := true }) }) })
      have hsum := sum_map_modify hget Handle.left (fun h => { h with joined := true })
      have hone : handle.left = 1 := by simp [Handle.left, hjoined]
      have hzero : ({ handle with joined := true } : Handle).left = 0 := rfl
      simp only [Child.left, hsession, Option.map_some, Option.elim_some, Session.left]
        at hchildLeft
      unfold Server.takeHandle
      omega

theorem left_setPipe (child : Child I) (out : Output) (p : Pipe) :
    (child.setPipe out p).left + 2 * (child.pipe out).data.length =
      child.left + 2 * p.data.length := by
  cases out <;> simp only [Child.setPipe, Child.pipe, Child.left] <;> omega

section
variable [DecidableEq I]

/-! A step of a call that the server takes by itself. -/

theorem left_pos_of_stepStart {sid : I} {cmd : Cmd} {p : Phase} {e : StartEvent}
    (he : e.own = true) (hstep : s.stepStart k sid cmd p e = some t) : 0 < p.left := by
  revert hstep
  fun_cases Server.stepStart s k sid cmd p e
  all_goals intro hstep
  all_goals cases hstep
  all_goals first | (simp [Phase.left]; done) | cases he

omit [DecidableEq I] in
theorem left_pos_of_stepStdin {sid : I} {p : Phase} {e : StdinEvent}
    (he : e.own = true) (hstep : s.stepStdin k sid p e = some t) : 0 < p.left := by
  revert hstep
  fun_cases Server.stepStdin s k sid p e
  all_goals intro hstep
  all_goals cases hstep
  all_goals first | (simp [Phase.left]; done) | cases he

omit [DecidableEq I] in
theorem left_pos_of_stepOutput {out : Output} {sid : I} {p : Phase} {e : OutputEvent}
    (hstep : s.stepOutput k out sid p e = some t) : 0 < p.left := by
  revert hstep
  fun_cases Server.stepOutput s k out sid p e
  all_goals intro hstep
  all_goals cases hstep
  all_goals simp [Phase.left]

theorem left_pos_of_stepWait {sid : I} {p : Phase} {e : WaitEvent}
    (hstep : s.stepWait k sid p e = some t) : 0 < p.left := by
  revert hstep
  fun_cases Server.stepWait s k sid p e
  all_goals intro hstep
  all_goals cases hstep
  all_goals simp [Phase.left]

theorem left_pos_of_own {label : Label I} {request : Request I} {p : Phase}
    (hown : label.own = true) (hlabel : label.movesCall = some k)
    (hcall : s.calls[k]? = some ⟨request, p⟩) (hstep : s.step label = some t) : 0 < p.left := by
  cases label <;> simp only [Label.movesCall, Option.some.injEq, reduceCtorEq] at hlabel
  all_goals subst hlabel
  case drop => cases hown
  case dial =>
    cases p with
    | called => simp [Phase.left]
    | _ => cases request <;> simp [Server.step, hcall] at hstep
  case ninepForward =>
    cases p with
    | called => simp [Phase.left]
    | _ => cases request <;> simp [Server.step, hcall] at hstep
  case start e =>
    cases request with
    | start sid cmd =>
      simp only [Server.step, hcall] at hstep
      exact left_pos_of_stepStart hown hstep
    | _ => simp [Server.step, hcall] at hstep
  case stdin e =>
    cases request with
    | stdin sid =>
      simp only [Server.step, hcall] at hstep
      exact left_pos_of_stepStdin hown hstep
    | _ => simp [Server.step, hcall] at hstep
  case output e =>
    cases request with
    | output out sid =>
      simp only [Server.step, hcall] at hstep
      exact left_pos_of_stepOutput hstep
    | _ => simp [Server.step, hcall] at hstep
  case wait e =>
    cases request with
    | wait sid =>
      simp only [Server.step, hcall] at hstep
      exact left_pos_of_stepWait hstep
    | _ => simp [Server.step, hcall] at hstep

theorem left_callStep {request : Request I} {p q : Phase} (h : CallStep s k request p q u)
    (hp : 0 < p.left) : u.left + q.left < s.left + p.left := by
  cases h with
  | failed _ _ e hlive | dropped _ _ hlive =>
    have hle := left_release s k p
    change (s.release k p).left + 0 < s.left + p.left
    omega
  | dialed | tookPending | removed =>
    simp only [Server.left, Phase.left]
    omega
  | forwarded sid port =>
    simp [Server.left, Phase.left, Task.left]
  | spawned sid cmd l =>
    simp [Server.left, Server.spawnChild, Child.spawned, Child.left, Phase.left]
  | openedOutput out sid c =>
    simp [Server.left, Server.spawnCopy, Task.left, Phase.left]
    omega
  | accepted sid cmd l c peer =>
    have hle : (s.setLink peer (.accepted k)).left ≤ s.left + 0 :=
      left_modifyChild_le fun child => Nat.le_refl _
    simp only [Phase.left]
    omega
  | pushed out sid c j =>
    have hle := left_pushHandle s c j
    simp only [Phase.left]
    omega
  | joined sid c i ret handle task hhandle hjoined =>
    have heq := left_takeHandle hhandle hjoined
    simp only [Phase.left]
    omega
  | sent | inserted | tookItem | wrote | endedStdin => cases hp
  | _ =>
    simp only [Phase.left]
    omega

/-! A step of a task. -/

omit [DecidableEq I] in
theorem left_stepCopy {j : ℕ} {task : Copy} {rxOpen : Bool} {e : TaskEvent}
    (htask : s.tasks[j]? = some (.copy task rxOpen)) (he : e.own = true)
    (hstep : s.stepCopy j task rxOpen e = some t) : t.left < s.left := by
  have hset : ∀ task' : Task, task'.left < (Task.copy task rxOpen).left →
      (s.setTask j task').left < s.left := by
    intro task' hless
    have heq := left_setTask htask task'
    omega
  revert hstep
  fun_cases Server.stepCopy s j task rxOpen e
  all_goals intro hstep
  all_goals cases hstep
  case case5.refl len child hchild hphase p hlen =>
    -- the bytes leave the pipe
    obtain ⟨hpos, -, hle⟩ := hlen
    have hpipe := left_setPipe child task.out { p with data := p.data.drop len }
    have hmodify := left_modifyChild hchild
      (fun child => child.setPipe task.out { p with data := p.data.drop len })
    have htask' : (s.modifyChild task.child (fun child =>
        child.setPipe task.out { p with data := p.data.drop len })).tasks[j]? =
          some (.copy task rxOpen) := htask
    have heq := left_setTask htask'
      (.copy { task with phase := .sending (p.data.take len) } rxOpen)
    have htwo : (Task.copy { task with phase := .sending (p.data.take len) } rxOpen).left = 2 := rfl
    have hone : (Task.copy task rxOpen).left = 1 := by simp [Task.left, hphase]
    have hdrop : (p.data.drop len).length + len = p.data.length := by
      rw [List.length_drop]
      omega
    have hdata : p.data = (child.pipe task.out).data := rfl
    rw [← hdata] at hpipe
    simp only at hpipe hmodify
    omega
  case case11.refl | case20.refl | case23.refl | case24.refl => cases he
  all_goals
    apply hset
    simp_all [Task.left]

/-- Each step that the server takes by itself leaves less to do. -/
theorem left_ownStep (hstep : OwnStep s t) : t.left < s.left := by
  obtain ⟨label, hown, hstep⟩ := hstep
  cases serverStep_of_step hstep with
  | called request | child hchild hchildStep => cases hown
  | @moved _ k request p q u hlabel hcall hmove =>
    have hpos : 0 < p.left := left_pos_of_own hown hlabel hcall hstep
    have hcall' : u.calls[k]? = some ⟨request, p⟩ := by rw [hmove.calls_eq, hcall]
    have hless := left_callStep hmove hpos
    have heq := left_setPhase hcall' q
    omega
  | copy htask hcopy => exact left_stepCopy htask hown hcopy
  | forwardDone htask => cases hown

/-- Whichever of its own steps a server takes, in whatever order and whatever the host answers to
`bind` and `spawn`, it soon has none left. Then each call that has not returned and each task that
has not ended waits for a caller, a child or a peer, or for one that does. -/
theorem comes_to_rest {labels : List (Label I)} {s : Server I}
    (h : runs Server.step Server.new labels = some s) :
    Inevitable OwnStep Server.AtRest s := by
  have hrunning : Running s := runs_invariant running_step h running_new
  refine inevitable_of_wellFounded Nat.lt_wfRel.wf Server.left ?_ ?_ ?_ hrunning
  · rintro s t hs ⟨label, -, hstep⟩
    exact running_step s label t hs hstep
  · intro s t _ hstep
    exact left_ownStep hstep
  · intro s hs
    by_cases hstuck : ∃ t, OwnStep s t
    · exact .inr hstuck
    · exact .inl (hs.atRest (not_exists.mp hstuck))

end

/-- A `wait` call has the exit result of its child and is about to join the handles. -/
theorem comes_to_rest_waitRun :
    ∃ s, runs Server.step Server.new waitRun = some s ∧ Inevitable OwnStep Server.AtRest s := by
  have hrun : runs Server.step Server.new waitRun =
      some ((runs Server.step Server.new waitRun).get rfl) := rfl
  exact ⟨_, hrun, comes_to_rest hrun⟩

end P9cpu.Cpu
