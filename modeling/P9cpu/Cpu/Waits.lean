import P9cpu.Core.Settle
import P9cpu.Cpu.Joins
import P9cpu.Cpu.Streams

/-! Who waits for whom on a server that cannot go on by itself: every chain of calls and tasks
that wait for each other ends at one that waits for something outside. -/
namespace P9cpu.Cpu
open Core

variable {I : Type} {s t u : Server I} {k : ℕ}

/-! The steps of the server itself. It binds and spawns at once, whatever the host answers; what
waits for a caller, a child or a peer is not among them. -/

def StartEvent.own : StartEvent → Bool
  | .sent | .sendFailed _ | .acceptFailed _ => false
  | _ => true

def StdinEvent.own : StdinEvent → Bool
  | .getSession | .lock => true
  | _ => false

def WaitEvent.own : WaitEvent → Bool
  | .waitFailed _ => false
  | _ => true

def TaskEvent.own : TaskEvent → Bool
  | .lock | .read _ | .eof | .sent | .sendClosed => true
  | _ => false

def Label.own : Label I → Bool
  | .dial _ | .ninepForward _ _ | .output _ _ => true
  | .start _ e => e.own
  | .stdin _ e => e.own
  | .wait _ e => e.own
  | .task _ e => e.own
  | .call _ | .drop _ | .child _ _ => false

def OwnStep [DecidableEq I] (s t : Server I) : Prop :=
  ∃ label : Label I, label.own = true ∧ s.step label = some t

/-! What the calls and the maps name is there. -/

/-- A call of the request can be in the phase. -/
def Request.reaches : Request I → Phase → Bool
  | _, .called | _, .done _ | _, .dropped | _, .panicked => true
  | .start _ _, .starting _ | .start _ _, .binding _ | .start _ _, .launching _
  | .start _ _, .accepting _ _ | .start _ _, .sending _ _ _ _ => true
  | .stdin _, .lockingStdin _ | .stdin _, .streaming _ | .stdin _, .writing _ _ => true
  | .output _ _, .opened _ | .output _ _, .pushing _ _ => true
  | .wait _, .lockingChild _ | .wait _, .waiting _ | .wait _, .exited _
  | .wait _, .lockingHandles _ _ | .wait _, .joining _ _ _ | .wait _, .removing _ => true
  | _, _ => false

def PendingSession.tasks (session : PendingSession) : List ℕ := (session.ninep.map Prod.snd).toList

/-- The tasks that a call brings to the handles of a session. -/
def Phase.brings : Phase → List ℕ
  | .starting ninep | .binding ninep => (ninep.map Prod.snd).toList
  | .launching l | .accepting l _ | .sending l _ _ _ => l.handles
  | .opened j | .pushing _ j => [j]
  | _ => []

structure Sound (s : Server I) : Prop where
  reached : ∀ (k : ℕ) (call : Call I), s.calls[k]? = some call →
    call.request.reaches call.phase = true
  visited : ∀ (k : ℕ) (call : Call I) (c : ℕ), s.calls[k]? = some call →
    call.phase.visits = some c → c < s.children.length
  brought : ∀ (k : ℕ) (call : Call I), s.calls[k]? = some call →
    ∀ j ∈ call.phase.brings, j < s.tasks.length
  pending : ∀ (sid : I) (session : PendingSession), s.pending sid = some session →
    ∀ j ∈ session.tasks, j < s.tasks.length
  handles : ∀ (c : ℕ), ∀ handle ∈ s.handles c, handle.task < s.tasks.length

/-- Nothing is taken away, and what is new is there. -/
theorem Sound.moved {request : Request I} {p q : Phase} (h : Sound s)
    (hcall : s.calls[k]? = some ⟨request, p⟩) (hu : u.calls = s.calls)
    (hchildren : s.children.length ≤ u.children.length)
    (htasks : s.tasks.length ≤ u.tasks.length) (hreaches : request.reaches q = true)
    (hvisits : ∀ c, q.visits = some c → c < u.children.length)
    (hbrings : ∀ j ∈ q.brings, j < u.tasks.length)
    (hpending : ∀ sid session, u.pending sid = some session →
      ∀ j ∈ session.tasks, j < u.tasks.length)
    (hhandles : ∀ c, ∀ handle ∈ u.handles c, handle.task < u.tasks.length) :
    Sound (u.setPhase k q) where
  reached i call hi := by
    rw [calls_moved hcall hu] at hi
    split_ifs at hi with hik
    · cases hi
      exact hreaches
    · exact h.reached i call hi
  visited i call c hi hc := by
    change c < u.children.length
    rw [calls_moved hcall hu] at hi
    split_ifs at hi with hik
    · cases hi
      exact hvisits c hc
    · have hold : c < s.children.length := h.visited i call c hi hc
      omega
  brought i call hi j hj := by
    change j < u.tasks.length
    rw [calls_moved hcall hu] at hi
    split_ifs at hi with hik
    · cases hi
      exact hbrings j hj
    · have hold : j < s.tasks.length := h.brought i call hi j hj
      omega
  pending := hpending
  handles := hhandles

/-- A step that only the children and the tasks notice. -/
theorem Sound.same (h : Sound s) (hcalls : t.calls = s.calls) (hpending : t.pending = s.pending)
    (hlook : t.look Child.session = s.look Child.session)
    (hchildren : t.children.length = s.children.length)
    (htasks : t.tasks.length = s.tasks.length) : Sound t := by
  constructor
  case reached =>
    rw [hcalls]
    exact h.reached
  case visited =>
    rw [hcalls, hchildren]
    exact h.visited
  case brought =>
    rw [hcalls, htasks]
    exact h.brought
  case pending =>
    rw [hpending, htasks]
    exact h.pending
  case handles =>
    rw [Server.handles_of_look hlook, htasks]
    exact h.handles

theorem Sound.called (h : Sound s) (request : Request I) :
    Sound { s with calls := s.calls ++ [⟨request, .called⟩] } := by
  constructor
  case reached =>
    intro i call hi
    rcases getElem?_concat_cases hi with hold | ⟨-, rfl⟩
    · exact h.reached i call hold
    · cases request <;> rfl
  case visited =>
    intro i call c hi hc
    rcases getElem?_concat_cases hi with hold | ⟨-, rfl⟩
    · exact h.visited i call c hold hc
    · cases hc
  case brought =>
    intro i call hi j hj
    rcases getElem?_concat_cases hi with hold | ⟨-, rfl⟩
    · exact h.brought i call hold j hj
    · cases hj
  case pending => exact h.pending
  case handles => exact h.handles

theorem sound_new : Sound (Server.new : Server I) := by
  constructor <;> simp [Server.new, Server.handles]

section
variable [DecidableEq I]

/-! What a step of a call adds. -/

theorem CallStep.reaches {request : Request I} {p q : Phase} (h : CallStep s k request p q u) :
    request.reaches q = true := by
  cases h with
  | tookItem | wrote => split <;> rfl
  | _ => rfl

theorem CallStep.children_le {request : Request I} {p q : Phase} (h : CallStep s k request p q u) :
    s.children.length ≤ u.children.length := by
  cases h with
  | failed _ p | dropped _ p => exact Nat.le_of_eq (Server.length_release s k p).symm
  | spawned sid cmd l => simp [Server.spawnChild]
  | accepted | wrote | pushed | joined =>
    exact Nat.le_of_eq (Server.length_modifyChild s _ _).symm
  | inserted sid cmd l c peer =>
    simp [Server.insertSession, Server.length_modifyChild, Server.length_closeListener,
      Server.setLink]
  | _ => exact Nat.le_refl _

theorem CallStep.tasks_le {request : Request I} {p q : Phase} (h : CallStep s k request p q u) :
    s.tasks.length ≤ u.tasks.length := by
  cases h with
  | failed _ p | dropped _ p => exact Nat.le_of_eq (length_tasks_release s k p).symm
  | forwarded => simp
  | openedOutput => simp [Server.spawnCopy]
  | _ => exact Nat.le_refl _

theorem CallStep.visits {request : Request I} {p q : Phase} (h : CallStep s k request p q u)
    {c : ℕ} (hq : q.visits = some c) : p.visits = some c ∨ s.sessions request.sid = some c := by
  cases h with
  | tookItem | wrote => split at hq <;> cases hq
  | foundHandles out sid c j hc | foundChild sid c hc | foundJoins sid c ret hc =>
    obtain rfl := Option.some.inj hq
    exact .inr hc
  | lockedChild | lockedHandles | joined => exact .inl hq
  | _ => cases hq

theorem CallStep.brings {request : Request I} {p q : Phase} (h : CallStep s k request p q u)
    {j : ℕ} (hj : j ∈ q.brings) : j ∈ p.brings ∨ j < u.tasks.length ∨
      ∃ session, s.pending request.sid = some session ∧ j ∈ session.tasks := by
  cases h with
  | tookPending sid cmd session hsession => exact .inr (.inr ⟨session, hsession, hj⟩)
  | lockedSessions | spawned | accepted | sent | foundHandles => exact .inl hj
  | bound sid cmd ninep l hport hcmd hhandles =>
    left
    have hl : j ∈ l.handles := hj
    rw [hhandles] at hl
    exact hl
  | openedOutput out sid c =>
    have hlast : j = s.tasks.length := List.mem_singleton.mp hj
    simp [hlast, Server.spawnCopy]
  | tookItem | wrote => split at hj <;> cases hj
  | _ => cases hj

theorem CallStep.pending {request : Request I} {p q : Phase} (h : CallStep s k request p q u)
    {sid : I} {session : PendingSession} (hsession : u.pending sid = some session) :
    s.pending sid = some session ∨ ∀ j ∈ session.tasks, j < u.tasks.length := by
  by_cases hsid : sid = request.sid
  · subst hsid
    cases h with
    | failed | dropped =>
      rw [release_pending] at hsession
      exact .inl hsession
    | dialed sid =>
      right
      have hnew : some (PendingSession.mk none) = some session := by
        simpa [Request.sid] using hsession
      obtain rfl := Option.some.inj hnew
      rintro j ⟨⟩
    | forwarded sid port =>
      right
      have hnew : some (PendingSession.mk (some (port, s.tasks.length))) = some session := by
        simpa [Request.sid] using hsession
      obtain rfl := Option.some.inj hnew
      intro j hj
      have hlast : j = s.tasks.length := List.mem_singleton.mp hj
      simp [hlast]
    | tookPending sid =>
      simp [Request.sid] at hsession
    | _ => exact .inl hsession
  · rw [(h.maps_of_ne hsid).1] at hsession
    exact .inl hsession

theorem mem_handles_insertSession {sid : I} {l : Launch} {c peer d : ℕ} {handle : Handle}
    (h : handle ∈ (s.insertSession k sid l c peer).handles d) :
    handle ∈ s.handles d ∨ handle.task ∈ l.handles := by
  by_cases hdc : d = c
  · subst hdc
    right
    unfold Server.handles Server.insertSession Server.modifyChild at h
    simp only [List.getElem?_modify_eq] at h
    generalize ((s.setLink peer (.delivered l.cmd)).closeListener k).children[d]? = child at h
    cases child with
    | none => cases h
    | some child =>
      obtain ⟨j, hj, rfl⟩ := List.mem_map.mp h
      exact hj
  · rw [handles_insertSession hdc] at h
    exact .inl h

theorem CallStep.handles {request : Request I} {p q : Phase} (h : CallStep s k request p q u)
    {d : ℕ} {handle : Handle} (hd : handle ∈ u.handles d) :
    (∃ old ∈ s.handles d, old.task = handle.task) ∨ handle.task ∈ p.brings := by
  have hsame : u.look Child.session = s.look Child.session →
      ∃ old ∈ s.handles d, old.task = handle.task := by
    intro hlook
    rw [Server.handles_of_look hlook] at hd
    exact ⟨handle, hd, rfl⟩
  cases h with
  | failed _ _ e hp | dropped _ _ hp => exact .inl (hsame (look_session_release s k p))
  | spawned sid cmd l => exact .inl (hsame (Server.look_spawnChild rfl s))
  | accepted | wrote => exact .inl (hsame (Server.look_modifyChild fun _ => rfl))
  | inserted sid cmd l c peer =>
    rcases mem_handles_insertSession hd with hold | hnew
    · exact .inl ⟨handle, hold, rfl⟩
    · exact .inr hnew
  | pushed out sid c j =>
    rw [Server.handles_pushHandle] at hd
    split_ifs at hd with hdc
    · rcases List.mem_append.mp hd with hold | hnew
      · rw [← hdc.1] at hold
        exact .inl ⟨handle, hold, rfl⟩
      · obtain rfl := List.mem_singleton.mp hnew
        exact .inr (List.mem_singleton.mpr rfl)
    · exact .inl ⟨handle, hd, rfl⟩
  | joined sid c i ret =>
    left
    rw [Server.handles_takeHandle] at hd
    split_ifs at hd with hdc
    · obtain ⟨n, hn⟩ := List.mem_iff_getElem?.mp hd
      rw [List.getElem?_modify] at hn
      obtain ⟨old, hold, hmap⟩ := Option.map_eq_some_iff.mp hn
      refine ⟨old, hdc.1 ▸ List.mem_of_getElem? hold, ?_⟩
      split_ifs at hmap <;> (subst hmap; rfl)
    · exact ⟨handle, hd, rfl⟩
  | _ => exact .inl (hsame rfl)

theorem Sound.callStep {request : Request I} {p q : Phase} (h : Sound s) (howned : Owned s)
    (hcall : s.calls[k]? = some ⟨request, p⟩) (hmove : CallStep s k request p q u) :
    Sound (u.setPhase k q) := by
  have hchildren := hmove.children_le
  have htasks := hmove.tasks_le
  have hbrought : ∀ j ∈ p.brings, j < u.tasks.length := by
    intro j hj
    have hold : j < s.tasks.length := h.brought k _ hcall j hj
    omega
  have hpending : ∀ sid session, s.pending sid = some session →
      ∀ j ∈ session.tasks, j < u.tasks.length := by
    intro sid session hsession j hj
    have hold : j < s.tasks.length := h.pending sid session hsession j hj
    omega
  apply h.moved hcall hmove.calls_eq hchildren htasks hmove.reaches
  case hvisits =>
    intro c hc
    have hthere : c < s.children.length := by
      rcases hmove.visits hc with hold | hfound
      · exact h.visited k _ c hcall hold
      · exact lt_of_sidOf (howned.mapped _ c hfound)
    omega
  case hbrings =>
    intro j hj
    rcases hmove.brings hj with hold | hnew | ⟨session, hsession, hj⟩
    · exact hbrought j hold
    · exact hnew
    · exact hpending _ session hsession j hj
  case hpending =>
    intro sid session hsession
    rcases hmove.pending hsession with hold | hnew
    · exact hpending sid session hold
    · exact hnew
  case hhandles =>
    intro c handle hhandle
    rcases hmove.handles hhandle with ⟨old, hold, htask⟩ | hnew
    · have hlt : old.task < s.tasks.length := h.handles c old hold
      omega
    · exact hbrought _ hnew

omit [DecidableEq I] in
theorem length_tasks_stepCopy {j : ℕ} {task : Copy} {rxOpen : Bool} {e : TaskEvent}
    (hstep : s.stepCopy j task rxOpen e = some t) : t.tasks.length = s.tasks.length := by
  revert hstep
  fun_cases Server.stepCopy s j task rxOpen e
  all_goals intro hstep
  all_goals cases hstep
  all_goals simp [Server.setTask, Server.modifyChild]

/-- What holds of every server that a run comes to. -/
structure Running (s : Server I) : Prop where
  owned : Owned s
  streams : Streams s
  sound : Sound s

theorem running_step (s : Server I) (label : Label I) (t : Server I) (h : Running s)
    (hstep : s.step label = some t) : Running t := by
  obtain ⟨howned, hstreams⟩ := streams_step s label t ⟨h.owned, h.streams⟩ hstep
  refine ⟨howned, hstreams, ?_⟩
  cases serverStep_of_step hstep with
  | called request => exact h.sound.called request
  | moved hlabel hcall hmove => exact h.sound.callStep h.owned hcall hmove
  | child hchild hchildStep =>
    obtain ⟨hcalls, -, htasks, -, hchildren⟩ := stepChild_same hchildStep
    exact h.sound.same hcalls (stepChild_pending hchildStep)
      (stepChild_look hchild hchildStep).1 hchildren (congrArg List.length htasks)
  | copy htask hcopy =>
    obtain ⟨hcalls, -, -, hchildren⟩ := stepCopy_same hcopy
    exact h.sound.same hcalls (stepCopy_pending hcopy) (stepCopy_look hcopy).1 hchildren
      (length_tasks_stepCopy hcopy)
  | forwardDone htask => exact h.sound.same rfl rfl rfl rfl (by simp [Server.setTask])

omit [DecidableEq I] in
theorem running_new : Running (Server.new : Server I) := ⟨owned_new, streams_new, sound_new⟩

end

/-! Calls and tasks that wait. -/

/-- A lock of the server. -/
inductive ServerLock
  | sessions
  | stdin (child : ℕ)
  | child (child : ℕ)
  | handles (child : ℕ)

def Phase.holds (p : Phase) : ServerLock → Bool
  | .sessions => p.holdsSessions
  | .stdin c => p.holdsStdin c
  | .child c => p.holdsChild c
  | .handles c => p.holdsHandles c

/-- The lock that a call has to get next. -/
def Call.wants : Call I → Option ServerLock
  | ⟨.start _ _, .starting _⟩ => some .sessions
  | ⟨.stdin _, .called⟩ | ⟨.output _ _, .called⟩ | ⟨.wait _, .called⟩ => some .sessions
  | ⟨.output _ _, .opened _⟩ | ⟨.wait _, .exited _⟩ | ⟨.wait _, .removing _⟩ => some .sessions
  | ⟨.stdin _, .lockingStdin c⟩ => some (.stdin c)
  | ⟨.wait _, .lockingChild c⟩ => some (.child c)
  | ⟨.output _ _, .pushing c _⟩ | ⟨.wait _, .lockingHandles c _⟩ => some (.handles c)
  | _ => none

inductive Party
  | call (k : ℕ)
  | task (j : ℕ)

namespace Server

/-- The call has not returned; the task has not ended. -/
def Live (s : Server I) : Party → Prop
  | .call k => ∃ call, s.calls[k]? = some call ∧ call.phase.returned = false
  | .task j => ∃ task, s.tasks[j]? = some task ∧ task.finished = false

inductive WaitsFor (s : Server I) : Party → Party → Prop
  | lock {k i : ℕ} {call holder : Call I} {g : ServerLock} (hcall : s.calls[k]? = some call)
      (hwants : call.wants = some g) (hholder : s.calls[i]? = some holder)
      (hholds : holder.phase.holds g = true) : WaitsFor s (.call k) (.call i)
  /-- for a task whose handle it joins -/
  | join {k : ℕ} {sid : I} {c n : ℕ} {ret : Except Error ℤ} {handle : Handle} {task : Task}
      (hcall : s.calls[k]? = some ⟨.wait sid, .joining c n ret⟩)
      (hhandle : (s.handles c)[n]? = some handle) (htask : s.tasks[handle.task]? = some task)
      (h : task.finished = false) : WaitsFor s (.call k) (.task handle.task)
  /-- for the lock on the read end -/
  | pipe {j i : ℕ} {t : Copy} {rxOpen : Bool} {task : Task}
      (htask : s.tasks[j]? = some (.copy t rxOpen)) (hphase : t.phase = .locking)
      (hholder : s.tasks[i]? = some task) (hholds : task.holdsOutput t.child t.out = true) :
      WaitsFor s (.task j) (.task i)

inductive WaitsOutside (s : Server I) : Party → Prop
  /-- for a child to connect -/
  | connection {k : ℕ} {request : Request I} {l : Launch} {c : ℕ}
      (hcall : s.calls[k]? = some ⟨request, .accepting l c⟩)
      (h : ∀ child ∈ s.children, child.link ≠ .queued k) : WaitsOutside s (.call k)
  /-- for the child to take the command -/
  | command {k : ℕ} {request : Request I} {l : Launch} {c peer : ℕ} {next : Sending}
      (hcall : s.calls[k]? = some ⟨request, .sending l c peer next⟩) : WaitsOutside s (.call k)
  /-- for the client to send more input -/
  | input {k : ℕ} {request : Request I} {c : ℕ}
      (hcall : s.calls[k]? = some ⟨request, .streaming c⟩) : WaitsOutside s (.call k)
  /-- for the child to read its stdin -/
  | stdin {k : ℕ} {request : Request I} {c : ℕ} {rest : List UInt8}
      (hcall : s.calls[k]? = some ⟨request, .writing c rest⟩) : WaitsOutside s (.call k)
  /-- for the child to exit -/
  | exit {k : ℕ} {request : Request I} {c : ℕ} {child : Child I}
      (hcall : s.calls[k]? = some ⟨request, .waiting c⟩) (hchild : s.children[c]? = some child)
      (h : exitResult child.phase = none) : WaitsOutside s (.call k)
  /-- for the child or a descendant to print more, or to close the pipe -/
  | output {j : ℕ} {t : Copy} {rxOpen : Bool} {child : Child I}
      (htask : s.tasks[j]? = some (.copy t rxOpen)) (hphase : t.phase = .reading)
      (hchild : s.children[t.child]? = some child) (hdata : (child.pipe t.out).data = [])
      (hwriters : (child.pipe t.out).writers = true) : WaitsOutside s (.task j)
  /-- for the client to take what is in the channel -/
  | client {j : ℕ} {t : Copy} {buf : List UInt8} (htask : s.tasks[j]? = some (.copy t true))
      (hphase : t.phase = .sending buf) (hfull : channelCapacity ≤ t.queue.length) :
      WaitsOutside s (.task j)
  /-- for the two ends that `ninep_forward` copies between -/
  | forward {j : ℕ} (htask : s.tasks[j]? = some (.forward none)) : WaitsOutside s (.task j)

/-- The server takes no step by itself, and whoever has not finished waits, at the end of a
chain of calls and tasks, for something outside. -/
def AtRest [DecidableEq I] (s : Server I) : Prop :=
  (∀ t, ¬ OwnStep s t) ∧
    ∀ p, s.Live p → ∃ q, Relation.ReflTransGen s.WaitsFor p q ∧ s.WaitsOutside q

end Server

/-! The order of the locks: what wants one comes after what may hold one. -/

def Call.rank (call : Call I) : ℕ := if call.wants.isSome then 3 else 2

def Task.rank : Task → ℕ
  | .copy t _ => match t.phase with | .locking => 1 | _ => 0
  | .forward _ => 0

def Server.rank (s : Server I) : Party → ℕ
  | .call k => (s.calls[k]?).elim 0 Call.rank
  | .task j => (s.tasks[j]?).elim 0 Task.rank

theorem rank_call {call : Call I} (hcall : s.calls[k]? = some call) :
    s.rank (.call k) = call.rank := by
  simp [Server.rank, hcall]

theorem rank_task {j : ℕ} {task : Task} (htask : s.tasks[j]? = some task) :
    s.rank (.task j) = task.rank := by
  simp [Server.rank, htask]

theorem rank_task_le (task : Task) : task.rank ≤ 1 := by
  unfold Task.rank
  split
  · split <;> omega
  · omega

theorem wants_of_holds {call : Call I} {g : ServerLock} (h : call.phase.holds g = true) :
    call.wants = none ∧ call.phase.returned = false := by
  obtain ⟨request, p⟩ := call
  cases p <;> cases g <;>
    simp_all [Phase.holds, Phase.holdsSessions, Phase.holdsStdin, Phase.holdsChild,
      Phase.holdsHandles, Phase.returned]
  all_goals cases request <;> rfl

/-! A server that takes no step by itself. -/

section
variable [DecidableEq I]

theorem step_none_of_stuck (hstuck : ∀ t, ¬ OwnStep s t) {label : Label I}
    (hown : label.own = true) : s.step label = none := by
  cases hstep : s.step label with
  | none => rfl
  | some t => exact absurd ⟨label, hown, hstep⟩ (hstuck t)

/-- Some call holds the lock. -/
def Server.Locked (s : Server I) (g : ServerLock) : Prop :=
  ∃ (i : ℕ) (holder : Call I), s.calls[i]? = some holder ∧ holder.phase.holds g = true

omit [DecidableEq I] in
theorem locked_of_any {g : ServerLock}
    (h : s.calls.any (fun call => call.phase.holds g) = true) : s.Locked g := by
  obtain ⟨holder, hmem, hholds⟩ := List.any_eq_true.mp h
  obtain ⟨i, hi⟩ := List.mem_iff_getElem?.mp hmem
  exact ⟨i, holder, hi, hholds⟩

omit [DecidableEq I] in
theorem locked_of_unlocked (h : s.unlocked ≠ true) : s.Locked .sessions := by
  apply locked_of_any
  by_contra hfree
  apply h
  unfold Server.unlocked
  rw [List.all_eq_true]
  intro call hmem
  simpa [Phase.holds] using mt (fun hheld => List.any_eq_true.mpr ⟨call, hmem, hheld⟩) hfree

omit [DecidableEq I] in
/-- A call that looks for its session goes on unless a `start` call has the lock. -/
theorem locked_of_getSession (sid : I) (h : s.getSession sid = none) : s.Locked .sessions := by
  apply locked_of_unlocked
  intro hunlocked
  unfold Server.getSession at h
  rw [if_pos hunlocked] at h
  cases hsession : s.sessions sid <;> simp [hsession] at h

/-- What keeps a call from going on. -/
inductive Server.Kept (s : Server I) (k : ℕ) (call : Call I) : Prop
  | locked {g : ServerLock} (hwants : call.wants = some g) (h : s.Locked g)
  | outside (h : s.WaitsOutside (.call k))
  | join {j : ℕ} (h : s.WaitsFor (.call k) (.task j)) (hlive : s.Live (.task j))

omit [DecidableEq I] in
/-- Nothing listens when `start` binds: it has the sessions lock alone. -/
theorem Running.listening (h : Running s) {request : Request I} {ninep : Option (UInt16 × ℕ)}
    (hcall : s.calls[k]? = some ⟨request, .binding ninep⟩) (port : UInt16) :
    s.listening port = false := by
  unfold Server.listening
  rw [List.any_eq_false]
  intro call hmem hlistens
  obtain ⟨i, hi⟩ := List.mem_iff_getElem?.mp hmem
  have hholds : call.phase.holdsSessions = true := by
    cases hp : call.phase <;> simp_all [Phase.listener, Phase.holdsSessions]
  obtain rfl : i = k := h.owned.exclusive i k call _ hi hcall hholds rfl
  rw [hcall] at hi
  obtain rfl := Option.some.inj hi
  simp [Phase.listener] at hlistens

theorem kept_start {sid : I} {cmd : Cmd} {p : Phase} (h : Running s)
    (hstuck : ∀ t, ¬ OwnStep s t) (hcall : s.calls[k]? = some ⟨.start sid cmd, p⟩)
    (hlive : p.returned = false) : s.Kept k ⟨.start sid cmd, p⟩ := by
  have hnone : ∀ e : StartEvent, e.own = true → s.stepStart k sid cmd p e = none := by
    intro e he
    have hstep : s.step (.start k e) = none := step_none_of_stuck hstuck he
    simpa only [Server.step, hcall] using hstep
  have hreached := h.sound.reached k _ hcall
  cases p with
  | called =>
    have hstep := hnone .takePending rfl
    cases hpending : s.pending sid <;> simp [Server.stepStart, hpending] at hstep
  | starting ninep =>
    have hstep := hnone .lockSessions rfl
    refine .locked rfl (locked_of_unlocked fun hunlocked => ?_)
    simp only [Server.stepStart, hunlocked, if_true] at hstep
    split_ifs at hstep
  | binding ninep =>
    have hstep := hnone (.bound 1) rfl
    simp only [Server.stepStart, h.listening hcall 1, Bool.false_eq_true, if_false] at hstep
    cases hprepare : Server.prepare cmd (ninep.map Prod.fst) <;> simp [hprepare] at hstep
  | launching l =>
    have hstep := hnone .spawned rfl
    simp [Server.stepStart] at hstep
  | accepting l c =>
    refine .outside (.connection hcall fun child hmem hlink => ?_)
    obtain ⟨peer, hpeer⟩ := List.mem_iff_getElem?.mp hmem
    have hstep := hnone (.accepted peer) rfl
    simp [Server.stepStart, hpeer, hlink] at hstep
  | sending l c peer next => exact .outside (.command hcall)
  | done | dropped | panicked => cases hlive
  | _ => cases hreached

theorem kept_stdin {sid : I} {p : Phase} (h : Running s) (hstuck : ∀ t, ¬ OwnStep s t)
    (hcall : s.calls[k]? = some ⟨.stdin sid, p⟩) (hlive : p.returned = false) :
    s.Kept k ⟨.stdin sid, p⟩ := by
  have hnone : ∀ e : StdinEvent, e.own = true → s.stepStdin k sid p e = none := by
    intro e he
    have hstep : s.step (.stdin k e) = none := step_none_of_stuck hstuck he
    simpa only [Server.step, hcall] using hstep
  have hreached := h.sound.reached k _ hcall
  cases p with
  | called =>
    have hstep := hnone .getSession rfl
    refine .locked rfl (locked_of_getSession sid ?_)
    rcases hsession : s.getSession sid with _ | (e | c) <;> simp_all [Server.stepStdin]
  | lockingStdin c =>
    have hstep := hnone .lock rfl
    refine .locked rfl (locked_of_any (g := .stdin c) ?_)
    change s.calls.any (fun call => call.phase.holdsStdin c) = true
    simpa only [Server.stepStdin, ite_eq_left_iff, reduceCtorEq, imp_false, not_not] using hstep
  | streaming c => exact .outside (.input hcall)
  | writing c rest => exact .outside (.stdin hcall)
  | done | dropped | panicked => cases hlive
  | _ => cases hreached

theorem kept_output {out : Output} {sid : I} {p : Phase} (h : Running s)
    (hstuck : ∀ t, ¬ OwnStep s t) (hcall : s.calls[k]? = some ⟨.output out sid, p⟩)
    (hlive : p.returned = false) : s.Kept k ⟨.output out sid, p⟩ := by
  have hnone : ∀ e : OutputEvent, s.stepOutput k out sid p e = none := by
    intro e
    have hstep : s.step (.output k e) = none := step_none_of_stuck hstuck rfl
    simpa only [Server.step, hcall] using hstep
  have hreached := h.sound.reached k _ hcall
  cases p with
  | called =>
    have hstep := hnone .getSession
    refine .locked rfl (locked_of_getSession sid ?_)
    rcases hsession : s.getSession sid with _ | (e | c) <;> simp_all [Server.stepOutput]
  | opened j =>
    have hstep := hnone .getHandles
    refine .locked rfl (locked_of_getSession sid ?_)
    rcases hsession : s.getSession sid with _ | (e | c) <;> simp_all [Server.stepOutput]
  | pushing c j =>
    have hstep := hnone .push
    refine .locked rfl (locked_of_any (g := .handles c) ?_)
    change s.calls.any (fun call => call.phase.holdsHandles c) = true
    simpa only [Server.stepOutput, ite_eq_left_iff, reduceCtorEq, imp_false, not_not] using hstep
  | done | dropped | panicked => cases hlive
  | _ => cases hreached

theorem kept_wait {sid : I} {p : Phase} (h : Running s) (hstuck : ∀ t, ¬ OwnStep s t)
    (hcall : s.calls[k]? = some ⟨.wait sid, p⟩) (hlive : p.returned = false) :
    s.Kept k ⟨.wait sid, p⟩ := by
  have hnone : ∀ e : WaitEvent, e.own = true → s.stepWait k sid p e = none := by
    intro e he
    have hstep : s.step (.wait k e) = none := step_none_of_stuck hstuck he
    simpa only [Server.step, hcall] using hstep
  have hreached := h.sound.reached k _ hcall
  cases p with
  | called =>
    have hstep := hnone .getChild rfl
    refine .locked rfl (locked_of_getSession sid ?_)
    rcases hsession : s.getSession sid with _ | (e | c) <;> simp_all [Server.stepWait]
  | lockingChild c =>
    have hstep := hnone .lockChild rfl
    refine .locked rfl (locked_of_any (g := .child c) ?_)
    change s.calls.any (fun call => call.phase.holdsChild c) = true
    simpa only [Server.stepWait, ite_eq_left_iff, reduceCtorEq, imp_false, not_not] using hstep
  | waiting c =>
    have hstep := hnone .reaped rfl
    have hlt : c < s.children.length := h.sound.visited k _ c hcall rfl
    have hchild : s.children[c]? = some s.children[c] := List.getElem?_eq_getElem hlt
    refine .outside (.exit hcall hchild ?_)
    simp only [Server.stepWait, hchild, Option.bind_some] at hstep
    cases hret : Server.exitResult s.children[c].phase <;> simp_all
  | exited ret =>
    have hstep := hnone .getHandles rfl
    refine .locked rfl (locked_of_getSession sid ?_)
    rcases hsession : s.getSession sid with _ | (e | c) <;> simp_all [Server.stepWait]
  | lockingHandles c ret =>
    have hstep := hnone .lockHandles rfl
    refine .locked rfl (locked_of_any (g := .handles c) ?_)
    change s.calls.any (fun call => call.phase.holdsHandles c) = true
    simpa only [Server.stepWait, ite_eq_left_iff, reduceCtorEq, imp_false, not_not] using hstep
  | joining c n ret =>
    have hstep := hnone .join rfl
    simp only [Server.stepWait] at hstep
    cases hhandle : (s.handles c)[n]? with
    | none => simp [hhandle] at hstep
    | some handle =>
      have hlt : handle.task < s.tasks.length :=
        h.sound.handles c handle (List.mem_of_getElem? hhandle)
      have htask : s.tasks[handle.task]? = some s.tasks[handle.task] :=
        List.getElem?_eq_getElem hlt
      simp only [hhandle, htask, Option.any_some] at hstep
      have hunfinished : s.tasks[handle.task].finished = false := by
        split_ifs at hstep with hjoined hfinished
        simpa using hfinished
      exact .join (.join hcall hhandle htask hunfinished) ⟨_, htask, hunfinished⟩
  | removing ret =>
    have hstep := hnone .remove rfl
    refine .locked rfl (locked_of_unlocked fun hunlocked => ?_)
    simp [Server.stepWait, hunlocked] at hstep
  | done | dropped | panicked => cases hlive
  | _ => cases hreached

/-- Why a call does not go on. -/
theorem Running.kept {call : Call I} (h : Running s) (hstuck : ∀ t, ¬ OwnStep s t)
    (hcall : s.calls[k]? = some call) (hlive : call.phase.returned = false) : s.Kept k call := by
  obtain ⟨request, p⟩ := call
  cases request with
  | dial sid =>
    have hstep : s.step (.dial k) = none := step_none_of_stuck hstuck rfl
    have hreached := h.sound.reached k _ hcall
    cases p with
    | called => simp [Server.step, hcall] at hstep
    | done | dropped | panicked => cases hlive
    | _ => cases hreached
  | ninepForward sid =>
    have hstep : s.step (.ninepForward k (.ok 1)) = none := step_none_of_stuck hstuck rfl
    have hreached := h.sound.reached k _ hcall
    cases p with
    | called => simp [Server.step, hcall] at hstep
    | done | dropped | panicked => cases hlive
    | _ => cases hreached
  | start sid cmd => exact kept_start h hstuck hcall hlive
  | stdin sid => exact kept_stdin h hstuck hcall hlive
  | output out sid => exact kept_output h hstuck hcall hlive
  | wait sid => exact kept_wait h hstuck hcall hlive

omit [DecidableEq I] in
theorem Running.child_lt (h : Running s) {j : ℕ} {t : Copy} {rxOpen : Bool}
    (htask : s.tasks[j]? = some (.copy t rxOpen)) : t.child < s.children.length := by
  have hcopy : s.copyAt j = some t := by simp [Server.copyAt, htask]
  obtain ⟨sid, p, -, -, hsid⟩ := h.streams.spawned j t hcopy
  exact lt_of_sidOf hsid

/-- A task that has the lock on a read end waits for the child or for the client. -/
theorem outside_of_holdsOutput {j c : ℕ} {task : Task} {out : Output} (h : Running s)
    (hstuck : ∀ t, ¬ OwnStep s t) (htask : s.tasks[j]? = some task)
    (hholds : task.holdsOutput c out = true) : s.WaitsOutside (.task j) := by
  cases task with
  | forward ret => cases hholds
  | copy t rxOpen =>
    have hnone : ∀ e : TaskEvent, e.own = true → s.stepCopy j t rxOpen e = none := by
      intro e he
      have hstep : s.step (.task j e) = none := step_none_of_stuck hstuck he
      simpa only [Server.step, htask] using hstep
    cases hphase : t.phase with
    | locking | done => simp [Task.holdsOutput, hphase] at hholds
    | reading =>
      have hlt := h.child_lt htask
      have hchild : s.children[t.child]? = some s.children[t.child] :=
        List.getElem?_eq_getElem hlt
      have hread := hnone (.read 1) rfl
      have heof := hnone .eof rfl
      simp only [Server.stepCopy, hphase, hchild] at hread heof
      have hdata : (s.children[t.child].pipe t.out).data = [] := by
        split_ifs at hread with hlen
        exact List.length_eq_zero_iff.mp (by omega)
      have hwriters : (s.children[t.child].pipe t.out).writers = true := by
        split_ifs at heof with hend
        simpa [hdata] using hend
      exact .output htask hphase hchild hdata hwriters
    | sending buf =>
      have hclosed := hnone .sendClosed rfl
      have hsent := hnone .sent rfl
      simp only [Server.stepCopy, hphase] at hclosed hsent
      have hopen : rxOpen = true := by
        split_ifs at hclosed with hopen
        exact hopen
      subst hopen
      have hfull : channelCapacity ≤ t.queue.length := by
        split_ifs at hsent with hfull
        simpa using hfull
      exact .client htask hphase hfull

theorem finished_of_holdsOutput {c : ℕ} {task : Task} {out : Output}
    (hholds : task.holdsOutput c out = true) : task.finished = false ∧ task.rank = 0 := by
  cases task with
  | forward ret => cases hholds
  | copy t rxOpen => cases hphase : t.phase <;> simp_all [Task.holdsOutput, Task.finished, Task.rank]

/-- Why a task does not go on. -/
theorem Running.task {j : ℕ} {task : Task} (h : Running s) (hstuck : ∀ t, ¬ OwnStep s t)
    (htask : s.tasks[j]? = some task) (hlive : task.finished = false) :
    s.WaitsOutside (.task j) ∨ ∃ (i : ℕ) (holder : Task), s.WaitsFor (.task j) (.task i) ∧
      s.tasks[i]? = some holder ∧ holder.finished = false ∧ holder.rank < task.rank := by
  cases task with
  | forward ret =>
    cases ret with
    | none => exact .inl (.forward htask)
    | some ret => cases hlive
  | copy t rxOpen =>
    cases hphase : t.phase with
    | locking =>
      right
      have hstep : s.step (.task j .lock) = none := step_none_of_stuck hstuck rfl
      simp only [Server.step, htask, Server.stepCopy, hphase] at hstep
      split_ifs at hstep with hheld
      · obtain ⟨holder, hmem, hholds⟩ := List.any_eq_true.mp hheld
        obtain ⟨i, hi⟩ := List.mem_iff_getElem?.mp hmem
        obtain ⟨hlive', hzero⟩ := finished_of_holdsOutput hholds
        have hone : (Task.copy t rxOpen).rank = 1 := by simp [Task.rank, hphase]
        exact ⟨i, holder, .pipe htask hphase hi hholds, hi, hlive', by omega⟩
      · split at hstep <;> cases hstep
    | reading | sending buf =>
      have hholds : (Task.copy t rxOpen).holdsOutput t.child t.out = true := by
        simp [Task.holdsOutput, hphase]
      exact .inl (outside_of_holdsOutput h hstuck htask hholds)
    | done ret => simp [Task.finished, hphase] at hlive

/-- A server that takes no step by itself is at rest: what holds a lock never wants one. -/
theorem Running.atRest (h : Running s) (hstuck : ∀ t, ¬ OwnStep s t) : s.AtRest := by
  refine ⟨hstuck, fun p hp => waits_end_outside s.rank ?_ hp⟩
  intro p hp
  cases p with
  | task j =>
    obtain ⟨task, htask, hlive⟩ := hp
    rcases h.task hstuck htask hlive with houtside | ⟨i, holder, hwaits, hi, hlive', hrank⟩
    · exact .inl houtside
    · refine .inr ⟨.task i, hwaits, ⟨holder, hi, hlive'⟩, ?_⟩
      rw [rank_task hi, rank_task htask]
      exact hrank
  | call k =>
    obtain ⟨call, hcall, hlive⟩ := hp
    cases h.kept hstuck hcall hlive with
    | outside houtside => exact .inl houtside
    | locked hwants hlocked =>
      obtain ⟨i, holder, hi, hholds⟩ := hlocked
      obtain ⟨hnone, hlive'⟩ := wants_of_holds hholds
      refine .inr ⟨.call i, .lock hcall hwants hi hholds, ⟨holder, hi, hlive'⟩, ?_⟩
      rw [rank_call hi, rank_call hcall]
      simp [Call.rank, hnone, hwants]
    | @join j hwaits hlive' =>
      refine .inr ⟨.task j, hwaits, hlive', ?_⟩
      obtain ⟨task, htask, -⟩ := hlive'
      rw [rank_task htask, rank_call hcall]
      have hle := rank_task_le task
      have htwo : 2 ≤ call.rank := by
        unfold Call.rank
        split <;> omega
      omega

end
end P9cpu.Cpu
