import P9cpu.Cpu.Server

/-! What one step of the server can do. -/
namespace P9cpu.Cpu
open Ninep (IoError)

variable {I : Type}

namespace Child

@[simp] theorem setPipe_port (child : Child I) (out : Output) (p : Pipe) :
    (child.setPipe out p).port = child.port := by
  cases out <;> rfl

@[simp] theorem setPipe_phase (child : Child I) (out : Output) (p : Pipe) :
    (child.setPipe out p).phase = child.phase := by
  cases out <;> rfl

@[simp] theorem setPipe_link (child : Child I) (out : Output) (p : Pipe) :
    (child.setPipe out p).link = child.link := by
  cases out <;> rfl

@[simp] theorem setPipe_session (child : Child I) (out : Output) (p : Pipe) :
    (child.setPipe out p).session = child.session := by
  cases out <;> rfl

end Child

namespace Server

@[simp] theorem setPhase_children (s : Server I) (k : ℕ) (p : Phase) :
    (s.setPhase k p).children = s.children := rfl

@[simp] theorem setPhase_sessions (s : Server I) (k : ℕ) (p : Phase) :
    (s.setPhase k p).sessions = s.sessions := rfl

@[simp] theorem setPhase_tasks (s : Server I) (k : ℕ) (p : Phase) :
    (s.setPhase k p).tasks = s.tasks := rfl

@[simp] theorem release_calls (s : Server I) (k : ℕ) (p : Phase) :
    (s.release k p).calls = s.calls := by
  cases p <;> rfl

@[simp] theorem release_sessions (s : Server I) (k : ℕ) (p : Phase) :
    (s.release k p).sessions = s.sessions := by
  cases p <;> rfl

end Server

/-- A call that has got on was there before another one was made. -/
theorem call_of_called {s : Server I} {request : Request I} {i : ℕ} {call : Call I}
    (hi : (s.calls ++ [⟨request, .called⟩])[i]? = some call) (hphase : call.phase ≠ .called) :
    s.calls[i]? = some call := by
  rcases Core.getElem?_concat_cases hi with hold | ⟨-, hnew⟩
  · exact hold
  · exact absurd (congrArg Call.phase hnew) hphase

variable [DecidableEq I] {s t u : Server I} {k : ℕ}

/-- How call `k` gets from one phase to the next; the last argument is the server in which the
next phase is stored. -/
inductive CallStep (s : Server I) (k : ℕ) : Request I → Phase → Phase → Server I → Prop
  | failed (r : Request I) (p : Phase) (e : Error) (h : p.returned = false) :
      CallStep s k r p (.done (.error e)) (s.release k p)
  | dropped (r : Request I) (p : Phase) (h : p.returned = false) :
      CallStep s k r p .dropped (s.release k p)
  | dialed (sid : I) (h : s.pending sid = none) :
      CallStep s k (.dial sid) .called (.done (.ok .unit))
        { s with pending := Function.update s.pending sid (some ⟨none⟩) }
  | forwarded (sid : I) (port : UInt16) (h : s.pending sid ≠ none) :
      CallStep s k (.ninepForward sid) .called (.done (.ok (.stream s.tasks.length)))
        { s with
          pending := Function.update s.pending sid (some ⟨some (port, s.tasks.length)⟩)
          tasks := s.tasks ++ [.forward none] }
  | tookPending (sid : I) (cmd : Cmd) (session : PendingSession)
      (h : s.pending sid = some session) :
      CallStep s k (.start sid cmd) .called (.starting session.ninep)
        { s with pending := Function.update s.pending sid none }
  | lockedSessions (sid : I) (cmd : Cmd) (ninep : Option (UInt16 × ℕ)) (hlock : s.unlocked = true)
      (h : s.sessions sid = none) :
      CallStep s k (.start sid cmd) (.starting ninep) (.binding ninep) s
  | bound (sid : I) (cmd : Cmd) (ninep : Option (UInt16 × ℕ)) (l : Launch)
      (hport : s.listening l.port = false)
      (h : Server.prepare cmd (ninep.map Prod.fst) = .ok l.cmd)
      (hhandles : l.handles = (ninep.map Prod.snd).toList) :
      CallStep s k (.start sid cmd) (.binding ninep) (.launching l) s
  | spawned (sid : I) (cmd : Cmd) (l : Launch) :
      CallStep s k (.start sid cmd) (.launching l) (.accepting l s.children.length)
        (s.spawnChild l)
  | accepted (sid : I) (cmd : Cmd) (l : Launch) (c peer : ℕ) (child : Child I)
      (hchild : s.children[peer]? = some child) (h : child.link = .queued k) :
      CallStep s k (.start sid cmd) (.accepting l c) (.sending l c peer .size)
        (s.setLink peer (.accepted k))
  | sent (sid : I) (cmd : Cmd) (l : Launch) (c peer : ℕ) (n m : Sending) :
      CallStep s k (.start sid cmd) (.sending l c peer n) (.sending l c peer m) s
  | inserted (sid : I) (cmd : Cmd) (l : Launch) (c peer : ℕ) :
      CallStep s k (.start sid cmd) (.sending l c peer .shutdown) (.done (.ok .unit))
        (s.insertSession k sid l c peer)
  | foundStdin (sid : I) (c : ℕ) (h : s.sessions sid = some c) :
      CallStep s k (.stdin sid) .called (.lockingStdin c) s
  | lockedStdin (sid : I) (c : ℕ)
      (h : ∀ call ∈ s.calls, call.phase.holdsStdin c = false) :
      CallStep s k (.stdin sid) (.lockingStdin c) (.streaming c) s
  | tookItem (sid : I) (c : ℕ) (item : List UInt8) :
      CallStep s k (.stdin sid) (.streaming c)
        (if item = [] then .streaming c else .writing c item) s
  | wrote (sid : I) (c len : ℕ) (rest : List UInt8) (h : 0 < len) (hlen : len ≤ rest.length) :
      CallStep s k (.stdin sid) (.writing c rest)
        (if rest.drop len = [] then .streaming c else .writing c (rest.drop len))
        (s.modifyChild c (fun child => { child with stdin := child.stdin ++ rest.take len }))
  | endedStdin (sid : I) (c : ℕ) :
      CallStep s k (.stdin sid) (.streaming c) (.done (.ok .unit)) s
  | openedOutput (out : Output) (sid : I) (c : ℕ) (h : s.sessions sid = some c) :
      CallStep s k (.output out sid) .called (.opened s.tasks.length)
        (s.spawnCopy k out c)
  | foundHandles (out : Output) (sid : I) (c j : ℕ) (h : s.sessions sid = some c) :
      CallStep s k (.output out sid) (.opened j) (.pushing c j) s
  | pushed (out : Output) (sid : I) (c j : ℕ)
      (h : ∀ call ∈ s.calls, call.phase.holdsHandles c = false) :
      CallStep s k (.output out sid) (.pushing c j) (.done (.ok (.stream j))) (s.pushHandle c j)
  | foundChild (sid : I) (c : ℕ) (h : s.sessions sid = some c) :
      CallStep s k (.wait sid) .called (.lockingChild c) s
  | lockedChild (sid : I) (c : ℕ)
      (h : ∀ call ∈ s.calls, call.phase.holdsChild c = false) :
      CallStep s k (.wait sid) (.lockingChild c) (.waiting c) s
  | reaped (sid : I) (c : ℕ) (child : Child I) (ret : Except Error ℤ)
      (hchild : s.children[c]? = some child) (h : Server.exitResult child.phase = some ret) :
      CallStep s k (.wait sid) (.waiting c) (.exited ret) s
  | waitFailed (sid : I) (c : ℕ) (e : IoError) :
      CallStep s k (.wait sid) (.waiting c) (.exited (.error (.commandError e))) s
  | foundJoins (sid : I) (c : ℕ) (ret : Except Error ℤ) (h : s.sessions sid = some c) :
      CallStep s k (.wait sid) (.exited ret) (.lockingHandles c ret) s
  | lockedHandles (sid : I) (c : ℕ) (ret : Except Error ℤ)
      (h : ∀ call ∈ s.calls, call.phase.holdsHandles c = false) :
      CallStep s k (.wait sid) (.lockingHandles c ret) (.joining c 0 ret) s
  | joined (sid : I) (c i : ℕ) (ret : Except Error ℤ) (handle : Handle) (task : Task)
      (hhandle : (s.handles c)[i]? = some handle) (hjoined : handle.joined = false)
      (htask : s.tasks[handle.task]? = some task) (h : task.finished = true) :
      CallStep s k (.wait sid) (.joining c i ret) (.joining c (i + 1) ret) (s.takeHandle c i)
  | joinedAgain (sid : I) (c i : ℕ) (ret : Except Error ℤ) (handle : Handle)
      (hhandle : (s.handles c)[i]? = some handle) (h : handle.joined = true) :
      CallStep s k (.wait sid) (.joining c i ret) .panicked s
  | joinedAll (sid : I) (c i : ℕ) (ret : Except Error ℤ) (h : (s.handles c)[i]? = none) :
      CallStep s k (.wait sid) (.joining c i ret) (.removing ret) s
  | removed (sid : I) (ret : Except Error ℤ) (h : s.unlocked = true) :
      CallStep s k (.wait sid) (.removing ret) (.done (ret.map Answer.code))
        { s with sessions := Function.update s.sessions sid none }

theorem CallStep.live {request : Request I} {p q : Phase} (h : CallStep s k request p q u) :
    p.returned = false := by
  cases h <;> first | rfl | assumption

theorem CallStep.calls_eq {request : Request I} {p q : Phase} (h : CallStep s k request p q u) :
    u.calls = s.calls := by
  cases h with
  | failed _ p | dropped _ p => exact Server.release_calls s k p
  | _ => rfl

omit [DecidableEq I] in
theorem calls_moved {request : Request I} {p q : Phase} (hcall : s.calls[k]? = some ⟨request, p⟩)
    (hu : u.calls = s.calls) (i : ℕ) :
    (u.setPhase k q).calls[i]? = if i = k then some ⟨request, q⟩ else s.calls[i]? := by
  simp only [Server.setPhase, List.getElem?_modify, hu]
  by_cases hik : i = k
  · subst hik
    simp [hcall]
  · simp [hik, Ne.symm hik]

/-- The call that a label moves. -/
def Label.movesCall : Label I → Option ℕ
  | .drop k | .dial k | .ninepForward k _ | .start k _ | .stdin k _ | .output k _ | .wait k _ =>
    some k
  | _ => none

inductive ServerStep (s : Server I) : Label I → Server I → Prop
  | called (request : Request I) :
      ServerStep s (.call request) { s with calls := s.calls ++ [⟨request, .called⟩] }
  | moved {label : Label I} {k : ℕ} {request : Request I} {p q : Phase} {u : Server I}
      (hlabel : label.movesCall = some k) (hcall : s.calls[k]? = some ⟨request, p⟩)
      (h : CallStep s k request p q u) : ServerStep s label (u.setPhase k q)
  | child {c : ℕ} {child : Child I} {e : ChildEvent} {t : Server I}
      (hchild : s.children[c]? = some child) (h : s.stepChild c child e = some t) :
      ServerStep s (.child c e) t
  | copy {j : ℕ} {task : Copy} {rxOpen : Bool} {e : TaskEvent} {t : Server I}
      (htask : s.tasks[j]? = some (.copy task rxOpen)) (h : s.stepCopy j task rxOpen e = some t) :
      ServerStep s (.task j e) t
  | forwardDone {j : ℕ} {ret : Except Error Unit} (htask : s.tasks[j]? = some (.forward none)) :
      ServerStep s (.task j (.forwardDone ret)) (s.setTask j (.forward (some ret)))

omit [DecidableEq I] in
theorem sessions_of_getSession {sid : I} {c : ℕ} (h : s.getSession sid = some (.ok c)) :
    s.sessions sid = some c := by
  unfold Server.getSession at h
  split_ifs at h
  cases hs : s.sessions sid with
  | none => simp [hs] at h
  | some d => simpa [hs] using h

/-! Each step function takes its calls through the steps above. The cases that leave early
close first: they are `failed` with the error of the case. -/

theorem callStep_of_stepStart {sid : I} {cmd : Cmd} {p : Phase} {e : StartEvent}
    (h : s.stepStart k sid cmd p e = some t) :
    ∃ q u, CallStep s k (.start sid cmd) p q u ∧ t = u.setPhase k q := by
  revert h
  fun_cases Server.stepStart s k sid cmd p e
  all_goals intro h
  all_goals try cases h
  all_goals try exact ⟨_, _, .failed _ _ _ rfl, rfl⟩
  case case2.refl session hs => exact ⟨_, _, .tookPending _ _ session hs, rfl⟩
  case case5.refl ninep hlock hs =>
    have hnone : s.sessions sid = none := by simpa using hs
    exact ⟨_, _, .lockedSessions _ _ _ hlock hnone, rfl⟩
  case case12.refl port ninep hport l hl =>
    have hfree : s.listening port = false := by simpa using hport
    exact ⟨_, _, .bound _ _ ninep ⟨l, port, _⟩ hfree hl rfl, rfl⟩
  case case19.refl l => exact ⟨_, _, .spawned _ _ l, rfl⟩
  case case23.refl peer l c child hchild hlink =>
    exact ⟨_, _, .accepted _ _ l c peer child hchild hlink, rfl⟩
  case case26.refl l c peer => exact ⟨_, _, .sent _ _ l c peer _ _, rfl⟩
  case case27.refl l c peer => exact ⟨_, _, .sent _ _ l c peer _ _, rfl⟩
  case case28.refl l c peer => exact ⟨_, _, .inserted _ _ l c peer, rfl⟩

theorem callStep_of_stepStdin {sid : I} {p : Phase} {e : StdinEvent}
    (h : s.stepStdin k sid p e = some t) :
    ∃ q u, CallStep s k (.stdin sid) p q u ∧ t = u.setPhase k q := by
  revert h
  fun_cases Server.stepStdin s k sid p e
  all_goals intro h
  all_goals try cases h
  all_goals try exact ⟨_, _, .failed _ _ _ rfl, rfl⟩
  case case2.refl c hc => exact ⟨_, _, .foundStdin _ c (sessions_of_getSession hc), rfl⟩
  case case5.refl c hlock => exact ⟨_, _, .lockedStdin _ c (by simpa using hlock), rfl⟩
  case case7.refl item c => exact ⟨_, _, .tookItem _ c item, rfl⟩
  case case9.refl c => exact ⟨_, _, .endedStdin _ c, rfl⟩
  case case11.refl len c rest hlen => exact ⟨_, _, .wrote _ c len rest hlen.1 hlen.2, rfl⟩

theorem callStep_of_stepOutput {out : Output} {sid : I} {p : Phase} {e : OutputEvent}
    (h : s.stepOutput k out sid p e = some t) :
    ∃ q u, CallStep s k (.output out sid) p q u ∧ t = u.setPhase k q := by
  revert h
  fun_cases Server.stepOutput s k out sid p e
  all_goals intro h
  all_goals try cases h
  all_goals try exact ⟨_, _, .failed _ _ _ rfl, rfl⟩
  case case2.refl c hc => exact ⟨_, _, .openedOutput _ _ c (sessions_of_getSession hc), rfl⟩
  case case5.refl j c hc => exact ⟨_, _, .foundHandles _ _ c j (sessions_of_getSession hc), rfl⟩
  case case8.refl c j hlock => exact ⟨_, _, .pushed _ _ c j (by simpa using hlock), rfl⟩

theorem callStep_of_stepWait {sid : I} {p : Phase} {e : WaitEvent}
    (h : s.stepWait k sid p e = some t) :
    ∃ q u, CallStep s k (.wait sid) p q u ∧ t = u.setPhase k q := by
  revert h
  fun_cases Server.stepWait s k sid p e
  all_goals intro h
  all_goals try cases h
  all_goals try exact ⟨_, _, .failed _ _ _ rfl, rfl⟩
  case case2.refl c hc => exact ⟨_, _, .foundChild _ c (sessions_of_getSession hc), rfl⟩
  case case5.refl c hlock => exact ⟨_, _, .lockedChild _ c (by simpa using hlock), rfl⟩
  case case7.refl c ret hret =>
    obtain ⟨child, hchild, hexit⟩ := Option.bind_eq_some_iff.mp hret
    exact ⟨_, _, .reaped _ c child ret hchild hexit, rfl⟩
  case case10.refl e c => exact ⟨_, _, .waitFailed _ c e, rfl⟩
  case case13.refl ret c hc => exact ⟨_, _, .foundJoins _ c ret (sessions_of_getSession hc), rfl⟩
  case case16.refl c ret hlock => exact ⟨_, _, .lockedHandles _ c ret (by simpa using hlock), rfl⟩
  case case18.refl c i ret hi => exact ⟨_, _, .joinedAll _ c i ret hi, rfl⟩
  case case19.refl c i ret handle hi hjoined =>
    exact ⟨_, _, .joinedAgain _ c i ret handle hi hjoined, rfl⟩
  case case20.refl c i ret handle hi hjoined htask =>
    obtain ⟨task, htask, hfin⟩ := (Option.any_eq_true _ _).mp htask
    have hfresh : handle.joined = false := by simpa using hjoined
    exact ⟨_, _, .joined _ c i ret handle task hi hfresh htask hfin, rfl⟩
  case case23.refl ret hlock => exact ⟨_, _, .removed _ ret hlock, rfl⟩

theorem callStep_of_dial (s : Server I) (k : ℕ) (sid : I) :
    ∃ q u, CallStep s k (.dial sid) .called q u ∧
      (s.dial sid).2.setPhase k (.done (s.dial sid).1) = u.setPhase k q := by
  cases hp : s.pending sid with
  | none =>
    refine ⟨_, _, .dialed sid hp, ?_⟩
    simp [Server.dial, hp]
  | some session =>
    refine ⟨_, _, .failed _ .called .duplicateId rfl, ?_⟩
    simp [Server.dial, hp, Server.release]

theorem callStep_of_ninepForward (s : Server I) (k : ℕ) (sid : I)
    (bound : Except IoError UInt16) :
    ∃ q u, CallStep s k (.ninepForward sid) .called q u ∧
      (s.ninepForward sid bound).2.setPhase k (.done (s.ninepForward sid bound).1) =
        u.setPhase k q := by
  cases hp : s.pending sid with
  | none =>
    refine ⟨_, _, .failed _ .called .sessionNotExist rfl, ?_⟩
    simp [Server.ninepForward, hp, Server.release]
  | some session =>
    cases bound with
    | error e =>
      refine ⟨_, _, .failed _ .called (.bindFail e) rfl, ?_⟩
      simp [Server.ninepForward, hp, Server.release]
    | ok port =>
      refine ⟨_, _, .forwarded sid port (by simp [hp]), ?_⟩
      simp [Server.ninepForward, hp]

theorem serverStep_of_step {l : Label I} (h : s.step l = some t) : ServerStep s l t := by
  revert h
  fun_cases Server.step s l
  all_goals intro h
  all_goals try cases h
  case case1.refl request => exact .called request
  case case3.refl k call hcall hlive =>
    exact .moved rfl hcall (.dropped _ _ (by simpa using hlive))
  case case5.refl k sid hcall ret u hdial =>
    obtain ⟨q, v, hstep, heq⟩ := callStep_of_dial s k sid
    rw [hdial] at heq
    exact heq ▸ .moved rfl hcall hstep
  case case7.refl k bound sid hcall ret u hforward =>
    obtain ⟨q, v, hstep, heq⟩ := callStep_of_ninepForward s k sid bound
    rw [hforward] at heq
    exact heq ▸ .moved rfl hcall hstep
  case case9 k e sid cmd p hcall =>
    obtain ⟨q, u, hstep, rfl⟩ := callStep_of_stepStart h
    exact .moved rfl hcall hstep
  case case11 k e sid p hcall =>
    obtain ⟨q, u, hstep, rfl⟩ := callStep_of_stepStdin h
    exact .moved rfl hcall hstep
  case case13 k e out sid p hcall =>
    obtain ⟨q, u, hstep, rfl⟩ := callStep_of_stepOutput h
    exact .moved rfl hcall hstep
  case case15 k e sid p hcall =>
    obtain ⟨q, u, hstep, rfl⟩ := callStep_of_stepWait h
    exact .moved rfl hcall hstep
  case case17 c e child hchild => exact .child hchild h
  case case19 j e task rxOpen htask => exact .copy htask h
  case case20.refl j htask ret => exact .forwardDone htask

end P9cpu.Cpu
