import P9cpu.Cpu.Sessions

/-! The errors that calls return, each with the state it is returned in. -/
namespace P9cpu.Cpu
open Ninep (IoError)

variable {I : Type}

/-- A call in a phase returns an error: one case for every early return of the source. -/
inductive Fails (s : Server I) : Request I → Phase → Error → Prop
  | dial (sid : I) (h : s.pending sid ≠ none) : Fails s (.dial sid) .called .duplicateId
  | forward (sid : I) (h : s.pending sid = none) :
      Fails s (.ninepForward sid) .called .sessionNotExist
  | forwardBind (sid : I) (e : IoError) : Fails s (.ninepForward sid) .called (.bindFail e)
  | start (sid : I) (cmd : Cmd) (h : s.pending sid = none) :
      Fails s (.start sid cmd) .called .sessionNotExist
  | running (sid : I) (cmd : Cmd) (ninep : Option (UInt16 × ℕ)) (h : s.sessions sid ≠ none) :
      Fails s (.start sid cmd) (.starting ninep) .duplicateId
  | bind (sid : I) (cmd : Cmd) (ninep : Option (UInt16 × ℕ)) (e : IoError) :
      Fails s (.start sid cmd) (.binding ninep) (.bindFail e)
  | no9pPort (sid : I) (cmd : Cmd) (h : cmd.ninep = true) :
      Fails s (.start sid cmd) (.binding none) .no9pPort
  | stdio (sid : I) (cmd : Cmd) (l : Launch) (e : Error)
      (h : Server.stdioError l.cmd.tty e = true) : Fails s (.start sid cmd) (.launching l) e
  | spawn (sid : I) (cmd : Cmd) (l : Launch) (e : IoError) :
      Fails s (.start sid cmd) (.launching l) (.spawnFail e)
  | accept (sid : I) (cmd : Cmd) (l : Launch) (c : ℕ) (e : IoError) :
      Fails s (.start sid cmd) (.accepting l c) (.ioErr e)
  | send (sid : I) (cmd : Cmd) (l : Launch) (c peer : ℕ) (n : Sending) (e : IoError) :
      Fails s (.start sid cmd) (.sending l c peer n) (.ioErr e)
  | stdin (sid : I) (h : s.sessions sid = none) : Fails s (.stdin sid) .called .sessionNotExist
  | write (sid : I) (c : ℕ) (rest : List UInt8) (e : IoError) :
      Fails s (.stdin sid) (.writing c rest) (.ioErr e)
  | output (out : Output) (sid : I) (h : s.sessions sid = none) :
      Fails s (.output out sid) .called .sessionNotExist
  | handles (out : Output) (sid : I) (j : ℕ) (h : s.sessions sid = none) :
      Fails s (.output out sid) (.opened j) .sessionNotExist
  | wait (sid : I) (h : s.sessions sid = none) : Fails s (.wait sid) .called .sessionNotExist
  | joins (sid : I) (ret : Except Error ℤ) (h : s.sessions sid = none) :
      Fails s (.wait sid) (.exited ret) .sessionNotExist
  /-- `wait` hands on the error it has kept -/
  | waited (sid : I) (e : Error) : Fails s (.wait sid) (.removing (.error e)) e

variable [DecidableEq I] {s t u : Server I} {k : ℕ}

omit [DecidableEq I] in
theorem sessions_of_getSession_error {sid : I} {e : Error}
    (h : s.getSession sid = some (.error e)) : e = .sessionNotExist ∧ s.sessions sid = none := by
  unfold Server.getSession at h
  split_ifs at h
  cases hs : s.sessions sid with
  | none =>
    simp only [hs, Option.some.injEq, Except.error.injEq] at h
    exact ⟨h.symm, rfl⟩
  | some c => simp [hs] at h

omit [DecidableEq I] in
/-- Only the phase that a step stores can be that of the call. -/
theorem phase_of_setPhase {request : Request I} {p q q' : Phase}
    (hcall : s.calls[k]? = some ⟨request, p⟩) (hu : u.calls = s.calls)
    (ht : (u.setPhase k q).calls[k]? = some ⟨request, q'⟩) : q = q' := by
  rw [calls_moved hcall hu, if_pos rfl] at ht
  cases ht
  rfl

omit [DecidableEq I] in
theorem error_of_fail {request : Request I} {p : Phase} {e e' : Error}
    (hcall : s.calls[k]? = some ⟨request, p⟩)
    (ht : (s.fail k p e').calls[k]? = some ⟨request, .done (.error e)⟩) : e' = e := by
  have hq := phase_of_setPhase hcall (Server.release_calls s k p) ht
  cases hq
  rfl

theorem prepare_error {cmd : Cmd} {port : Option UInt16} {e : Error}
    (h : Server.prepare cmd port = .error e) :
    e = .no9pPort ∧ cmd.ninep = true ∧ port = none := by
  unfold Server.prepare at h
  split_ifs at h with hninep
  cases port with
  | none =>
    cases h
    exact ⟨rfl, hninep, rfl⟩
  | some port => cases h

/-! The cases that go on store no error, so they close last. -/

theorem fails_of_stepStart {sid : I} {cmd : Cmd} {p : Phase} {e : Error} {event : StartEvent}
    (hcall : s.calls[k]? = some ⟨.start sid cmd, p⟩)
    (ht : t.calls[k]? = some ⟨.start sid cmd, .done (.error e)⟩)
    (h : s.stepStart k sid cmd p event = some t) : Fails s (.start sid cmd) p e := by
  revert h
  fun_cases Server.stepStart s k sid cmd p event
  all_goals intro h
  all_goals cases h
  all_goals try obtain rfl := error_of_fail hcall ht
  case case1.refl hs => exact .start sid cmd hs
  case case4.refl ninep _ hs => exact .running sid cmd ninep (Option.isSome_iff_ne_none.mp hs)
  case case8.refl e ninep => exact .bind sid cmd ninep e
  case case11.refl ninep _ e he =>
    obtain ⟨rfl, hninep, hnone⟩ := prepare_error he
    rw [Option.map_eq_none_iff] at hnone
    subst hnone
    exact .no9pPort sid cmd hninep
  case case14.refl e l he => exact .stdio sid cmd l e he
  case case17.refl e l => exact .spawn sid cmd l e
  case case21.refl e l c => exact .accept sid cmd l c e
  case case30.refl e l c peer n => exact .send sid cmd l c peer n e
  all_goals exact absurd (phase_of_setPhase hcall rfl ht) (by simp)

omit [DecidableEq I] in
theorem fails_of_stepStdin {sid : I} {p : Phase} {e : Error} {event : StdinEvent}
    (hcall : s.calls[k]? = some ⟨.stdin sid, p⟩)
    (ht : t.calls[k]? = some ⟨.stdin sid, .done (.error e)⟩)
    (h : s.stepStdin k sid p event = some t) : Fails s (.stdin sid) p e := by
  revert h
  fun_cases Server.stepStdin s k sid p event
  all_goals intro h
  all_goals cases h
  all_goals try obtain rfl := error_of_fail hcall ht
  case case1.refl hs =>
    obtain ⟨rfl, hnone⟩ := sessions_of_getSession_error hs
    exact .stdin sid hnone
  case case14.refl e c rest => exact .write sid c rest e
  case case7.refl =>
    have hq := phase_of_setPhase hcall rfl ht
    split at hq <;> cases hq
  case case11.refl =>
    have hq := phase_of_setPhase hcall rfl ht
    split at hq <;> cases hq
  all_goals exact absurd (phase_of_setPhase hcall rfl ht) (by simp)

omit [DecidableEq I] in
theorem fails_of_stepOutput {out : Output} {sid : I} {p : Phase} {e : Error} {event : OutputEvent}
    (hcall : s.calls[k]? = some ⟨.output out sid, p⟩)
    (ht : t.calls[k]? = some ⟨.output out sid, .done (.error e)⟩)
    (h : s.stepOutput k out sid p event = some t) : Fails s (.output out sid) p e := by
  revert h
  fun_cases Server.stepOutput s k out sid p event
  all_goals intro h
  all_goals cases h
  all_goals try obtain rfl := error_of_fail hcall ht
  case case1.refl hs =>
    obtain ⟨rfl, hnone⟩ := sessions_of_getSession_error hs
    exact .output out sid hnone
  case case4.refl hs =>
    obtain ⟨rfl, hnone⟩ := sessions_of_getSession_error hs
    exact .handles out sid _ hnone
  all_goals exact absurd (phase_of_setPhase hcall rfl ht) (by simp)

theorem fails_of_stepWait {sid : I} {p : Phase} {e : Error} {event : WaitEvent}
    (hcall : s.calls[k]? = some ⟨.wait sid, p⟩)
    (ht : t.calls[k]? = some ⟨.wait sid, .done (.error e)⟩)
    (h : s.stepWait k sid p event = some t) : Fails s (.wait sid) p e := by
  revert h
  fun_cases Server.stepWait s k sid p event
  all_goals intro h
  all_goals cases h
  all_goals try obtain rfl := error_of_fail hcall ht
  case case1.refl hs =>
    obtain ⟨rfl, hnone⟩ := sessions_of_getSession_error hs
    exact .wait sid hnone
  case case12.refl hs =>
    obtain ⟨rfl, hnone⟩ := sessions_of_getSession_error hs
    exact .joins sid _ hnone
  case case23.refl ret _ =>
    have hq := phase_of_setPhase hcall rfl ht
    cases ret with
    | ok code => cases hq
    | error e' =>
      cases hq
      exact .waited sid e
  all_goals exact absurd (phase_of_setPhase hcall rfl ht) (by simp)

@[simp] theorem calls_dial (s : Server I) (sid : I) : (s.dial sid).2.calls = s.calls := by
  unfold Server.dial
  split <;> rfl

@[simp] theorem calls_ninepForward (s : Server I) (sid : I) (bound : Except IoError UInt16) :
    (s.ninepForward sid bound).2.calls = s.calls := by
  unfold Server.ninepForward
  split
  · rfl
  · split <;> rfl

theorem fails_of_dial {sid : I} {e : Error} (h : (s.dial sid).1 = .error e) :
    Fails s (.dial sid) .called e := by
  unfold Server.dial at h
  cases hs : s.pending sid with
  | none => simp [hs] at h
  | some session =>
    simp only [hs, Except.error.injEq] at h
    subst h
    exact .dial sid (by simp [hs])

theorem fails_of_ninepForward {sid : I} {bound : Except IoError UInt16} {e : Error}
    (h : (s.ninepForward sid bound).1 = .error e) : Fails s (.ninepForward sid) .called e := by
  unfold Server.ninepForward at h
  cases hs : s.pending sid with
  | none =>
    simp only [hs, Except.error.injEq] at h
    subst h
    exact .forward sid hs
  | some session =>
    cases bound with
    | error e' =>
      simp only [hs, Except.error.injEq] at h
      subst h
      exact .forwardBind sid e'
    | ok port => simp [hs] at h

/-- Only the label of a call takes it to another phase. -/
theorem moves_of_call_ne {label : Label I} {call : Call I} (hstep : s.step label = some t)
    (hcall : s.calls[k]? = some call) (hne : t.calls[k]? ≠ some call) :
    label.movesCall = some k := by
  cases serverStep_of_step hstep with
  | called request =>
    have hlt := (List.getElem?_eq_some_iff.mp hcall).1
    exact absurd ((List.getElem?_append_left hlt).trans hcall) hne
  | @moved _ i request p q u hlabel hi hmove =>
    rw [calls_moved hi hmove.calls_eq] at hne
    split_ifs at hne with hki
    · exact hki ▸ hlabel
    · exact absurd hcall hne
  | child hchild hstep =>
    rw [(stepChild_same hstep).1] at hne
    exact absurd hcall hne
  | copy htask hcopy =>
    rw [(stepCopy_same hcopy).1] at hne
    exact absurd hcall hne
  | forwardDone htask => exact absurd hcall hne

/-- A call that a step ends with an error fails in the state before. -/
theorem fails_of_step {label : Label I} {request : Request I} {p : Phase} {e : Error}
    (hstep : s.step label = some t) (hcall : s.calls[k]? = some ⟨request, p⟩)
    (hp : p.returned = false) (ht : t.calls[k]? = some ⟨request, .done (.error e)⟩) :
    Fails s request p e := by
  have hlabel : label.movesCall = some k := by
    refine moves_of_call_ne hstep hcall fun hsame => ?_
    rw [ht] at hsame
    cases hsame
    simp [Phase.returned] at hp
  revert hstep
  fun_cases Server.step s label
  all_goals intro hstep
  all_goals cases hlabel
  case case3.refl =>
    cases hstep
    have hq := phase_of_setPhase hcall (Server.release_calls s k _) ht
    cases hq
  case case5.refl sid ret u hdial hi =>
    rw [hcall] at hi
    cases hi
    cases hstep
    have hu : u.calls = s.calls := by
      rw [← calls_dial s sid, hdial]
    cases phase_of_setPhase hcall hu ht
    exact fails_of_dial (congrArg Prod.fst hdial)
  case case7.refl bound sid ret u hforward hi =>
    rw [hcall] at hi
    cases hi
    cases hstep
    have hu : u.calls = s.calls := by
      rw [← calls_ninepForward s sid bound, hforward]
    cases phase_of_setPhase hcall hu ht
    exact fails_of_ninepForward (congrArg Prod.fst hforward)
  case case9.refl hi =>
    rw [hcall] at hi
    cases hi
    exact fails_of_stepStart hcall ht hstep
  case case11.refl hi =>
    rw [hcall] at hi
    cases hi
    exact fails_of_stepStdin hcall ht hstep
  case case13.refl hi =>
    rw [hcall] at hi
    cases hi
    exact fails_of_stepOutput hcall ht hstep
  case case15.refl hi =>
    rw [hcall] at hi
    cases hi
    exact fails_of_stepWait hcall ht hstep
  all_goals cases hstep

end P9cpu.Cpu
