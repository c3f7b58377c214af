import P9cpu.Cpu.Clients

/-! What `P9cpuClient::wait` returns: the exit code of the child that the client's own `start` call
has spawned. -/
namespace P9cpu.Cpu
open Core
open Ninep (IoError)

variable {I : Type} {s t u : Server I} {k : ℕ}

/-! The calls of a server, each kind at most once for a session. -/

/-- Which call of a client the request is, but for `stdin`. -/
def Request.rpc : Request I → Option Rpc
  | .dial _ => some .dial
  | .ninepForward _ => some .ninepForward
  | .start .. => some .start
  | .stdin _ => none
  | .output .stdout _ => some .stdout
  | .output .stderr _ => some .stderr
  | .wait _ => some .wait

theorem rpc_request (c : Client I) (rpc : Rpc) : (c.request rpc).rpc = some rpc := by
  cases rpc <;> rfl

namespace Server

def requests (s : Server I) : List (Request I) := s.calls.map Call.request

theorem requests_getElem? {request : Request I} {p : Phase} (h : s.calls[k]? = some ⟨request, p⟩) :
    s.requests[k]? = some request := by
  unfold requests
  rw [List.getElem?_map, h]
  rfl

/-- No two calls of one kind, other than `stdin`, are for the same session. -/
def Single (s : Server I) : Prop :=
  ∀ (i k : ℕ) (ri rk : Request I), s.requests[i]? = some ri → s.requests[k]? = some rk →
    ri.sid = rk.sid → ri.rpc = rk.rpc → ri.rpc ≠ none → i = k

/-- Some handle of the session of a child is joined. -/
def Joined (s : Server I) (c : ℕ) : Prop := ∃ handle ∈ s.handles c, handle.joined = true

end Server

/-! The sessions of the children, and who joins their handles. -/

/-- A `wait` call has locked the handles of its session, or has ended. -/
def Phase.began : Phase → Bool
  | .joining _ _ _ | .removing _ | .done _ | .dropped | .panicked => true
  | _ => false

/-- What holds of a server on which no call is made twice for a session. `Spawns k d` says that
child `d` was spawned by call `k`. -/
structure Reaping (WaitFails : ℕ → IoError → Prop) (Spawns : ℕ → ℕ → Prop) (s : Server I) :
    Prop where
  owned : Owned s
  joining : Joining WaitFails s
  begun : ∀ d, s.Joined d → ∃ (k : ℕ) (sid : I) (p : Phase),
    s.calls[k]? = some ⟨.wait sid, p⟩ ∧ s.sidOf d = some sid ∧ p.began = true
  spawning : ∀ (k : ℕ) (call : Call I) (d : ℕ), s.calls[k]? = some call →
    call.phase.owns = some d → Spawns k d
  spawned : ∀ (d : ℕ) (sid : I), s.sidOf d = some sid → ∃ (k : ℕ) (cmd : Cmd),
    s.calls[k]? = some ⟨.start sid cmd, .done (.ok .unit)⟩ ∧ Spawns k d
  /-- a session is that of one child only -/
  only : ∀ (d e : ℕ) (sid : I), s.sidOf d = some sid → s.sidOf e = some sid → d = e

variable {WaitFails : ℕ → IoError → Prop} {Spawns : ℕ → ℕ → Prop}

/-- The handles of a session are joined by its own `wait` call only, which has begun once. -/
theorem Reaping.joinsOnce (h : Reaping WaitFails Spawns s) (hsingle : s.Single)
    (label : Label I) : JoinsOnce s label := by
  rintro k sid c ret rfl hcall handle hhandle
  cases hjoined : handle.joined with
  | false => rfl
  | true =>
    have hmem : handle ∈ s.handles c := List.mem_of_getElem? hhandle
    obtain ⟨i, sid', p, hi, hsid', hbegan⟩ := h.begun c ⟨handle, hmem, hjoined⟩
    have hsid : s.sidOf c = some sid := h.joining.visits k _ c hcall rfl
    obtain rfl : sid' = sid := by
      rw [hsid] at hsid'
      exact (Option.some.inj hsid').symm
    have hik : i = k := hsingle i k _ _ (Server.requests_getElem? hi)
      (Server.requests_getElem? hcall) rfl rfl (by simp [Request.rpc])
    subst hik
    rw [hcall] at hi
    cases hi
    cases hbegan

/-- A step that leaves the calls, the sessions and their handles alone. -/
theorem Reaping.same (h : Reaping WaitFails Spawns s) (howned : Owned t)
    (hjoining : Joining WaitFails t) (hcalls : t.calls = s.calls)
    (hlook : t.look Child.session = s.look Child.session) : Reaping WaitFails Spawns t := by
  have hsid : t.sidOf = s.sidOf := Server.sidOf_of_look hlook
  have hhandles : t.handles = s.handles := Server.handles_of_look hlook
  constructor
  case owned => exact howned
  case joining => exact hjoining
  case begun =>
    unfold Server.Joined
    rw [hhandles, hcalls, hsid]
    exact h.begun
  case spawning =>
    rw [hcalls]
    exact h.spawning
  case spawned =>
    rw [hcalls, hsid]
    exact h.spawned
  case only =>
    rw [hsid]
    exact h.only

section
variable [DecidableEq I]

theorem requests_of_step {label : Label I} (hstep : s.step label = some t) :
    t.requests = s.requests ∨
      ∃ request, label = .call request ∧ t.requests = s.requests ++ [request] := by
  cases serverStep_of_step hstep with
  | called request =>
    refine .inr ⟨request, rfl, ?_⟩
    simp [Server.requests]
  | @moved _ k request p q u hlabel hcall hmove =>
    left
    have hcalls := calls_moved (q := q) hcall hmove.calls_eq
    apply List.ext_getElem?
    intro i
    unfold Server.requests
    rw [List.getElem?_map, List.getElem?_map, hcalls i]
    split_ifs with hik
    · subst hik
      rw [hcall]
      rfl
    · rfl
  | child hchild hchildStep =>
    left
    exact congrArg (List.map Call.request) (stepChild_same hchildStep).1
  | copy htask hcopy =>
    left
    exact congrArg (List.map Call.request) (stepCopy_same hcopy).1
  | forwardDone htask => exact .inl rfl

theorem CallStep.began {request : Request I} {p q : Phase} (h : CallStep s k request p q u)
    (hp : p.began = true) : q.began = true := by
  cases h with
  | failed | dropped | joined | joinedAgain | joinedAll | removed => rfl
  | _ => cases hp

/-- What a step of a call does to the sessions. -/
theorem sidOf_of_callStep {request : Request I} {p q : Phase} (howned : Owned s)
    (hcall : s.calls[k]? = some ⟨request, p⟩) (h : CallStep s k request p q u) :
    u.sidOf = s.sidOf ∨ ∃ sid cmd d, request = .start sid cmd ∧ p.owns = some d ∧
      q = .done (.ok .unit) ∧ u.sidOf = Function.update s.sidOf d (some sid) := by
  cases h with
  | inserted sid cmd l d peer =>
    have hd := (howned.owned k _ d hcall rfl).1
    exact .inr ⟨sid, cmd, d, rfl, rfl, rfl, sidOf_insertSession hd⟩
  | failed _ _ e hp | dropped _ _ hp => exact .inl (Server.sidOf_release s k p)
  | spawned sid cmd l => exact .inl (Server.sidOf_spawnChild s l)
  | accepted sid cmd l c peer => exact .inl (Server.sidOf_setLink s peer _)
  | wrote sid c len rest => exact .inl (Server.sidOf_modifyChild fun _ => rfl)
  | pushed | joined =>
    refine .inl (Server.sidOf_modifyChild fun child => ?_)
    cases child.session <;> rfl
  | _ => exact .inl rfl

/-- A handle that is joined was so before, or its own `wait` call joins it. -/
theorem joined_of_callStep {request : Request I} {p q : Phase} (howned : Owned s)
    (hcall : s.calls[k]? = some ⟨request, p⟩) (h : CallStep s k request p q u) {d : ℕ}
    (hd : u.Joined d) :
    s.Joined d ∨ ∃ sid i ret, request = .wait sid ∧ p = .joining d i ret := by
  have hsame : u.look Child.session = s.look Child.session → s.Joined d := by
    intro hlook
    unfold Server.Joined at hd
    rwa [Server.handles_of_look hlook] at hd
  obtain ⟨handle, hmem, hjoined⟩ := hd
  cases h with
  | inserted sid cmd l c peer =>
    by_cases hdc : d = c
    · subst hdc
      have hnew : (s.insertSession k sid l d peer).JoinedTo d 0 :=
        joinedTo_insertSession (howned.owned k _ d hcall rfl).1
      obtain ⟨i, hi⟩ := List.mem_iff_getElem?.mp hmem
      exact absurd ((hnew.2 i handle hi).mp hjoined) (Nat.not_lt_zero i)
    · rw [handles_insertSession hdc] at hmem
      exact .inl ⟨handle, hmem, hjoined⟩
  | pushed out sid c j =>
    rw [Server.handles_pushHandle] at hmem
    split_ifs at hmem with hdc
    · rcases List.mem_append.mp hmem with hold | hnew
      · rw [← hdc.1] at hold
        exact .inl ⟨handle, hold, hjoined⟩
      · obtain rfl := List.mem_singleton.mp hnew
        cases hjoined
    · exact .inl ⟨handle, hmem, hjoined⟩
  | joined sid c i ret =>
    rw [Server.handles_takeHandle] at hmem
    split_ifs at hmem with hdc
    · exact .inr ⟨sid, i, ret, rfl, by rw [hdc.1]⟩
    · exact .inl ⟨handle, hmem, hjoined⟩
  | failed _ _ e hp | dropped _ _ hp => exact .inl (hsame (look_session_release s k p))
  | spawned sid cmd l => exact .inl (hsame (Server.look_spawnChild rfl s))
  | accepted | wrote => exact .inl (hsame (Server.look_modifyChild fun _ => rfl))
  | _ => exact .inl (hsame rfl)

theorem owns_of_callStep {request : Request I} {p q : Phase} (h : CallStep s k request p q u)
    {d : ℕ} (hq : q.owns = some d) : p.owns = some d ∨
      ∃ sid cmd l, request = .start sid cmd ∧ p = .launching l ∧ q = .accepting l d ∧
        d = s.children.length := by
  cases h with
  | spawned sid cmd l =>
    obtain rfl := Option.some.inj hq
    exact .inr ⟨sid, cmd, l, rfl, rfl, rfl, rfl⟩
  | accepted | sent => exact .inl hq
  | tookItem | wrote => split at hq <;> cases hq
  | _ => cases hq

theorem label_of_spawned {label : Label I} {sid : I} {cmd : Cmd} {l : Launch} {d : ℕ}
    (hcall : s.calls[k]? = some ⟨.start sid cmd, .launching l⟩) (hlabel : label.movesCall = some k)
    (hstep : s.step label = some t)
    (ht : t.calls[k]? = some ⟨.start sid cmd, .accepting l d⟩) : label = .start k .spawned := by
  cases label <;> simp only [Label.movesCall, Option.some.injEq, reduceCtorEq] at hlabel
  all_goals subst hlabel
  case start i e =>
    have hphase : ∀ (u : Server I) (q : Phase), t = u.setPhase i q → u.calls = s.calls →
        q = .accepting l d := by
      rintro u q rfl hu
      rw [calls_moved hcall hu, if_pos rfl] at ht
      cases ht
      rfl
    simp only [Server.step, hcall] at hstep
    cases e with
    | spawned => rfl
    | stdioFailed e =>
      simp only [Server.stepStart] at hstep
      split_ifs at hstep
      cases hstep
      cases hphase _ _ rfl (Server.release_calls s _ _)
    | spawnFailed e =>
      cases hstep
      cases hphase _ _ rfl (Server.release_calls s _ _)
    | _ => cases hstep
  case drop =>
    simp only [Server.step, hcall, Phase.returned] at hstep
    cases hstep
    rw [calls_moved hcall (Server.release_calls s _ _), if_pos rfl] at ht
    cases ht
  all_goals simp [Server.step, hcall] at hstep

/-- One step of a call. -/
theorem Reaping.callStep {request : Request I} {p q : Phase} (h : Reaping WaitFails Spawns s)
    (hsingle : s.Single) (hcall : s.calls[k]? = some ⟨request, p⟩)
    (hmove : CallStep s k request p q u) (howned : Owned (u.setPhase k q))
    (hjoining : Joining WaitFails (u.setPhase k q))
    (hspawns : ∀ sid cmd l, request = .start sid cmd → p = .launching l →
      q = .accepting l s.children.length → Spawns k s.children.length) :
    Reaping WaitFails Spawns (u.setPhase k q) := by
  have hcalls := calls_moved (q := q) hcall hmove.calls_eq
  have hsessions := sidOf_of_callStep h.owned hcall hmove
  have hlive := hmove.live
  have hkept : ∀ c sid, s.sidOf c = some sid → u.sidOf c = some sid := by
    intro c sid hc
    rcases hsessions with hsame | ⟨sid', cmd, d, -, hd, -, hupdate⟩
    · rw [hsame, hc]
    · have hcd : c ≠ d := by
        rintro rfl
        simp [(h.owned.owned k _ c hcall hd).2] at hc
      rw [hupdate, Function.update_of_ne hcd, hc]
  -- a call that has ended is not the one that moves
  have hended : ∀ (i : ℕ) (r : Request I) (ret : Except Error Answer),
      s.calls[i]? = some ⟨r, .done ret⟩ → (u.setPhase k q).calls[i]? = some ⟨r, .done ret⟩ := by
    intro i r ret hi
    have hik : i ≠ k := by
      rintro rfl
      rw [hcall] at hi
      cases hi
      cases hlive
    rw [hcalls, if_neg hik, hi]
  constructor
  case owned => exact howned
  case joining => exact hjoining
  case begun =>
    intro d hd
    rcases joined_of_callStep h.owned hcall hmove hd with hold | ⟨sid, i, ret, rfl, rfl⟩
    · obtain ⟨i, sid, p', hi, hsid, hbegan⟩ := h.begun d hold
      by_cases hik : i = k
      · subst hik
        rw [hcall] at hi
        cases hi
        exact ⟨i, sid, q, by rw [hcalls, if_pos rfl], hkept d sid hsid, hmove.began hbegan⟩
      · exact ⟨i, sid, p', by rw [hcalls, if_neg hik, hi], hkept d sid hsid, hbegan⟩
    · have hsid : s.sidOf d = some sid := h.joining.visits k _ d hcall rfl
      exact ⟨k, sid, q, by rw [hcalls, if_pos rfl], hkept d sid hsid, hmove.began rfl⟩
  case spawning =>
    intro i call d hi hd
    rw [hcalls] at hi
    split_ifs at hi with hik
    · cases hi
      subst hik
      rcases owns_of_callStep hmove hd with hold | ⟨sid, cmd, l, hrequest, hp, hq, rfl⟩
      · exact h.spawning i _ d hcall hold
      · exact hspawns sid cmd l hrequest hp hq
    · exact h.spawning i call d hi hd
  case spawned =>
    intro d sid hd
    change u.sidOf d = some sid at hd
    have hold : s.sidOf d = some sid → ∃ (i : ℕ) (cmd : Cmd),
        (u.setPhase k q).calls[i]? = some ⟨.start sid cmd, .done (.ok .unit)⟩ ∧ Spawns i d := by
      intro hd
      obtain ⟨i, cmd, hi, hspawn⟩ := h.spawned d sid hd
      exact ⟨i, cmd, hended i _ _ hi, hspawn⟩
    rcases hsessions with hsame | ⟨sid', cmd, e, rfl, he, rfl, hupdate⟩
    · rw [hsame] at hd
      exact hold hd
    · by_cases hde : d = e
      · subst hde
        rw [hupdate, Function.update_self] at hd
        cases hd
        exact ⟨k, cmd, by rw [hcalls, if_pos rfl], h.spawning k _ d hcall he⟩
      · rw [hupdate, Function.update_of_ne hde] at hd
        exact hold hd
  case only =>
    intro d e sid hd he
    change u.sidOf d = some sid at hd
    change u.sidOf e = some sid at he
    rcases hsessions with hsame | ⟨sid', cmd, c, rfl, hc, -, hupdate⟩
    · rw [hsame] at hd he
      exact h.only d e sid hd he
    · -- the `start` call of a session that is there has ended, and call `k` has not
      have hnone : sid' = sid → ∀ e, s.sidOf e ≠ some sid := by
        rintro rfl e he
        obtain ⟨i, cmd', hi, -⟩ := h.spawned e sid' he
        have hik : i = k := hsingle i k _ _ (Server.requests_getElem? hi)
          (Server.requests_getElem? hcall) rfl rfl (by simp [Request.rpc])
        subst hik
        rw [hcall] at hi
        cases hi
        cases hlive
      rw [hupdate] at hd he
      by_cases hdc : d = c
      · by_cases hec : e = c
        · rw [hdc, hec]
        · subst hdc
          rw [Function.update_self] at hd
          rw [Function.update_of_ne hec] at he
          exact absurd he (hnone (Option.some.inj hd) e)
      · rw [Function.update_of_ne hdc] at hd
        by_cases hec : e = c
        · subst hec
          rw [Function.update_self] at he
          exact absurd hd (hnone (Option.some.inj he) d)
        · rw [Function.update_of_ne hec] at he
          exact h.only d e sid hd he

omit [DecidableEq I] in
theorem Reaping.called (h : Reaping WaitFails Spawns s) (request : Request I) :
    Reaping WaitFails Spawns { s with calls := s.calls ++ [⟨request, .called⟩] } where
  owned := h.owned.called request
  joining := h.joining.called request
  begun d hd := by
    obtain ⟨i, sid, p, hi, hsid, hbegan⟩ := h.begun d hd
    have hlt := (List.getElem?_eq_some_iff.mp hi).1
    exact ⟨i, sid, p, by rw [List.getElem?_append_left hlt, hi], hsid, hbegan⟩
  spawning i call d hi hd := by
    refine h.spawning i call d (call_of_called hi fun hp => ?_) hd
    rw [hp] at hd
    cases hd
  spawned d sid hd := by
    obtain ⟨i, cmd, hi, hspawn⟩ := h.spawned d sid hd
    have hlt := (List.getElem?_eq_some_iff.mp hi).1
    exact ⟨i, cmd, by rw [List.getElem?_append_left hlt, hi], hspawn⟩
  only := h.only

theorem Reaping.step {label : Label I} (h : Reaping WaitFails Spawns s) (hsingle : s.Single)
    (hstep : s.step label = some t)
    (hfails : ∀ k e, label = .wait k (.waitFailed e) → WaitFails k e)
    (hspawns : ∀ k, label = .start k .spawned → Spawns k s.children.length) :
    Reaping WaitFails Spawns t := by
  obtain ⟨howned, hjoining⟩ := joining_step s label t ⟨h.owned, h.joining⟩
    ⟨h.joinsOnce hsingle label, hfails⟩ hstep
  cases serverStep_of_step hstep with
  | called request => exact h.called request
  | @moved _ k request p q u hlabel hcall hmove =>
    refine h.callStep hsingle hcall hmove howned hjoining ?_
    rintro sid cmd l rfl rfl rfl
    have ht : (u.setPhase k (.accepting l s.children.length)).calls[k]? =
        some ⟨.start sid cmd, .accepting l s.children.length⟩ := by
      rw [calls_moved hcall hmove.calls_eq, if_pos rfl]
    exact hspawns k (label_of_spawned hcall hlabel hstep ht)
  | child hchild hchildStep =>
    obtain ⟨hlook, -⟩ := stepChild_look hchild hchildStep
    exact h.same howned hjoining (stepChild_same hchildStep).1 hlook
  | copy htask hcopy =>
    obtain ⟨hlook, -⟩ := stepCopy_look hcopy
    exact h.same howned hjoining (stepCopy_same hcopy).1 hlook
  | forwardDone htask => exact h.same howned hjoining rfl rfl

omit [DecidableEq I] in
theorem reaping_new : Reaping WaitFails Spawns (Server.new : Server I) := by
  refine ⟨owned_new, joining_new, ?_, ?_, ?_, ?_⟩
  all_goals simp [Server.new, Server.Joined, Server.handles, Server.sidOf]

end

/-! The calls of a client, each of them once. -/

/-- The order in which a client makes its calls. -/
def Rpc.rank : Rpc → ℕ
  | .dial => 0
  | .ninepForward => 1
  | .start => 2
  | .stdout => 3
  | .stderr => 4
  | .wait => 5

/-- A call that the client can have made by now. -/
def Client.Past (c : Client I) (rpc : Rpc) : Prop :=
  match c.main with
  | .ready next => rpc.rank < next.rank
  | .calling now _ => rpc.rank ≤ now.rank
  | .started => rpc.rank < Rpc.wait.rank
  | _ => True

structure Client.Made (c : Client I) (requests : List (Request I)) : Prop where
  own : ∀ request ∈ requests, request.sid = c.sid →
    request = .stdin c.sid ∨ ∃ rpc, request = c.request rpc ∧ c.Past rpc
  once : ∀ (i k : ℕ) (rpc : Rpc), requests[i]? = some (c.request rpc) →
    requests[k]? = some (c.request rpc) → i = k

section
variable {c c' : Client I} {requests : List (Request I)}

theorem Client.Made.congr (h : c.Made requests) (hsid : c'.sid = c.sid) (hcmd : c'.cmd = c.cmd)
    (hpast : ∀ rpc, c.Past rpc → c'.Past rpc) : c'.Made requests where
  own request hmem hown := by
    rw [hsid] at hown ⊢
    rcases h.own request hmem hown with hstdin | ⟨rpc, hrequest, hrpc⟩
    · exact .inl hstdin
    · exact .inr ⟨rpc, by rw [request_congr hsid hcmd, hrequest], hpast rpc hrpc⟩
  once i k rpc := by
    rw [request_congr hsid hcmd]
    exact h.once i k rpc

/-- A call that is not one of the client's own. -/
theorem Client.Made.other (h : c.Made requests) {request : Request I}
    (hother : request.sid = c.sid → request = .stdin c.sid) : c.Made (requests ++ [request]) where
  own r hmem hown := by
    rcases List.mem_append.mp hmem with hold | hnew
    · exact h.own r hold hown
    · obtain rfl := List.mem_singleton.mp hnew
      exact .inl (hother hown)
  once i k rpc hi hk := by
    have hold : ∀ i : ℕ, (requests ++ [request])[i]? = some (c.request rpc) →
        requests[i]? = some (c.request rpc) := by
      intro i hi
      rcases getElem?_concat_cases hi with hi | ⟨-, hnew⟩
      · exact hi
      · have hstdin := hother (by rw [← hnew, request_sid])
        rw [hstdin] at hnew
        have hrpc := rpc_request c rpc
        rw [hnew] at hrpc
        cases hrpc
    exact h.once i k rpc (hold i hi) (hold k hk)

/-- The client makes its next call. -/
theorem Client.Made.invoke {rpc : Rpc} (h : c.Made requests) (hmain : c.main = .ready rpc)
    (n : ℕ) : Client.Made { c with main := .calling rpc n } (requests ++ [c.request rpc]) := by
  have hrequest : ∀ rpc', Client.request { c with main := .calling rpc n } rpc' =
      c.request rpc' := fun rpc' => request_congr rfl rfl rpc'
  have hbefore : ∀ request ∈ requests, request.sid = c.sid → request ≠ c.request rpc := by
    rintro request hmem hsid rfl
    rcases h.own _ hmem hsid with hstdin | ⟨rpc', heq, hpast⟩
    · have hrpc := rpc_request c rpc
      rw [hstdin] at hrpc
      cases hrpc
    · have hrpc := rpc_request c rpc
      rw [heq, rpc_request] at hrpc
      cases hrpc
      unfold Client.Past at hpast
      rw [hmain] at hpast
      exact absurd hpast (Nat.lt_irrefl _)
  have hat : ∀ i : ℕ, (requests ++ [c.request rpc])[i]? = some (c.request rpc) →
      i = requests.length := by
    intro i hi
    rcases getElem?_concat_cases hi with hi | ⟨hlast, -⟩
    · exact absurd rfl (hbefore _ (List.mem_of_getElem? hi) (request_sid c rpc))
    · exact hlast
  constructor
  · intro request hmem hown
    rcases List.mem_append.mp hmem with hold | hnew
    · rcases h.own request hold hown with hstdin | ⟨rpc', rfl, hpast⟩
      · exact .inl hstdin
      · refine .inr ⟨rpc', (hrequest rpc').symm, ?_⟩
        unfold Client.Past at hpast ⊢
        rw [hmain] at hpast
        exact Nat.le_of_lt hpast
    · obtain rfl := List.mem_singleton.mp hnew
      exact .inr ⟨rpc, (hrequest rpc).symm, Nat.le_refl _⟩
  · intro i k rpc' hi hk
    rw [hrequest] at hi hk
    by_cases heq : rpc' = rpc
    · subst heq
      rw [hat i hi, hat k hk]
    · have hold : ∀ i : ℕ, (requests ++ [c.request rpc])[i]? = some (c.request rpc') →
          requests[i]? = some (c.request rpc') := by
        intro i hi
        rcases getElem?_concat_cases hi with hi | ⟨-, hnew⟩
        · exact hi
        · have hrpc := rpc_request c rpc'
          rw [hnew, rpc_request] at hrpc
          exact absurd (Option.some.inj hrpc).symm heq
      exact h.once i k rpc' (hold i hi) (hold k hk)

variable [DecidableEq I]

/-- A step of the server that calls nothing for the client. -/
theorem Client.Made.step {label : Label I} (h : c.Made s.requests) (hstep : s.step label = some t)
    (hcall : ∀ request, label = .call request → request.sid = c.sid → request = .stdin c.sid) :
    c.Made t.requests := by
  rcases requests_of_step hstep with hsame | ⟨request, hlabel, hnew⟩
  · rw [hsame]
    exact h
  · rw [hnew]
    exact h.other (hcall request hlabel)

omit [DecidableEq I] in
/-- Getting a reply takes the client to a later call. -/
theorem past_afterReply {rpc rpc' : Rpc} {n : ℕ} {ret : Except Error Answer}
    (hmain : c.main = .calling rpc n) (h : c.Past rpc') : (c.afterReply rpc ret).Past rpc' := by
  unfold Client.Past at h
  rw [hmain] at h
  fun_cases Client.afterReply c rpc ret
  case case4 =>
    have hrank : rpc'.rank ≤ 0 := h
    change rpc'.rank < Rpc.rank (if c.cmd.ninep then .ninepForward else .start)
    split
    · exact Nat.lt_of_le_of_lt hrank (by decide)
    · exact Nat.lt_of_le_of_lt hrank (by decide)
  case case5 => exact Nat.lt_succ_of_le h
  case case6 => exact Nat.lt_succ_of_le h
  case case7 => exact Nat.lt_of_le_of_lt h (by decide)
  case case8 => exact Nat.lt_succ_of_le h
  case case9 => exact Nat.lt_succ_of_le h
  all_goals exact True.intro

omit [DecidableEq I] in
theorem Client.Made.stepMain {s t : System I} {e : MainEvent}
    (h : s.client.Made s.server.requests) (hstep : s.stepMain e = some t) :
    t.client.Made t.server.requests := by
  revert hstep
  fun_cases System.stepMain s e
  all_goals intro hstep
  all_goals cases hstep
  case case1.refl rpc hready call =>
    have hrequests : Server.requests { s.server with calls := s.server.calls ++ [call] } =
        s.server.requests ++ [s.client.request rpc] := by
      simp [Server.requests, call]
    rw [hrequests]
    exact h.invoke hready _
  case case3.refl rpc k hcalling request ret hcall =>
    obtain ⟨hsid, hcmd⟩ := sid_afterReply s.client rpc ret
    exact h.congr hsid hcmd fun rpc' hpast => past_afterReply hcalling hpast
  case case9.refl hstarted =>
    refine h.congr rfl rfl fun rpc hpast => ?_
    unfold Client.Past at hpast
    rw [hstarted] at hpast
    exact hpast
  all_goals exact h.congr rfl rfl fun _ _ => True.intro

/-- A step of the client itself. -/
theorem Client.Made.ownStep {s t : System I} {label : System.Label I}
    (h : s.client.Made s.server.requests) (hstep : s.step label = some t)
    (hlabel : ∀ l, label ≠ .server l) : t.client.Made t.server.requests := by
  revert hstep
  fun_cases System.step s label
  all_goals intro hstep
  case case2 l _ => exact absurd rfl (hlabel l)
  case case3 e => exact h.stepMain hstep
  case case4 c _ _ _ _ =>
    obtain ⟨cs', hclient⟩ := client_of_stepDrain hstep
    have hmade : s.client.Made t.server.requests := by
      rcases System.server_of_stepDrain hstep with hsame | hconsume
      · rw [hsame]
        exact h
      · exact h.step hconsume (by simp)
    rw [hclient]
    refine hmade.congr (by simp) (by simp) fun rpc hpast => ?_
    unfold Client.Past
    rw [setStream_main]
    exact hpast
  case case7 =>
    obtain ⟨stdin', server, rfl, hsame | ⟨l, hl, hask⟩⟩ := System.stepFeed_eq hstep
    · rw [hsame]
      exact h.congr rfl rfl fun _ hpast => hpast
    · have hmade : s.client.Made server.requests := by
        refine h.step hl fun request hl' hsid => ?_
        subst hl'
        rcases hask with ⟨k, e, hk⟩ | ⟨sid, hk⟩
        · cases hk
        · cases hk
          exact congrArg Request.stdin hsid
      exact hmade.congr rfl rfl fun _ hpast => hpast
  all_goals cases hstep

/-- A step of another client. -/
theorem Client.Asks.made {c d : Client I} {label : Cpu.Label I} (h : d.Asks label)
    (hmade : c.Made s.requests) (hstep : s.step label = some t) (hne : d.sid ≠ c.sid) :
    c.Made t.requests := by
  refine hmade.step hstep fun request hlabel hsid => ?_
  subst hlabel
  cases h with
  | call rpc => exact absurd ((request_sid d rpc).symm.trans hsid) hne
  | stdin sid => exact congrArg Request.stdin hsid

/-! What `wait` returns. -/

/-- `wait_inner` -/
def waitInner : Except Error ℤ → Except ClientError Unit
  | .ok code => if code = 0 then .ok () else .error (.nonZeroExitCode code)
  | .error e => .error (.inner e.message)

/-- What `wait` has got from its call. -/
def MainPhase.ret : MainPhase → Option (Except ClientError Unit)
  | .joining _ ret | .returned ret => some ret
  | _ => none

/-- `wait` returns what its remote call returned, or why that failed. -/
def Client.Returns (c : Client I) (RpcFails : String → Prop) (s : Server I) : Prop :=
  ∀ ret, c.main.ret = some ret →
    (∃ message, RpcFails message ∧ ret = .error (.inner message)) ∨
    ∃ (k : ℕ) (r : Except Error ℤ),
      s.calls[k]? = some ⟨.wait c.sid, .done (r.map Answer.code)⟩ ∧ ret = waitInner r

variable {RpcFails : String → Prop}

/-- The server answers no call twice. -/
theorem Client.Returns.step {label : Label I} (h : c.Returns RpcFails s)
    (hstep : s.step label = some t) : c.Returns RpcFails t := by
  intro ret hret
  rcases h ret hret with hfail | ⟨k, r, hk, hr⟩
  · exact .inl hfail
  · obtain ⟨q, hq, hsame⟩ := call_of_step hk hstep
    obtain rfl := hsame rfl
    exact .inr ⟨k, r, hq, hr⟩

omit [DecidableEq I] in
theorem Client.Returns.congr (h : c.Returns RpcFails s) (hsid : c'.sid = c.sid)
    (hmain : c'.main.ret = c.main.ret ∨ c'.main.ret = none) : c'.Returns RpcFails s := by
  intro ret hret
  rcases hmain with hsame | hnone
  · rw [hsid]
    exact h ret (by rw [← hsame, hret])
  · rw [hnone] at hret
    cases hret

omit [DecidableEq I] in
/-- The call that the client waits for is the one it has made. -/
theorem Client.Served.calling {opened : UInt16 → Prop} {rpc : Rpc} (h : c.Served opened s)
    (hmain : c.main = .calling rpc k) : ∃ p, s.calls[k]? = some ⟨c.request rpc, p⟩ := by
  rcases h with hfresh | ⟨rpc', k', p, hserving⟩
  · rw [hfresh.main] at hmain
    cases hmain
  · rcases hserving.main with hcalling | hover | ⟨a, next, -, -, hready | ⟨-, hstarted⟩⟩
    · rw [hmain] at hcalling
      cases hcalling
      exact ⟨p, hserving.call⟩
    · simp [hmain, MainPhase.over] at hover
    · simp [hmain] at hready
    · simp [hmain] at hstarted

omit [DecidableEq I] in
theorem returns_afterReply {rpc : Rpc} {ret : Except Error Answer}
    (hcall : s.calls[k]? = some ⟨c.request rpc, .done ret⟩) :
    (c.afterReply rpc ret).Returns RpcFails s := by
  have hnone : (c.afterReply rpc ret).main.ret = none → (c.afterReply rpc ret).Returns RpcFails s := by
    intro hnone ret' hret'
    rw [hnone] at hret'
    cases hret'
  revert hcall hnone
  fun_cases Client.afterReply c rpc ret
  case case1 code =>
    intro hcall _ ret' hret'
    obtain rfl := Option.some.inj hret'
    exact .inr ⟨k, .ok code, hcall, rfl⟩
  case case2 e =>
    intro hcall _ ret' hret'
    obtain rfl := Option.some.inj hret'
    exact .inr ⟨k, .error e, hcall, rfl⟩
  case case7 =>
    intro _ hnone
    exact hnone rfl
  all_goals exact fun _ hnone => hnone rfl

omit [DecidableEq I] in
theorem Client.Returns.stepMain {s t : System I} {e : MainEvent} {opened : UInt16 → Prop}
    (h : s.client.Returns RpcFails s.server) (hserved : s.client.Served opened s.server)
    (hfails : ∀ message, e = .rpcFailed message → RpcFails message)
    (hstep : s.stepMain e = some t) : t.client.Returns RpcFails t.server := by
  revert hstep
  fun_cases System.stepMain s e
  all_goals intro hstep
  all_goals cases hstep
  case case1.refl =>
    intro ret hret
    cases hret
  case case3.refl rpc k hcalling request ret hcall =>
    obtain ⟨p, hp⟩ := hserved.calling hcalling
    rw [hcall] at hp
    cases hp
    exact returns_afterReply hcall
  case case6.refl message n hcalling =>
    intro ret hret
    obtain rfl := Option.some.inj hret
    exact .inl ⟨message, hfails message rfl, rfl⟩
  case case11.refl hjoining _ => exact h.congr rfl (.inl (by rw [hjoining]; rfl))
  case case13.refl hjoining _ => exact h.congr rfl (.inl (by rw [hjoining]; rfl))
  all_goals exact h.congr rfl (.inr rfl)

/-- A step of the client itself. -/
theorem Client.Returns.ownStep {s t : System I} {label : System.Label I} {opened : UInt16 → Prop}
    (h : s.client.Returns RpcFails s.server) (hserved : s.client.Served opened s.server)
    (hfails : ∀ message, label = .main (.rpcFailed message) → RpcFails message)
    (hstep : s.step label = some t) (hlabel : ∀ l, label ≠ .server l) :
    t.client.Returns RpcFails t.server := by
  revert hstep
  fun_cases System.step s label
  all_goals intro hstep
  case case2 l _ => exact absurd rfl (hlabel l)
  case case3 e =>
    exact h.stepMain hserved (fun message he => hfails message (congrArg _ he)) hstep
  case case4 c _ _ _ _ =>
    obtain ⟨cs', hclient⟩ := client_of_stepDrain hstep
    have hreturns : s.client.Returns RpcFails t.server := by
      rcases System.server_of_stepDrain hstep with hsame | hconsume
      · rw [hsame]
        exact h
      · exact h.step hconsume
    rw [hclient]
    exact hreturns.congr (by simp) (.inl (by simp))
  case case7 =>
    obtain ⟨stdin', server, rfl, hsame | ⟨l, hl, -⟩⟩ := System.stepFeed_eq hstep
    · rw [hsame]
      exact h.congr rfl (.inl rfl)
    · exact (h.step hl).congr rfl (.inl rfl)
  all_goals cases hstep

end

namespace Network
variable [DecidableEq I]

/-- Every client and the server, with what is known of their calls and children. -/
structure Accounted (opened : I → UInt16 → Prop) (WaitFails : ℕ → IoError → Prop)
    (Spawns : ℕ → ℕ → Prop) (RpcFails : ℕ → String → Prop) (s : Network I) : Prop where
  fits : Fits opened s
  made : ∀ c ∈ s.clients, c.Made s.server.requests
  reaping : Reaping WaitFails Spawns s.server
  returns : ∀ (i : ℕ) (c : Client I), s.clients[i]? = some c → c.Returns (RpcFails i) s.server

variable {opened : I → UInt16 → Prop} {WaitFails : ℕ → IoError → Prop} {Spawns : ℕ → ℕ → Prop}
  {RpcFails : ℕ → String → Prop}

omit [DecidableEq I] in
theorem Fits.single {s : Network I} (h : s.Fits opened)
    (hmade : ∀ c ∈ s.clients, c.Made s.server.requests) : s.server.Single := by
  intro i k ri rk hi hk hsid hrpc hne
  have hcall : ∃ p, s.server.calls[i]? = some ⟨ri, p⟩ := by
    unfold Server.requests at hi
    rw [List.getElem?_map, Option.map_eq_some_iff] at hi
    obtain ⟨⟨request, p⟩, hi, rfl⟩ := hi
    exact ⟨p, hi⟩
  obtain ⟨p, hp⟩ := hcall
  have hstdin : ∀ sid, ri ≠ .stdin sid := by
    rintro sid rfl
    exact hne rfl
  obtain ⟨c, hc, hcsid⟩ := h.owned i ri p hp hstdin
  have hcalls : ∀ r, r ∈ s.server.requests → r.sid = c.sid → r.rpc ≠ none →
      ∃ rpc, r = c.request rpc := by
    intro r hmem hown hrne
    rcases (hmade c hc).own r hmem hown with rfl | ⟨rpc, hrequest, -⟩
    · exact absurd rfl hrne
    · exact ⟨rpc, hrequest⟩
  obtain ⟨rpc, rfl⟩ := hcalls ri (List.mem_of_getElem? hi) hcsid.symm hne
  obtain ⟨rpc', rfl⟩ := hcalls rk (List.mem_of_getElem? hk) (hsid.symm.trans hcsid.symm)
    (by rw [← hrpc]; exact hne)
  rw [rpc_request, rpc_request] at hrpc
  obtain rfl := Option.some.inj hrpc
  exact (hmade c hc).once i k rpc hi hk

/-- What the labels of the run say. -/
structure Told (opened : I → UInt16 → Prop) (WaitFails : ℕ → IoError → Prop)
    (Spawns : ℕ → ℕ → Prop) (RpcFails : ℕ → String → Prop) (s : Network I) (label : Label I) :
    Prop where
  opens : Opens opened s label
  waitFails : ∀ k e, label = .server (.wait k (.waitFailed e)) → WaitFails k e
  spawns : ∀ k, label = .server (.start k .spawned) → Spawns k s.server.children.length
  rpcFails : ∀ i message, label = .client i (.main (.rpcFailed message)) → RpcFails i message

theorem Accounted.serverStep {s : Network I} {label : Cpu.Label I} {server : Server I}
    (h : Accounted opened WaitFails Spawns RpcFails s) (hcall : ∀ request, label ≠ .call request)
    (htold : Told opened WaitFails Spawns RpcFails s (.server label))
    (hstep : s.server.step label = some server) :
    Accounted opened WaitFails Spawns RpcFails { s with server := server } where
  fits := h.fits.serverStep hstep hcall htold.opens
  made c hc := (h.made c hc).step hstep fun request hlabel => absurd hlabel (hcall request)
  reaping := h.reaping.step (h.fits.single h.made) hstep
    (fun k e hlabel => htold.waitFails k e (congrArg _ hlabel))
    (fun k hlabel => htold.spawns k (congrArg _ hlabel))
  returns i c hc := (h.returns i c hc).step hstep

theorem Accounted.clientStep {s : Network I} {i : ℕ} {c : Client I} {label : System.Label I}
    {t : System I} (h : Accounted opened WaitFails Spawns RpcFails s)
    (hc : s.clients[i]? = some c) (hlabel : ∀ l, label ≠ .server l)
    (htold : Told opened WaitFails Spawns RpcFails s (.client i label))
    (hstep : System.step ⟨s.server, c⟩ label = some t) :
    Accounted opened WaitFails Spawns RpcFails ⟨t.server, s.clients.set i t.client⟩ := by
  have hmem := List.mem_of_getElem? hc
  have hi : i < s.clients.length := (List.getElem?_eq_some_iff.mp hc).1
  have hclients : ∀ (j : ℕ) (d : Client I), (s.clients.set i t.client)[j]? = some d →
      j = i ∧ d = t.client ∨ j ≠ i ∧ s.clients[j]? = some d := by
    intro j d hd
    by_cases hij : i = j
    · subst hij
      rw [List.getElem?_set_self hi] at hd
      exact .inl ⟨rfl, (Option.some.inj hd).symm⟩
    · rw [List.getElem?_set_ne hij] at hd
      exact .inr ⟨Ne.symm hij, hd⟩
  have hasks : t.server = s.server ∨ ∃ l, s.server.step l = some t.server ∧ c.Asks l :=
    asks_of_step hstep hlabel
  constructor
  case fits => exact h.fits.clientStep hc hstep hlabel
  case made =>
    intro d hd
    obtain ⟨j, hj⟩ := List.mem_iff_getElem?.mp hd
    rcases hclients j d hj with ⟨rfl, rfl⟩ | ⟨hji, hold⟩
    · exact Client.Made.ownStep (h.made c hmem) hstep hlabel
    · have hmade := h.made d (List.mem_of_getElem? hold)
      rcases hasks with hsame | ⟨l, hl, hask⟩
      · change d.Made t.server.requests
        rw [hsame]
        exact hmade
      · refine hask.made hmade hl fun heq => ?_
        exact hji (h.fits.distinct j i d c hold hc heq.symm)
  case reaping =>
    rcases hasks with hsame | ⟨l, hl, hask⟩
    · change Reaping WaitFails Spawns t.server
      rw [hsame]
      exact h.reaping
    · refine h.reaping.step (h.fits.single h.made) hl ?_ ?_
      · rintro k e rfl
        cases hask
      · rintro k rfl
        cases hask
  case returns =>
    intro j d hj
    rcases hclients j d hj with ⟨rfl, rfl⟩ | ⟨-, hold⟩
    · exact Client.Returns.ownStep (h.returns j c hc) (h.fits.served c hmem)
        (fun message hmain => htold.rpcFails j message (congrArg _ hmain)) hstep hlabel
    · have hreturns := h.returns j d hold
      rcases hasks with hsame | ⟨l, hl, -⟩
      · change d.Returns (RpcFails j) t.server
        rw [hsame]
        exact hreturns
      · exact hreturns.step hl

theorem accounted_step (s : Network I) (label : Label I) (t : Network I)
    (h : Accounted opened WaitFails Spawns RpcFails s)
    (htold : Told opened WaitFails Spawns RpcFails s label) (hstep : s.step label = some t) :
    Accounted opened WaitFails Spawns RpcFails t := by
  revert hstep
  fun_cases step s label
  all_goals intro hstep
  case case3 label hcall _ =>
    obtain ⟨server, hserver, rfl⟩ := Option.map_eq_some_iff.mp hstep
    exact h.serverStep hcall htold hserver
  case case5 i label hlabel c hc =>
    obtain ⟨u, hu, rfl⟩ := Option.map_eq_some_iff.mp hstep
    exact h.clientStep hc hlabel htold hu
  all_goals cases hstep

omit [DecidableEq I] in
theorem accounted_new {clients : List (I × Cmd)} (hdistinct : (clients.map Prod.fst).Nodup) :
    Accounted opened WaitFails Spawns RpcFails (new clients) := by
  constructor
  case fits => exact fits_new hdistinct
  case made =>
    intro c hc
    constructor <;> simp [new, Server.new, Server.requests]
  case reaping => exact reaping_new
  case returns =>
    intro i c hc ret hret
    obtain ⟨⟨sid, cmd⟩, -, rfl⟩ := List.mem_map.mp (List.mem_of_getElem? hc)
    cases hret

/-- In the run, the host has spawned child `d` for call `k`. -/
def Spawned (clients : List (I × Cmd)) (labels : List (Label I)) (k d : ℕ) : Prop :=
  ∃ (ms : List (Label I)) (ns : List (Label I)) (u : Network I),
    labels = ms ++ .server (.start k .spawned) :: ns ∧
      runs step (new clients) ms = some u ∧ u.server.children.length = d

/-- What the exit of a command is for the caller of `wait`. -/
def exitedWith : Option ℤ → Except ClientError Unit
  | some code => if code = 0 then .ok () else .error (.nonZeroExitCode code)
  | none => .error (.inner Error.noReturnCode.message)

theorem waitInner_of_exit {phase : ChildPhase} {r : Except Error ℤ}
    (h : Server.exitResult phase = some r) :
    ∃ code, phase = .exited code ∧ waitInner r = exitedWith code := by
  cases phase with
  | exited code =>
    refine ⟨code, rfl, ?_⟩
    cases code <;> cases h <;> rfl
  | _ => cases h

omit [DecidableEq I] in
/-- The call of `wait` is not refused. -/
theorem Fits.not_missing {s : Network I} (h : s.Fits opened) {k : ℕ} {sid : I} :
    s.server.calls[k]? ≠ some ⟨.wait sid, .done (.error .sessionNotExist)⟩ := by
  intro hk
  obtain ⟨c, hc, hsid⟩ := h.owned k _ _ hk (by simp)
  rcases (h.served c hc).cases hk hsid.symm (by simp) with ⟨a, ha⟩ | ⟨rpc, -, hfit⟩
  · cases ha
  · have hmisuse := hfit.error
    cases hmisuse

def shCmd : Cmd := ⟨"sh", [], [], [], false, false, "/tmp", 0, 0⟩

/-- Two clients. The command of the first one exits with code 3. -/
def exitRun : List (Label ℕ) :=
  [.client 0 (.main .invoke), .client 1 (.main .invoke), .server (.dial 1), .server (.dial 0),
    .client 0 (.main .reply), .client 0 (.main .invoke), .server (.start 2 .takePending),
    .server (.start 2 .lockSessions), .server (.start 2 (.bound 40000)),
    .server (.start 2 .spawned), .server (.child 0 .unshared), .server (.child 0 (.connected 2)),
    .server (.start 2 (.accepted 0)), .server (.start 2 .sent), .server (.start 2 .sent),
    .server (.start 2 .sent), .client 0 (.main .reply), .client 0 (.main .invoke),
    .server (.output 3 .getSession), .server (.output 3 .getHandles), .server (.output 3 .push),
    .client 0 (.main .reply), .client 0 (.main .invoke), .server (.output 4 .getSession),
    .server (.output 4 .getHandles), .server (.output 4 .push), .client 0 (.main .reply),
    .client 0 (.main .wait), .client 0 (.main .invoke), .server (.child 0 .received),
    .server (.child 0 .execed), .server (.child 0 (.exited 3)), .server (.wait 5 .getChild),
    .server (.wait 5 .lockChild), .server (.wait 5 .reaped), .server (.wait 5 .getHandles),
    .server (.child 0 (.closed .stdout)), .server (.child 0 (.closed .stderr)),
    .server (.task 0 .lock), .server (.task 0 .eof), .server (.task 1 .lock), .server (.task 1 .eof),
    .server (.wait 5 .lockHandles), .server (.wait 5 .join), .server (.wait 5 .join),
    .server (.wait 5 .join), .server (.wait 5 .remove), .client 0 (.main .reply),
    .client 0 (.drain .stdout .endOfStream), .client 0 (.drain .stderr .endOfStream),
    .client 0 (.feed .stop), .client 0 (.feed .noChunks), .client 0 (.feed .join),
    .client 0 (.main .join), .client 0 (.main .join), .client 0 (.main .join),
    .client 0 (.main .join)]

end Network
end P9cpu.Cpu
