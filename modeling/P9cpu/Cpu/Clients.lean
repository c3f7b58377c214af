import P9cpu.Cpu.Client
import P9cpu.Cpu.Lossless
import P9cpu.Cpu.Joins

/-! Any number of clients against one server: what they call is what the server expects. -/
namespace P9cpu.Cpu
open Core
open Ninep (IoError)

variable {I : Type}

structure Network (I : Type) where
  server : Server I
  clients : List (Client I)

namespace Network

inductive Label (I : Type)
  | server (label : Cpu.Label I)
  | client (i : ℕ) (label : System.Label I)

def new (clients : List (I × Cmd)) : Network I :=
  ⟨Server.new, clients.map (fun c => Client.new c.1 c.2)⟩

variable [DecidableEq I]

/-- All calls on the server are those of the clients. -/
def step (s : Network I) : Label I → Option (Network I)
  | .server (.call _) => none
  | .server label =>
    if s.clients.any (fun c => System.byClient ⟨s.server, c⟩ label) then none
    else (s.server.step label).map (fun server => { s with server := server })
  | .client _ (.server _) => none
  | .client i label =>
    match s.clients[i]? with
    | some c =>
      (System.step ⟨s.server, c⟩ label).map (fun t => ⟨t.server, s.clients.set i t.client⟩)
    | none => none

end Network

/-- The errors by which the server refuses a call that comes at the wrong time. -/
def Error.misuse : Error → Bool
  | .sessionNotExist | .duplicateId | .no9pPort => true
  | _ => false

/-- The call that a client makes after another one has succeeded. -/
def Client.next (c : Client I) : Rpc → Option Rpc
  | .dial => some (if c.cmd.ninep then .ninepForward else .start)
  | .ninepForward => some .start
  | .start => some .stdout
  | .stdout => some (if c.cmd.tty then .wait else .stderr)
  | .stderr => some .wait
  | .wait => none

/-- The client makes no call any more. -/
def MainPhase.over : MainPhase → Bool
  | .failed _ | .joining _ _ | .returned _ => true
  | _ => false

/-- The forwarder of a client that wants 9p. -/
def Client.Carries (c : Client I) (opened : UInt16 → Prop) (ninep : Option (UInt16 × ℕ)) : Prop :=
  c.cmd.ninep = true → ∃ (port : UInt16) (j : ℕ), ninep = some (port, j) ∧ opened port

/-- The command of a launch, with the port in its fstab. -/
def Client.Prepared (c : Client I) (opened : UInt16 → Prop) (l : Launch) : Prop :=
  c.cmd.ninep = true → ∃ port : UInt16, opened port ∧
    l.cmd = { c.cmd with fstab := fillNinep c.cmd.tmpMnt port c.cmd.fstab }

/-- Where the id of a client is when its last call is in a phase. -/
def Client.Fits (c : Client I) (opened : UInt16 → Prop) (pending : Option PendingSession)
    (session : Option ℕ) : Rpc → Phase → Prop
  | _, .done (.error e) => e.misuse = false
  | _, .dropped => True
  | .dial, .called => pending = none ∧ session = none
  | .dial, .done (.ok _) | .ninepForward, .called => pending ≠ none ∧ session = none
  | .ninepForward, .done (.ok _) | .start, .called =>
    (∃ entry, pending = some entry ∧ c.Carries opened entry.ninep) ∧ session = none
  | .start, .starting ninep | .start, .binding ninep => c.Carries opened ninep ∧ session = none
  | .start, .launching l | .start, .accepting l _ | .start, .sending l _ _ _ =>
    c.Prepared opened l
  | .start, .done (.ok _) => session ≠ none
  | .stdout, _ | .stderr, _ => session ≠ none
  | .wait, .done (.ok _) => True
  | .wait, p => session ≠ none ∧ ∀ e, p.result = some (.error e) → e.misuse = false
  | _, _ => True

variable {opened : UInt16 → Prop}

theorem prepared_of_prepare {c : Client I} {ninep : Option (UInt16 × ℕ)} {l : Launch}
    (h : c.Carries opened ninep) (hl : Server.prepare c.cmd (ninep.map Prod.fst) = .ok l.cmd) :
    c.Prepared opened l := by
  intro hninep
  obtain ⟨port, j, rfl, hopened⟩ := h hninep
  refine ⟨port, hopened, ?_⟩
  unfold Server.prepare at hl
  rw [if_pos hninep] at hl
  exact (Except.ok.inj hl).symm

/-- The last call of a client is refused in no phase. -/
theorem Client.Fits.not_misuse {s : Server I} {c : Client I} {rpc : Rpc} {p : Phase} {e : Error}
    (h : c.Fits opened (s.pending c.sid) (s.sessions c.sid) rpc p)
    (hfails : Fails s (c.request rpc) p e) : e.misuse = false := by
  cases rpc with
  | dial =>
    cases hfails with
    | dial _ hsome => exact absurd h.1 hsome
  | ninepForward =>
    cases hfails with
    | forward _ hnone => exact absurd hnone h.1
    | forwardBind => rfl
  | start =>
    cases hfails with
    | start _ _ hnone =>
      obtain ⟨⟨entry, hentry, -⟩, -⟩ := h
      simp [hnone] at hentry
    | running _ _ ninep hsome => exact absurd h.2 hsome
    | no9pPort _ _ hninep =>
      obtain ⟨port, j, hnone, -⟩ := h.1 hninep
      cases hnone
    | stdio _ _ l e he =>
      cases e <;> simp_all [Server.stdioError, Error.misuse]
    | bind | spawn | accept | send => rfl
  | stdout =>
    cases hfails with
    | output _ _ hnone => exact absurd hnone h
    | handles _ _ j hnone => exact absurd hnone h
  | stderr =>
    cases hfails with
    | output _ _ hnone => exact absurd hnone h
    | handles _ _ j hnone => exact absurd hnone h
  | wait =>
    cases hfails with
    | wait _ hnone => exact absurd hnone h.1
    | joins _ ret hnone => exact absurd hnone h.1
    | waited _ e => exact h.2 e rfl

variable [DecidableEq I] {s t u : Server I} {k : ℕ}

/-- One step of the last call of a client. -/
theorem Client.Fits.callStep {c : Client I} {rpc : Rpc} {p q : Phase}
    (h : c.Fits opened (s.pending c.sid) (s.sessions c.sid) rpc p)
    (hstep : CallStep s k (c.request rpc) p q u)
    (hfails : ∀ e, q = .done (.error e) → Fails s (c.request rpc) p e)
    (hopened : ∀ port, rpc = .ninepForward → q = .done (.ok (.stream s.tasks.length)) →
      u.pending c.sid = some ⟨some (port, s.tasks.length)⟩ → opened port) :
    c.Fits opened (u.pending c.sid) (u.sessions c.sid) rpc q := by
  -- an error ends the call, whatever it was
  have herror : ∀ e, q = .done (.error e) →
      c.Fits opened (u.pending c.sid) (u.sessions c.sid) rpc q := by
    rintro e rfl
    have hmisuse := h.not_misuse (hfails e rfl)
    cases rpc <;> exact hmisuse
  cases rpc with
  | dial =>
    cases hstep with
    | failed _ _ e => exact herror e rfl
    | dropped => trivial
    | dialed => exact ⟨by simp, h.2⟩
  | ninepForward =>
    cases hstep with
    | failed _ _ e => exact herror e rfl
    | dropped => trivial
    | forwarded _ port =>
      refine ⟨⟨_, Function.update_self .., fun _ => ⟨port, _, rfl, ?_⟩⟩, h.2⟩
      exact hopened port rfl rfl (Function.update_self ..)
  | start =>
    cases hstep with
    | failed _ _ e => exact herror e rfl
    | dropped => trivial
    | tookPending _ _ session hsome =>
      obtain ⟨⟨entry, hentry, hcarries⟩, hnone⟩ := h
      rw [hsome] at hentry
      cases hentry
      exact ⟨hcarries, hnone⟩
    | lockedSessions => exact h
    | bound _ _ ninep l hport hl => exact prepared_of_prepare h.1 hl
    | spawned => exact h
    | accepted => exact h
    | sent => exact h
    | inserted => simp [Client.Fits, Server.insertSession]
  | stdout =>
    cases hstep with
    | failed _ _ e => exact herror e rfl
    | dropped => trivial
    | openedOutput | foundHandles | pushed => exact h
  | stderr =>
    cases hstep with
    | failed _ _ e => exact herror e rfl
    | dropped => trivial
    | openedOutput | foundHandles | pushed => exact h
  | wait =>
    cases hstep with
    | failed _ _ e => exact herror e rfl
    | dropped => trivial
    | foundChild | lockedChild => exact ⟨h.1, by simp [Phase.result]⟩
    | reaped _ d child ret hchild hret =>
      refine ⟨h.1, fun e he => ?_⟩
      cases he
      unfold Server.exitResult at hret
      split at hret
      · cases hret
      · cases hret
        rfl
      · cases hret
    | waitFailed _ d e =>
      refine ⟨h.1, fun e' he => ?_⟩
      cases he
      rfl
    | foundJoins | lockedHandles | joined | joinedAll => exact ⟨h.1, fun e he => h.2 e he⟩
    | joinedAgain => exact ⟨h.1, by simp [Phase.result]⟩
    | removed _ ret =>
      cases ret with
      | ok code => trivial
      | error e => exact herror e rfl

/-- A step changes the maps at an id only if it moves a call about it, not on its stdin. -/
theorem maps_of_step {label : Label I} {sid : I} (hstep : s.step label = some t)
    (hmoves : ∀ (k : ℕ) (call : Call I), label.movesCall = some k → s.calls[k]? = some call →
      call.phase.returned = false → call.request.sid = sid → call.request = .stdin sid) :
    t.pending sid = s.pending sid ∧ t.sessions sid = s.sessions sid := by
  cases serverStep_of_step hstep with
  | called request => exact ⟨rfl, rfl⟩
  | @moved _ k request p q u hlabel hcall hmove =>
    by_cases hsid : request.sid = sid
    · obtain rfl : request = .stdin sid := hmoves k _ hlabel hcall hmove.live hsid
      obtain ⟨hpending, hsessions⟩ := hmove.maps_of_stdin
      exact ⟨congrFun hpending sid, congrFun hsessions sid⟩
    · exact hmove.maps_of_ne (Ne.symm hsid)
  | child hchild hchildStep =>
    rw [stepChild_pending hchildStep, (stepChild_same hchildStep).2.1]
    exact ⟨rfl, rfl⟩
  | copy htask hcopy =>
    rw [stepCopy_pending hcopy, (stepCopy_same hcopy).2.1]
    exact ⟨rfl, rfl⟩
  | forwardDone htask => exact ⟨rfl, rfl⟩

/-- The port of a forwarder is the one that its call has bound. -/
theorem label_of_forwarded {label : Label I} {sid : I} {a : Answer}
    (hcall : s.calls[k]? = some ⟨.ninepForward sid, .called⟩) (hlabel : label.movesCall = some k)
    (hstep : s.step label = some t)
    (ht : t.calls[k]? = some ⟨.ninepForward sid, .done (.ok a)⟩) :
    ∃ port : UInt16, label = .ninepForward k (.ok port) ∧
      t.pending sid = some ⟨some (port, s.tasks.length)⟩ := by
  cases label <;> simp only [Label.movesCall, Option.some.injEq, reduceCtorEq] at hlabel
  all_goals subst hlabel
  case ninepForward bound =>
    simp only [Server.step, hcall, Option.some.injEq] at hstep
    have hanswer : (s.ninepForward sid bound).1 = .ok a := by
      rw [← hstep, calls_moved hcall (calls_ninepForward s sid bound), if_pos rfl] at ht
      simpa using ht
    rw [← hstep]
    unfold Server.ninepForward at hanswer ⊢
    cases hpending : s.pending sid with
    | none => simp [hpending] at hanswer
    | some session =>
      cases bound with
      | error e => simp [hpending] at hanswer
      | ok port => exact ⟨port, rfl, Function.update_self ..⟩
  case drop =>
    simp only [Server.step, hcall, Phase.returned] at hstep
    cases hstep
    rw [calls_moved hcall (Server.release_calls s _ _), if_pos rfl] at ht
    cases ht
  all_goals simp [Server.step, hcall] at hstep

/-- No call of the client has been made. -/
structure Client.Fresh (c : Client I) (s : Server I) : Prop where
  main : c.main = .ready .dial
  maps : s.pending c.sid = none ∧ s.sessions c.sid = none
  calls : ∀ (i : ℕ) (call : Call I), s.calls[i]? = some call → call.request.sid = c.sid →
    call.request = .stdin c.sid

/-- The client waits for call `k`, has come to its next one, or makes none any more. -/
def Client.Follows (c : Client I) (rpc : Rpc) (k : ℕ) (p : Phase) : Prop :=
  c.main = .calling rpc k ∨ c.main.over = true ∨
    ∃ a next, p = .done (.ok a) ∧ c.next rpc = some next ∧
      (c.main = .ready next ∨ next = .wait ∧ c.main = .started)

/-- Call `k` is the last one of the client, and those before it have succeeded. -/
structure Client.Serving (c : Client I) (opened : UInt16 → Prop) (s : Server I) (rpc : Rpc)
    (k : ℕ) (p : Phase) : Prop where
  call : s.calls[k]? = some ⟨c.request rpc, p⟩
  fits : c.Fits opened (s.pending c.sid) (s.sessions c.sid) rpc p
  others : ∀ (i : ℕ) (call : Call I), i ≠ k → s.calls[i]? = some call →
    call.request.sid = c.sid → call.request ≠ .stdin c.sid → ∃ a, call.phase = .done (.ok a)
  main : c.Follows rpc k p

def Client.Served (c : Client I) (opened : UInt16 → Prop) (s : Server I) : Prop :=
  c.Fresh s ∨ ∃ rpc k p, c.Serving opened s rpc k p

omit [DecidableEq I] in
theorem request_sid (c : Client I) (rpc : Rpc) : (c.request rpc).sid = c.sid := by
  cases rpc <;> rfl

theorem Client.Fresh.step {c : Client I} {label : Label I} (h : c.Fresh s)
    (hstep : s.step label = some t)
    (hcall : ∀ request, label = .call request → request.sid = c.sid → request = .stdin c.sid) :
    c.Fresh t where
  main := h.main
  maps := by
    obtain ⟨hpending, hsessions⟩ := maps_of_step hstep
      (fun k call _ hk _ hsid => h.calls k call hk hsid)
    rw [hpending, hsessions]
    exact h.maps
  calls i call hi hsid := by
    obtain ⟨request, q⟩ := call
    rcases request_of_step hi hstep with ⟨p, hp⟩ | hlabel
    · exact h.calls i ⟨request, p⟩ hp hsid
    · exact hcall _ hlabel hsid

theorem Client.Serving.step {c : Client I} {rpc : Rpc} {p : Phase} {label : Label I}
    (h : c.Serving opened s rpc k p) (hstep : s.step label = some t)
    (hcall : ∀ request, label = .call request → request.sid = c.sid → request = .stdin c.sid)
    (hopened : ∀ (k : ℕ) (port : UInt16), label = .ninepForward k (.ok port) →
      s.calls[k]? = some ⟨.ninepForward c.sid, .called⟩ → opened port) :
    ∃ q, c.Serving opened t rpc k q := by
  have hothers : ∀ (i : ℕ) (call : Call I), i ≠ k → t.calls[i]? = some call →
      call.request.sid = c.sid → call.request ≠ .stdin c.sid →
        ∃ a, call.phase = .done (.ok a) := by
    intro i call hik hi hsid hne
    obtain ⟨request, q⟩ := call
    rcases request_of_step hi hstep with ⟨p', hp'⟩ | hlabel
    · obtain ⟨a, rfl⟩ := h.others i ⟨request, p'⟩ hik hp' hsid hne
      obtain ⟨q', hq', hsame⟩ := call_of_step hp' hstep
      rw [hi] at hq'
      exact ⟨a, (congrArg Call.phase (Option.some.inj hq')).trans (hsame rfl)⟩
    · exact absurd (hcall _ hlabel hsid) hne
  by_cases hlabel : label.movesCall = some k
  · cases serverStep_of_step hstep with
    | @moved _ k' request p' q u hlabel' hi hmove =>
      obtain rfl := Option.some.inj (hlabel'.symm.trans hlabel)
      rw [h.call] at hi
      cases hi
      have hq : (u.setPhase k' q).calls[k']? = some ⟨c.request rpc, q⟩ := by
        rw [calls_moved h.call hmove.calls_eq, if_pos rfl]
      have hfits : c.Fits opened (u.pending c.sid) (u.sessions c.sid) rpc q := by
        refine h.fits.callStep hmove (fun e he => ?_) (fun port hrpc hdone hpending => ?_)
        · subst he
          exact fails_of_step hstep h.call hmove.live hq
        · subst hrpc hdone
          have hcalled : p = .called := by
            cases hmove
            rfl
          subst hcalled
          obtain ⟨port', rfl, hport⟩ := label_of_forwarded h.call hlabel hstep hq
          obtain rfl : port = port' := by
            have hsame := hpending.symm.trans hport
            simpa using hsame
          exact hopened k' port rfl h.call
      refine ⟨q, hq, hfits, hothers, ?_⟩
      rcases h.main with hmain | hover | ⟨a, next, hdone, -⟩
      · exact .inl hmain
      · exact .inr (.inl hover)
      · have hlive := hmove.live
        simp [hdone, Phase.returned] at hlive
    | _ => cases hlabel
  · have hkept : t.calls[k]? = some ⟨c.request rpc, p⟩ := by
      by_contra hne
      exact hlabel (moves_of_call_ne hstep h.call hne)
    have hmoves : ∀ (i : ℕ) (call : Call I), label.movesCall = some i → s.calls[i]? = some call →
        call.phase.returned = false → call.request.sid = c.sid → call.request = .stdin c.sid := by
      intro i call hi hcall' hlive hsid
      by_contra hne
      have hik : i ≠ k := by
        rintro rfl
        exact hlabel hi
      obtain ⟨a, ha⟩ := h.others i call hik hcall' hsid hne
      simp [ha, Phase.returned] at hlive
    obtain ⟨hpending, hsessions⟩ := maps_of_step hstep hmoves
    refine ⟨p, hkept, ?_, hothers, h.main⟩
    rw [hpending, hsessions]
    exact h.fits

theorem Client.Served.step {c : Client I} {label : Label I} (h : c.Served opened s)
    (hstep : s.step label = some t)
    (hcall : ∀ request, label = .call request → request.sid = c.sid → request = .stdin c.sid)
    (hopened : ∀ (k : ℕ) (port : UInt16), label = .ninepForward k (.ok port) →
      s.calls[k]? = some ⟨.ninepForward c.sid, .called⟩ → opened port) : c.Served opened t := by
  rcases h with hfresh | ⟨rpc, k, p, hserving⟩
  · exact .inl (hfresh.step hstep hcall)
  · obtain ⟨q, hq⟩ := hserving.step hstep hcall hopened
    exact .inr ⟨rpc, k, q, hq⟩

/-! A step of the client itself. -/

omit [DecidableEq I] in
/-- After a call that succeeded, the next one finds the id where it needs it. -/
theorem Client.Fits.next {c : Client I} {pending : Option PendingSession} {session : Option ℕ}
    {rpc next : Rpc} {a : Answer} (h : c.Fits opened pending session rpc (.done (.ok a)))
    (hnext : c.next rpc = some next) : c.Fits opened pending session next .called := by
  cases rpc with
  | dial =>
    obtain rfl := Option.some.inj hnext
    cases hninep : c.cmd.ninep with
    | true => exact h
    | false =>
      obtain ⟨entry, hentry⟩ := Option.ne_none_iff_exists'.mp h.1
      refine ⟨⟨entry, hentry, ?_⟩, h.2⟩
      intro htrue
      simp [hninep] at htrue
  | ninepForward =>
    cases hnext
    exact h
  | start =>
    cases hnext
    exact h
  | stdout =>
    obtain rfl := Option.some.inj hnext
    have hsession : session ≠ none := h
    cases c.cmd.tty with
    | true => exact ⟨hsession, by simp [Phase.result]⟩
    | false => exact hsession
  | stderr =>
    cases hnext
    exact ⟨h, by simp [Phase.result]⟩
  | wait => cases hnext

omit [DecidableEq I] in
theorem Client.Fits.congr {c c' : Client I} {pending : Option PendingSession}
    {session : Option ℕ} {rpc : Rpc} {p : Phase} (h : c.Fits opened pending session rpc p)
    (hcmd : c'.cmd = c.cmd) : c'.Fits opened pending session rpc p := by
  unfold Client.Fits Client.Carries Client.Prepared at h ⊢
  rw [hcmd]
  exact h

omit [DecidableEq I] in
theorem request_congr {c c' : Client I} (hsid : c'.sid = c.sid) (hcmd : c'.cmd = c.cmd)
    (rpc : Rpc) : c'.request rpc = c.request rpc := by
  cases rpc <;> simp [Client.request, hsid, hcmd]

omit [DecidableEq I] in
/-- The client goes on, and the server does not. -/
theorem Client.Serving.congr {c c' : Client I} {rpc : Rpc} {p : Phase}
    (h : c.Serving opened s rpc k p) (hsid : c'.sid = c.sid) (hcmd : c'.cmd = c.cmd)
    (hmain : c'.Follows rpc k p) : c'.Serving opened s rpc k p where
  call := by
    rw [request_congr hsid hcmd]
    exact h.call
  fits := by
    rw [hsid]
    exact h.fits.congr hcmd
  others := by
    rw [hsid]
    exact h.others
  main := hmain

omit [DecidableEq I] in
/-- A client makes its next call. -/
theorem Client.Served.invoke {c : Client I} {rpc : Rpc} (h : c.Served opened s)
    (hmain : c.main = .ready rpc) :
    Client.Served { c with main := .calling rpc s.calls.length } opened
      { s with calls := s.calls ++ [⟨c.request rpc, .called⟩] } := by
  have hready : c.Fits opened (s.pending c.sid) (s.sessions c.sid) rpc .called ∧
      ∀ (i : ℕ) (call : Call I), s.calls[i]? = some call → call.request.sid = c.sid →
        call.request ≠ .stdin c.sid → ∃ a, call.phase = .done (.ok a) := by
    rcases h with hfresh | ⟨rpc', k, p, hserving⟩
    · have hdial : rpc = .dial := by
        rw [hfresh.main] at hmain
        cases hmain
        rfl
      subst hdial
      exact ⟨hfresh.maps, fun i call hi hsid hne => absurd (hfresh.calls i call hi hsid) hne⟩
    · rcases hserving.main with hcalling | hover | ⟨a, next, rfl, hnext, hready | ⟨-, hstarted⟩⟩
      · simp [hmain] at hcalling
      · simp [hmain, MainPhase.over] at hover
      · rw [hmain] at hready
        cases hready
        refine ⟨hserving.fits.next hnext, fun i call hi hsid hne => ?_⟩
        by_cases hik : i = k
        · subst hik
          rw [hserving.call] at hi
          cases hi
          exact ⟨a, rfl⟩
        · exact hserving.others i call hik hi hsid hne
      · simp [hmain] at hstarted
  obtain ⟨hfits, hothers⟩ := hready
  refine .inr ⟨rpc, s.calls.length, .called, ?_, hfits.congr rfl, fun i call hik hi => ?_, .inl rfl⟩
  · rw [List.getElem?_append_right (Nat.le_refl _), Nat.sub_self]
    cases rpc <;> rfl
  · refine hothers i call ?_
    rcases getElem?_concat_cases hi with hi | ⟨hlast, -⟩
    · exact hi
    · exact absurd hlast hik

omit [DecidableEq I] in
/-- A client gets the answer to its call. -/
theorem follows_afterReply {c : Client I} (rpc : Rpc) (ret : Except Error Answer) :
    (c.afterReply rpc ret).Follows rpc k (.done ret) := by
  fun_cases Client.afterReply c rpc ret
  case case4 a => exact .inr (.inr ⟨a, _, rfl, rfl, .inl rfl⟩)
  case case5 a => exact .inr (.inr ⟨a, _, rfl, rfl, .inl rfl⟩)
  case case6 a => exact .inr (.inr ⟨a, _, rfl, rfl, .inl rfl⟩)
  case case7 j c' htty =>
    refine .inr (.inr ⟨_, .wait, rfl, ?_, .inr ⟨rfl, rfl⟩⟩)
    exact congrArg some (if_pos htty)
  case case8 j c' htty =>
    refine .inr (.inr ⟨_, .stderr, rfl, ?_, .inl rfl⟩)
    exact congrArg some (if_neg htty)
  case case9 j => exact .inr (.inr ⟨_, _, rfl, rfl, .inr ⟨rfl, rfl⟩⟩)
  all_goals exact .inr (.inl rfl)

theorem client_of_stepDrain {s t : System I} {out : Output} {cs : CopyStream} {task : Copy}
    {e : DrainEvent} (h : s.stepDrain out cs task e = some t) :
    ∃ cs', t.client = s.client.setStream out cs' := by
  revert h
  fun_cases System.stepDrain s out cs task e
  case case1 =>
    intro h
    obtain ⟨server, -, rfl⟩ := Option.map_eq_some_iff.mp h
    exact ⟨_, rfl⟩
  all_goals intro h
  all_goals cases h
  all_goals exact ⟨_, rfl⟩

omit [DecidableEq I] in
@[simp] theorem setStream_cmd (c : Client I) (out : Output) (cs : CopyStream) :
    (c.setStream out cs).cmd = c.cmd := by
  cases out <;> rfl

/-- What a client makes the server do. -/
inductive Client.Asks (c : Client I) : Cpu.Label I → Prop
  | call (rpc : Rpc) : Asks c (.call (c.request rpc))
  | stdin (sid : I) : Asks c (.call (.stdin sid))
  | item (k : ℕ) (e : StdinEvent) : Asks c (.stdin k e)
  | consume (j : ℕ) : Asks c (.task j .consume)

theorem asks_of_step {s t : System I} {label : System.Label I} (h : s.step label = some t)
    (hlabel : ∀ l, label ≠ .server l) :
    t.server = s.server ∨ ∃ l, s.server.step l = some t.server ∧ s.client.Asks l := by
  revert h
  fun_cases System.step s label
  all_goals intro h
  case case2 l _ => exact absurd rfl (hlabel l)
  case case3 e =>
    revert h
    fun_cases System.stepMain s e
    all_goals intro h
    all_goals cases h
    case case1.refl rpc _ call => exact .inr ⟨_, rfl, .call rpc⟩
    all_goals exact .inl rfl
  case case4 c _ _ _ _ =>
    rcases System.server_of_stepDrain h with hsame | hconsume
    · exact .inl hsame
    · exact .inr ⟨_, hconsume, .consume c.task⟩
  case case7 =>
    obtain ⟨stdin', server, rfl, hsame | ⟨l, hl, ⟨k, e, rfl⟩ | ⟨sid, rfl⟩⟩⟩ :=
      System.stepFeed_eq h
    · exact .inl hsame
    · exact .inr ⟨_, hl, .item k e⟩
    · exact .inr ⟨_, hl, .stdin sid⟩
  all_goals cases h

/-- What a client asks for is about its own id, or for the stdin. -/
theorem Client.Asks.step {c d : Client I} {label : Cpu.Label I} (h : d.Asks label)
    (hserved : c.Served opened s) (hstep : s.step label = some t) (hne : d.sid ≠ c.sid) :
    c.Served opened t := by
  refine hserved.step hstep (fun request hlabel hsid => ?_) (fun k port hlabel => ?_)
  · subst hlabel
    cases h with
    | call rpc => exact absurd ((request_sid d rpc).symm.trans hsid) hne
    | stdin sid => exact congrArg Request.stdin hsid
  · subst hlabel
    cases h

omit [DecidableEq I] in
theorem Client.Served.congr {c c' : Client I} (h : c.Served opened s) (hsid : c'.sid = c.sid)
    (hcmd : c'.cmd = c.cmd) (hmain : c'.main = c.main) : c'.Served opened s := by
  rcases h with hfresh | ⟨rpc, k, p, hserving⟩
  · refine .inl ⟨hmain.trans hfresh.main, ?_, ?_⟩
    · rw [hsid]
      exact hfresh.maps
    · rw [hsid]
      exact hfresh.calls
  · refine .inr ⟨rpc, k, p, hserving.congr hsid hcmd ?_⟩
    unfold Client.Follows Client.next
    rw [hmain, hcmd]
    exact hserving.main

omit [DecidableEq I] in
/-- A client that has made a call goes on without the server. -/
theorem Client.Served.goesOn {c c' : Client I} (h : c.Served opened s) (hsid : c'.sid = c.sid)
    (hcmd : c'.cmd = c.cmd) (hmain : c.main ≠ .ready .dial)
    (hfollows : ∀ rpc k p, s.calls[k]? = some ⟨c.request rpc, p⟩ → c.Follows rpc k p →
      c'.Follows rpc k p) : c'.Served opened s := by
  rcases h with hfresh | ⟨rpc, k, p, hserving⟩
  · exact absurd hfresh.main hmain
  · exact .inr ⟨rpc, k, p, hserving.congr hsid hcmd (hfollows rpc k p hserving.call hserving.main)⟩

omit [DecidableEq I] in
theorem sid_afterReply (c : Client I) (rpc : Rpc) (ret : Except Error Answer) :
    (c.afterReply rpc ret).sid = c.sid ∧ (c.afterReply rpc ret).cmd = c.cmd := by
  fun_cases Client.afterReply c rpc ret
  all_goals exact ⟨rfl, rfl⟩

omit [DecidableEq I] in
theorem Client.Served.stepMain {s t : System I} {e : MainEvent}
    (h : s.client.Served opened s.server) (hstep : s.stepMain e = some t) :
    t.client.Served opened t.server := by
  revert hstep
  fun_cases System.stepMain s e
  all_goals intro hstep
  all_goals cases hstep
  case case1.refl rpc hready _ => exact h.invoke hready
  case case3.refl rpc k hcalling request ret hcall =>
    obtain ⟨hsid, hcmd⟩ := sid_afterReply s.client rpc ret
    refine h.goesOn hsid hcmd (by simp [hcalling]) fun rpc' k' p hk hfollows => ?_
    rcases hfollows with hmain | hover | ⟨a, next, -, -, hmain | ⟨-, hmain⟩⟩
    · rw [hcalling] at hmain
      cases hmain
      rw [hcall] at hk
      cases hk
      exact follows_afterReply rpc ret
    · simp [hcalling, MainPhase.over] at hover
    · simp [hcalling] at hmain
    · simp [hcalling] at hmain
  case case6.refl hcalling =>
    exact h.goesOn rfl rfl (by simp [hcalling]) fun _ _ _ _ _ => .inr (.inl rfl)
  case case7.refl hcalling =>
    exact h.goesOn rfl rfl (by simp [hcalling]) fun _ _ _ _ _ => .inr (.inl rfl)
  case case9.refl hstarted =>
    refine h.goesOn rfl rfl (by simp [hstarted]) fun rpc k p _ hfollows => ?_
    rcases hfollows with hmain | hover | ⟨a, next, hp, hnext, hmain | ⟨rfl, -⟩⟩
    · simp [hstarted] at hmain
    · simp [hstarted, MainPhase.over] at hover
    · simp [hstarted] at hmain
    · exact .inr (.inr ⟨a, .wait, hp, hnext, .inl rfl⟩)
  case case11.refl hjoining _ =>
    exact h.goesOn rfl rfl (by simp [hjoining]) fun _ _ _ _ _ => .inr (.inl rfl)
  case case13.refl hjoining _ =>
    exact h.goesOn rfl rfl (by simp [hjoining]) fun _ _ _ _ _ => .inr (.inl rfl)

/-- A step of the client itself. -/
theorem Client.Served.ownStep {s t : System I} {label : System.Label I}
    (h : s.client.Served opened s.server) (hstep : s.step label = some t)
    (hlabel : ∀ l, label ≠ .server l) :
    t.client.Served opened t.server ∧ t.client.sid = s.client.sid := by
  refine ⟨?_, System.sid_of_step hstep⟩
  revert hstep
  fun_cases System.step s label
  all_goals intro hstep
  case case2 l _ => exact absurd rfl (hlabel l)
  case case3 e => exact h.stepMain hstep
  case case4 c _ _ _ _ =>
    obtain ⟨cs', hclient⟩ := client_of_stepDrain hstep
    have hserved : s.client.Served opened t.server := by
      rcases System.server_of_stepDrain hstep with hsame | hconsume
      · rw [hsame]
        exact h
      · exact h.step hconsume (by simp) (by simp)
    rw [hclient]
    exact hserved.congr (by simp) (by simp) (by simp)
  case case7 =>
    obtain ⟨stdin', server, rfl, hsame | ⟨l, hl, hask⟩⟩ := System.stepFeed_eq hstep
    · rw [hsame]
      exact h.congr rfl rfl rfl
    · have hserved : s.client.Served opened server := by
        refine h.step hl (fun request hl' hsid => ?_) (fun k port hl' => ?_)
        · subst hl'
          rcases hask with ⟨k, e, hk⟩ | ⟨sid, hk⟩
          · cases hk
          · cases hk
            exact congrArg Request.stdin hsid
        · subst hl'
          rcases hask with ⟨k, e, hk⟩ | ⟨sid, hk⟩ <;> cases hk
      exact hserved.congr rfl rfl rfl
  all_goals cases hstep

namespace Network

structure Fits (opened : I → UInt16 → Prop) (s : Network I) : Prop where
  distinct : ∀ (i j : ℕ) (c d : Client I), s.clients[i]? = some c → s.clients[j]? = some d →
    c.sid = d.sid → i = j
  owned : ∀ (k : ℕ) (request : Request I) (p : Phase), s.server.calls[k]? = some ⟨request, p⟩ →
    (∀ sid, request ≠ .stdin sid) → ∃ c ∈ s.clients, c.sid = request.sid
  served : ∀ c ∈ s.clients, c.Served (opened c.sid) s.server

/-- What the run opens is in `opened`. -/
def Opens (opened : I → UInt16 → Prop) (s : Network I) (label : Label I) : Prop :=
  ∀ (k : ℕ) (sid : I) (port : UInt16), label = .server (.ninepForward k (.ok port)) →
    s.server.calls[k]? = some ⟨.ninepForward sid, .called⟩ → opened sid port

variable {opened : I → UInt16 → Prop}

theorem Fits.serverStep {s : Network I} {label : Cpu.Label I} {server : Server I}
    (h : s.Fits opened) (hstep : s.server.step label = some server)
    (hcall : ∀ request, label ≠ .call request)
    (hopens : Opens opened s (.server label)) : Fits opened { s with server := server } where
  distinct := h.distinct
  owned k request p hk hne := by
    rcases request_of_step hk hstep with ⟨p', hp'⟩ | rfl
    · exact h.owned k request p' hp' hne
    · exact absurd rfl (hcall request)
  served c hc := by
    refine (h.served c hc).step hstep (fun request hlabel => absurd hlabel (hcall request)) ?_
    intro k port hlabel hk
    exact hopens k c.sid port (congrArg Label.server hlabel) hk

theorem Fits.clientStep {s : Network I} {i : ℕ} {c : Client I} {label : System.Label I}
    {t : System I} (h : s.Fits opened) (hc : s.clients[i]? = some c)
    (hstep : System.step ⟨s.server, c⟩ label = some t) (hlabel : ∀ l, label ≠ .server l) :
    Fits opened ⟨t.server, s.clients.set i t.client⟩ := by
  obtain ⟨hown, hsid⟩ := Client.Served.ownStep (h.served c (List.mem_of_getElem? hc)) hstep hlabel
  have hi : i < s.clients.length := (List.getElem?_eq_some_iff.mp hc).1
  have hclients : ∀ (j : ℕ) (d : Client I), (s.clients.set i t.client)[j]? = some d →
      j = i ∧ d = t.client ∨ j ≠ i ∧ s.clients[j]? = some d := by
    intro j d hd
    by_cases hij : i = j
    · subst hij
      rw [List.getElem?_set_self hi] at hd
      exact .inl ⟨rfl, (Option.some.inj hd).symm⟩
    · rw [List.getElem?_set_ne hij] at hd
      exact .inr ⟨Ne.symm hij, hd⟩
  have hsids : ∀ (j : ℕ) (d : Client I), (s.clients.set i t.client)[j]? = some d →
      ∃ d', s.clients[j]? = some d' ∧ d'.sid = d.sid := by
    intro j d hd
    rcases hclients j d hd with ⟨rfl, rfl⟩ | ⟨-, hold⟩
    · exact ⟨c, hc, hsid.symm⟩
    · exact ⟨d, hold, rfl⟩
  have howns : ∀ d ∈ s.clients, ∃ d' ∈ s.clients.set i t.client, d'.sid = d.sid := by
    intro d hd
    obtain ⟨j, hj⟩ := List.mem_iff_getElem?.mp hd
    by_cases hij : i = j
    · subst hij
      rw [hc] at hj
      cases hj
      exact ⟨t.client, List.mem_set hi t.client, hsid⟩
    · refine ⟨d, List.mem_of_getElem? (i := j) ?_, rfl⟩
      rw [List.getElem?_set_ne hij, hj]
  constructor
  · intro j j' d d' hd hd' heq
    obtain ⟨e, he, hesid⟩ := hsids j d hd
    obtain ⟨e', he', hesid'⟩ := hsids j' d' hd'
    exact h.distinct j j' e e' he he' (by rw [hesid, hesid', heq])
  · intro k request p hk hne
    have hold : (∃ p', s.server.calls[k]? = some ⟨request, p'⟩) ∨
        ∃ rpc, request = c.request rpc := by
      rcases asks_of_step hstep hlabel with hsame | ⟨l, hl, hasks⟩
      · have hserver : t.server = s.server := hsame
        rw [hserver] at hk
        exact .inl ⟨p, hk⟩
      · rcases request_of_step hk hl with hp' | rfl
        · exact .inl hp'
        · cases hasks with
          | call rpc => exact .inr ⟨rpc, rfl⟩
          | stdin sid => exact absurd rfl (hne sid)
    rcases hold with ⟨p', hp'⟩ | ⟨rpc, rfl⟩
    · obtain ⟨d, hd, hdsid⟩ := h.owned k request p' hp' hne
      obtain ⟨d', hd', hdsid'⟩ := howns d hd
      exact ⟨d', hd', hdsid'.trans hdsid⟩
    · exact ⟨t.client, List.mem_set hi t.client, hsid.trans (request_sid c rpc).symm⟩
  · intro d hd
    obtain ⟨j, hj⟩ := List.mem_iff_getElem?.mp hd
    rcases hclients j d hj with ⟨rfl, rfl⟩ | ⟨hji, hold⟩
    · rw [hsid]
      exact hown
    · have hserved := h.served d (List.mem_of_getElem? hold)
      rcases asks_of_step hstep hlabel with hsame | ⟨l, hl, hasks⟩
      · change d.Served _ t.server
        rw [hsame]
        exact hserved
      · refine hasks.step hserved hl fun heq => ?_
        exact hji (h.distinct j i d c hold hc heq.symm)

theorem fits_step (s : Network I) (label : Label I) (t : Network I) (h : s.Fits opened)
    (hopens : Opens opened s label) (hstep : s.step label = some t) : t.Fits opened := by
  revert hstep
  fun_cases step s label
  all_goals intro hstep
  case case3 label hcall _ =>
    obtain ⟨server, hserver, rfl⟩ := Option.map_eq_some_iff.mp hstep
    exact h.serverStep hserver hcall hopens
  case case5 i label hlabel c hc =>
    obtain ⟨u, hu, rfl⟩ := Option.map_eq_some_iff.mp hstep
    exact h.clientStep hc hu hlabel
  all_goals cases hstep

omit [DecidableEq I] in
theorem fits_new {clients : List (I × Cmd)} (hdistinct : (clients.map Prod.fst).Nodup) :
    (new clients).Fits opened := by
  constructor
  · have hsids : ∀ (i : ℕ) (c : Client I), (new clients).clients[i]? = some c →
        (clients.map Prod.fst)[i]? = some c.sid := by
      intro i c hc
      simp only [new, List.getElem?_map, Option.map_eq_some_iff] at hc ⊢
      obtain ⟨a, ha, rfl⟩ := hc
      exact ⟨a, ha, rfl⟩
    intro i j c d hc hd hsid
    have hi := hsids i c hc
    have hj := hsids j d hd
    have hlt := (List.getElem?_eq_some_iff.mp hi).1
    exact (List.getElem?_inj hlt hdistinct).mp (by rw [hi, hj, hsid])
  · simp [new, Server.new]
  · intro c hc
    obtain ⟨⟨sid, cmd⟩, -, rfl⟩ := List.mem_map.mp hc
    exact .inl ⟨rfl, ⟨rfl, rfl⟩, by simp [new, Server.new]⟩

/-- In the run, the `ninep_forward` call of a client has opened its listener on the port. -/
def Opened (clients : List (I × Cmd)) (labels : List (Label I)) (sid : I) (port : UInt16) : Prop :=
  ∃ (ms : List (Label I)) (k : ℕ) (ns : List (Label I)) (u : Network I),
    labels = ms ++ .server (.ninepForward k (.ok port)) :: ns ∧
      runs step (new clients) ms = some u ∧
      u.server.calls[k]? = some ⟨.ninepForward sid, .called⟩

end Network

/-- The command that a `start` call sends to its child. -/
def Phase.launch : Phase → Option Launch
  | .launching l | .accepting l _ | .sending l _ _ _ => some l
  | _ => none

omit [DecidableEq I] in
/-- A call of the client has succeeded or is its last one. -/
theorem Client.Served.cases {c : Client I} {request : Request I} {p : Phase}
    (h : c.Served opened s) (hk : s.calls[k]? = some ⟨request, p⟩) (hsid : request.sid = c.sid)
    (hne : ∀ sid, request ≠ .stdin sid) :
    (∃ a, p = .done (.ok a)) ∨ ∃ rpc, request = c.request rpc ∧
      c.Fits opened (s.pending c.sid) (s.sessions c.sid) rpc p := by
  rcases h with hfresh | ⟨rpc, k', p', hserving⟩
  · exact absurd (hfresh.calls k _ hk hsid) (hne c.sid)
  · by_cases hkk : k = k'
    · subst hkk
      rw [hserving.call] at hk
      cases hk
      exact .inr ⟨rpc, rfl, hserving.fits⟩
    · exact .inl (hserving.others k _ hkk hk hsid (hne c.sid))

omit [DecidableEq I] in
theorem Client.Fits.error {c : Client I} {pending : Option PendingSession} {session : Option ℕ}
    {rpc : Rpc} {e : Error} (h : c.Fits opened pending session rpc (.done (.error e))) :
    e.misuse = false := by
  cases rpc <;> exact h

omit [DecidableEq I] in
theorem Client.Fits.prepared {c : Client I} {pending : Option PendingSession}
    {session : Option ℕ} {p : Phase} {l : Launch} (h : c.Fits opened pending session .start p)
    (hl : p.launch = some l) : c.Prepared opened l := by
  cases p <;> cases hl <;> exact h

namespace Network

/-- However the calls of the clients interleave, none of them is refused, and the command of a
client that wants 9p is sent with the port of its own forwarder. -/
theorem protocols_fit {clients : List (I × Cmd)} {labels : List (Label I)} {s : Network I}
    (h : runs step (new clients) labels = some s)
    (hdistinct : (clients.map Prod.fst).Nodup) :
    (∀ (k : ℕ) (request : Request I) (e : Error),
      s.server.calls[k]? = some ⟨request, .done (.error e)⟩ → (∀ sid, request ≠ .stdin sid) →
        e ≠ .sessionNotExist ∧ e ≠ .duplicateId ∧ e ≠ .no9pPort) ∧
    ∀ (k : ℕ) (sid : I) (cmd : Cmd) (p : Phase) (l : Launch),
      s.server.calls[k]? = some ⟨.start sid cmd, p⟩ → p.launch = some l → cmd.ninep = true →
        ∃ port : UInt16, Opened clients labels sid port ∧
          l.cmd = { cmd with fstab := fillNinep cmd.tmpMnt port cmd.fstab } := by
  have hopens : Along step (Opens (Opened clients labels)) (new clients) labels := by
    refine along_of_prefix fun ms label ns u hlabels hu => ?_
    rintro k sid port rfl hk
    exact ⟨ms, k, ns, u, hlabels, hu, hk⟩
  have hfits : s.Fits (Opened clients labels) :=
    runs_invariant_along fits_step hopens h (fits_new hdistinct)
  constructor
  · intro k request e hk hne
    obtain ⟨c, hc, hsid⟩ := hfits.owned k request _ hk hne
    have hmisuse : e.misuse = false := by
      rcases (hfits.served c hc).cases hk hsid.symm hne with ⟨a, ha⟩ | ⟨rpc, -, hrpc⟩
      · cases ha
      · exact hrpc.error
    refine ⟨?_, ?_, ?_⟩ <;> rintro rfl <;> cases hmisuse
  · intro k sid cmd p l hk hl hninep
    obtain ⟨c, hc, hsid⟩ := hfits.owned k _ p hk (by simp)
    rcases (hfits.served c hc).cases hk hsid.symm (by simp) with ⟨a, rfl⟩ | ⟨rpc, hrpc, hfit⟩
    · cases hl
    · cases rpc <;> cases hrpc
      exact hfit.prepared hl hninep

/-- Two clients, one of which wants 9p, up to the launch of its command. -/
def twoClients : List (Label ℕ) :=
  [.client 0 (.main .invoke), .client 1 (.main .invoke), .server (.dial 1), .server (.dial 0),
    .client 0 (.main .reply), .client 1 (.main .reply), .client 0 (.main .invoke),
    .client 1 (.main .invoke), .server (.ninepForward 2 (.ok 5640)), .client 0 (.main .reply),
    .client 0 (.main .invoke), .server (.start 4 .takePending), .server (.start 4 .lockSessions),
    .server (.start 4 (.bound 40000))]

theorem protocols_fit_twoClients :
    ∃ s, runs step (new [(0, ninepCmd), (1, ⟨"cat", [], [], [], false, false, "/tmp", 0, 0⟩)])
        twoClients = some s ∧
      (∀ (k : ℕ) (request : Request ℕ) (e : Error),
        s.server.calls[k]? = some ⟨request, .done (.error e)⟩ → (∀ sid, request ≠ .stdin sid) →
          e ≠ .sessionNotExist ∧ e ≠ .duplicateId ∧ e ≠ .no9pPort) := by
  have hr : runs step (new [(0, ninepCmd), (1, ⟨"cat", [], [], [], false, false, "/tmp", 0, 0⟩)])
      twoClients =
    some ((runs step (new [(0, ninepCmd), (1, ⟨"cat", [], [], [], false, false, "/tmp", 0, 0⟩)])
      twoClients).get rfl) := rfl
  exact ⟨_, hr, (protocols_fit hr (by decide)).1⟩

end Network
end P9cpu.Cpu
