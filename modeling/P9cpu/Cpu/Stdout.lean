import P9cpu.Cpu.Stdin
import P9cpu.Cpu.Lossless

/-! What the client has written to its local stdout when `wait` returns is what the child and
its descendants have written. -/
namespace P9cpu.Cpu
open Core

variable {I : Type}

/-- What `copy_stream` has taken and not written. -/
def CopyStream.held (c : CopyStream) : List UInt8 :=
  match c.phase with
  | .writing rest => rest
  | _ => []

/-- `start` has not asked for the stdout yet. -/
def MainPhase.early : MainPhase → Bool
  | .ready rpc => rpc ≠ .stderr && rpc ≠ .wait
  | .calling rpc _ => rpc ≠ .stdout && rpc ≠ .stderr && rpc ≠ .wait
  | _ => false

/-- `start` may still ask for the stream. -/
def MainPhase.opens : MainPhase → Output → Bool
  | .ready rpc, .stdout | .calling rpc _, .stdout => rpc ≠ .stderr && rpc ≠ .wait
  | .ready rpc, .stderr | .calling rpc _, .stderr => rpc ≠ .wait
  | _, _ => false

/-- `start` has the stream of the stdout. -/
def MainPhase.late : MainPhase → Bool
  | .ready rpc | .calling rpc _ => rpc = .stderr || rpc = .wait
  | .started | .joining _ _ | .returned _ => true
  | .failed _ => false

/-- The calls and streams of the client on the server. -/
structure Delivered (s : System I) : Prop where
  calling : ∀ (rpc : Rpc) (k : ℕ), s.client.main = .calling rpc k →
    ∃ p, s.server.calls[k]? = some ⟨s.client.request rpc, p⟩
  first : s.client.main.early = true → ∀ (k : ℕ) (p : Phase),
    s.server.calls[k]? ≠ some ⟨.output .stdout s.client.sid, p⟩
  only : ∀ (i k : ℕ) (p q : Phase), s.server.calls[i]? = some ⟨.output .stdout s.client.sid, p⟩ →
    s.server.calls[k]? = some ⟨.output .stdout s.client.sid, q⟩ → i = k
  vacant : ∀ out : Output, s.client.main.opens out = true → s.client.stream out = none
  opened : ∀ (out : Output) (c : CopyStream), s.client.stream out = some c → ∃ k : ℕ,
    s.server.calls[k]? = some ⟨.output out s.client.sid, .done (.ok (.stream c.task))⟩
  fresh : ∀ (rpc : Rpc) (k : ℕ) (request : Request I) (p : Phase) (j : ℕ) (t : Copy),
    s.client.main = .calling rpc k → s.server.calls[k]? = some ⟨request, p⟩ →
      p.streams = some j → s.server.copyAt j = some t → t.taken = []
  taken : ∀ (out : Output) (c : CopyStream) (t : Copy), s.client.stream out = some c →
    s.server.copyAt c.task = some t → t.taken.flatten = c.dst ++ c.held
  ended : ∀ (out : Output) (c : CopyStream) (t : Copy), s.client.stream out = some c →
    s.server.copyAt c.task = some t → c.finished = true → t.Over
  joined : ∀ c : CopyStream, s.client.stdout = some c → c.finished = true ∨
    (∀ n ret, s.client.main = .joining n ret → n = 0) ∧ ∀ ret, s.client.main ≠ .returned ret
  late : s.client.main.late = true → s.client.stdout ≠ none

variable {s t : System I}

theorem not_byClient {j : ℕ} (h : s.byClient (.task j .consume) = false) :
    (∀ out c, s.client.stream out = some c → c.task ≠ j) ∧
    ∀ rpc k call, s.client.main = .calling rpc k → s.server.calls[k]? = some call →
      call.phase.streams ≠ some j := by
  simp only [System.byClient, Bool.or_eq_false_iff] at h
  obtain ⟨⟨hout, herr⟩, hmain⟩ := h
  constructor
  · intro out c hc
    cases out with
    | stdout =>
      rw [show s.client.stdout = some c from hc] at hout
      simpa using hout
    | stderr =>
      rw [show s.client.stderr = some c from hc] at herr
      simpa using herr
  · intro rpc k call hcalling hcall
    simpa [hcalling, hcall] using hmain

/-- The copy task of a stream that the client has. -/
theorem Delivered.copyAt (h : Delivered s) (hstreams : Streams s.server) {out : Output}
    {c : CopyStream} (hc : s.client.stream out = some c) :
    ∃ t, s.server.copyAt c.task = some t ∧ t.out = out ∧
      s.server.sidOf t.child = some s.client.sid := by
  obtain ⟨k, hk⟩ := h.opened out c hc
  rcases hstreams.streamed k _ c.task hk rfl with ⟨t, ht, htk⟩ | ⟨-, -, hno⟩
  · obtain ⟨sid, p, hp, -, hsid⟩ := hstreams.spawned c.task t ht
    rw [htk, hk] at hp
    cases hp
    exact ⟨t, ht, rfl, hsid⟩
  · exact absurd rfl (hno out s.client.sid)

variable [DecidableEq I]

/-- A step of the server that takes nothing from the client's streams. -/
theorem Delivered.server {server : Server I} {label : Label I} (h : Delivered s)
    (hstreams : Streams s.server) (hstep : s.server.step label = some server)
    (hconsume : ∀ j, label = .task j .consume → s.byClient label = false)
    (hcall : label ≠ .call (.output .stdout s.client.sid)) :
    Delivered { s with server := server } where
  calling rpc k hk := by
    obtain ⟨p, hp⟩ := h.calling rpc k hk
    obtain ⟨q, hq, -⟩ := call_of_step hp hstep
    exact ⟨q, hq⟩
  first hearly k p hk := by
    rcases request_of_step hk hstep with ⟨q, hq⟩ | hlabel
    · exact h.first hearly k q hq
    · exact hcall hlabel
  only i k p q hi hk := by
    rcases request_of_step hi hstep with ⟨p', hp'⟩ | hlabel
    · rcases request_of_step hk hstep with ⟨q', hq'⟩ | hlabel
      · exact h.only i k p' q' hp' hq'
      · exact absurd hlabel hcall
    · exact absurd hlabel hcall
  vacant := h.vacant
  opened out c hc := by
    obtain ⟨k, hk⟩ := h.opened out c hc
    obtain ⟨q, hq, hdone⟩ := call_of_step hk hstep
    exact ⟨k, by rw [hq, hdone rfl]⟩
  fresh rpc k request p j a hk hp hj ha := by
    rcases copyAt_of_step ha hstep with ⟨b, hb, htaken, -⟩ | ⟨-, hnil⟩
    · rcases stream_of_step hp hj hstep with ⟨p', hp', hj'⟩ | hnone
      · rw [htaken, h.fresh rpc k request p' j b hk hp' hj' hb]
        rintro rfl
        exact (not_byClient (hconsume j rfl)).2 rpc k _ hk hp' hj'
      · simp [hb] at hnone
    · exact hnil
  taken out c a hc ha := by
    obtain ⟨b, hb, -⟩ := h.copyAt hstreams hc
    rcases copyAt_of_step ha hstep with ⟨b', hb', htaken, -⟩ | ⟨hnone, -⟩
    · rw [htaken, h.taken out c b' hc hb']
      rintro rfl
      exact (not_byClient (hconsume _ rfl)).1 out c hc rfl
    · simp [hb] at hnone
  ended out c a hc ha hfin := by
    obtain ⟨b, hb, -⟩ := h.copyAt hstreams hc
    rcases copyAt_of_step ha hstep with ⟨b', hb', -, hover⟩ | ⟨hnone, -⟩
    · have hold := h.ended out c b' hc hb' hfin
      rw [hover hold]
      exact hold
    · simp [hb] at hnone
  joined := h.joined
  late := h.late

omit [DecidableEq I] in
/-- The main task goes on, not into a call. -/
theorem Delivered.main {c : Client I} (h : Delivered s) (hsid : c.sid = s.client.sid)
    (hstream : ∀ out, c.stream out = s.client.stream out)
    (hcalling : ∀ rpc k, c.main ≠ .calling rpc k)
    (hearly : c.main.early = true → s.client.main.early = true)
    (hopens : ∀ out, c.main.opens out = true → s.client.main.opens out = true)
    (hlate : c.main.late = true → s.client.stdout ≠ none)
    (hjoined : ∀ cs : CopyStream, s.client.stdout = some cs → cs.finished = true ∨
      (∀ n ret, c.main = .joining n ret → n = 0) ∧ ∀ ret, c.main ≠ .returned ret) :
    Delivered ⟨s.server, c⟩ where
  calling rpc k hk := absurd hk (hcalling rpc k)
  first he := by
    rw [hsid]
    exact h.first (hearly he)
  only := by
    rw [hsid]
    exact h.only
  vacant out ho := (hstream out).trans (h.vacant out (hopens out ho))
  opened out cs hcs := by
    rw [hstream] at hcs
    rw [hsid]
    exact h.opened out cs hcs
  fresh rpc k _ _ _ _ hk := absurd hk (hcalling rpc k)
  taken out cs a hcs := h.taken out cs a (hstream out ▸ hcs)
  ended out cs a hcs := h.ended out cs a (hstream out ▸ hcs)
  joined cs hcs := hjoined cs ((hstream .stdout).symm.trans hcs)
  late hl hnone := hlate hl ((hstream .stdout).symm.trans hnone)

omit [DecidableEq I] in
theorem Delivered.invoke {rpc : Rpc} (h : Delivered s) (hready : s.client.main = .ready rpc) :
    Delivered ⟨{ s.server with calls := s.server.calls ++ [⟨s.client.request rpc, .called⟩] },
      { s.client with main := .calling rpc s.server.calls.length }⟩ := by
  have hold : ∀ (k : ℕ) (call : Call I),
      (s.server.calls ++ [⟨s.client.request rpc, .called⟩])[k]? = some call →
        s.server.calls[k]? = some call ∨
          k = s.server.calls.length ∧ call = ⟨s.client.request rpc, .called⟩ :=
    fun _ _ => getElem?_concat_cases
  -- a stdout call of the client is new only when there was none
  have hnew : s.client.request rpc = .output .stdout s.client.sid →
      s.client.main.early = true := by
    intro hrequest
    rw [hready]
    cases rpc <;> simp_all [Client.request, MainPhase.early]
  constructor
  case calling =>
    intro rpc' k hk
    cases hk
    exact ⟨.called, by simp [Client.request]⟩
  case first =>
    intro hearly k p hk
    have hold' : s.client.main.early = true := by
      rw [hready]
      cases rpc <;> simp_all [MainPhase.early]
    rcases hold k _ hk with hk | ⟨-, heq⟩
    · exact h.first hold' k p hk
    · cases rpc <;> simp [Client.request, MainPhase.early] at heq hearly
  case only =>
    intro i k p q hi hk
    rcases hold i _ hi with hi | ⟨rfl, hnewi⟩
    · rcases hold k _ hk with hk | ⟨rfl, hnewk⟩
      · exact h.only i k p q hi hk
      · exact absurd hi (h.first (hnew (Call.mk.inj hnewk).1.symm) i p)
    · rcases hold k _ hk with hk | ⟨rfl, -⟩
      · exact absurd hk (h.first (hnew (Call.mk.inj hnewi).1.symm) k q)
      · rfl
  case vacant =>
    intro out ho
    have hold' : s.client.stream out = none := by
      apply h.vacant
      rw [hready]
      cases out <;> exact ho
    cases out <;> exact hold'
  case opened =>
    intro out cs hcs
    obtain ⟨k, hk⟩ := h.opened out cs (by cases out <;> exact hcs)
    refine ⟨k, ?_⟩
    rw [List.getElem?_append_left (List.getElem?_eq_some_iff.mp hk).1, hk]
  case fresh =>
    intro rpc' k request p j a hk hp hj
    cases hk
    rcases hold _ _ hp with hp | ⟨-, hp⟩
    · simp at hp
    · cases hp
      simp [Phase.streams] at hj
  case taken =>
    intro out cs a hcs
    exact h.taken out cs a (by cases out <;> exact hcs)
  case ended =>
    intro out cs a hcs
    exact h.ended out cs a (by cases out <;> exact hcs)
  case joined =>
    intro cs hcs
    exact .inr ⟨by simp, by simp⟩
  case late =>
    intro hl
    refine h.late ?_
    rw [hready]
    exact hl

omit [DecidableEq I] in
/-- The client asks for a stream with the call that opens it. -/
theorem opens_of_request {c : Client I} {rpc : Rpc} {k : ℕ} {out : Output}
    (h : c.request rpc = .output out c.sid) : (MainPhase.calling rpc k).opens out = true := by
  cases rpc <;> cases out <;> simp [Client.request, MainPhase.opens] at h ⊢

omit [DecidableEq I] in
/-- The client does not ask for a stream that it has. -/
theorem Delivered.streams_ne {out : Output} {c : CopyStream} {rpc : Rpc} {k j : ℕ}
    {request : Request I} {p : Phase} (h : Delivered s) (hstreams : Streams s.server)
    (hc : s.client.stream out = some c) (hk : s.client.main = .calling rpc k)
    (hp : s.server.calls[k]? = some ⟨request, p⟩) (hj : p.streams = some j) : j ≠ c.task := by
  rintro rfl
  obtain ⟨a, ha, -⟩ := h.copyAt hstreams hc
  obtain ⟨k', hk'⟩ := h.opened out c hc
  have hkk : k = k' := (hstreams.call_eq hp hj ha).symm.trans (hstreams.call_eq hk' rfl ha)
  subst hkk
  obtain ⟨q, hq⟩ := h.calling rpc k hk
  rw [hk'] at hq
  have hrequest : s.client.request rpc = .output out s.client.sid :=
    (Call.mk.inj (Option.some.inj hq)).1.symm
  have hnone := h.vacant out (hk ▸ opens_of_request hrequest)
  rw [hc] at hnone
  cases hnone

omit [DecidableEq I] in
/-- A call returned a stream. -/
theorem Delivered.streamOpened {rpc : Rpc} {k j : ℕ} {out : Output} {c : Client I}
    (h : Delivered s) (hcalling : s.client.main = .calling rpc k)
    (hrequest : s.client.request rpc = .output out s.client.sid) {request : Request I}
    (hcall : s.server.calls[k]? = some ⟨request, .done (.ok (.stream j))⟩)
    (hsid : c.sid = s.client.sid)
    (hstream : ∀ out', c.stream out' = if out' = out then some ⟨j, .next, []⟩
      else s.client.stream out')
    (hmain : c.main = .started ∨ out = .stdout ∧ c.main = .ready .stderr)
    (hlate : out = .stdout ∨ s.client.stdout ≠ none) : Delivered ⟨s.server, c⟩ := by
  have hkk : s.server.calls[k]? = some ⟨.output out s.client.sid, .done (.ok (.stream j))⟩ := by
    obtain ⟨p, hp⟩ := h.calling rpc k hcalling
    rw [hcall] at hp
    rw [hcall, ← hrequest, (Call.mk.inj (Option.some.inj hp)).1]
  have hnot : ∀ rpc' k', c.main ≠ .calling rpc' k' := by
    intro rpc' k' hk'
    rcases hmain with hm | ⟨-, hm⟩ <;> rw [hm] at hk' <;> cases hk'
  constructor
  case calling =>
    intro rpc' k' hk'
    exact absurd hk' (hnot rpc' k')
  case first =>
    intro hearly
    rcases hmain with hm | ⟨-, hm⟩ <;> simp [hm, MainPhase.early] at hearly
  case only =>
    rw [hsid]
    exact h.only
  case vacant =>
    intro out' ho
    rcases hmain with hm | ⟨rfl, hm⟩
    · simp [hm, MainPhase.opens] at ho
    · have hstdout : out' = .stderr := by
        cases out' <;> simp [hm, MainPhase.opens] at ho ⊢
      rw [hstream, hstdout, if_neg (by simp)]
      -- the call for the stdout comes before the one for the stderr
      refine h.vacant .stderr ?_
      rw [hcalling]
      cases rpc <;> simp [Client.request, MainPhase.opens] at hrequest ⊢
  case opened =>
    intro out' cs hcs
    rw [hstream] at hcs
    rw [hsid]
    split_ifs at hcs with ho
    · cases hcs
      exact ⟨k, ho ▸ hkk⟩
    · exact h.opened out' cs hcs
  case fresh =>
    intro rpc' k' _ _ _ _ hk'
    exact absurd hk' (hnot rpc' k')
  case taken =>
    intro out' cs a hcs ha
    rw [hstream] at hcs
    split_ifs at hcs with ho
    · cases hcs
      rw [h.fresh rpc k _ _ j a hcalling hcall rfl ha]
      rfl
    · exact h.taken out' cs a hcs ha
  case ended =>
    intro out' cs a hcs ha hfin
    rw [hstream] at hcs
    split_ifs at hcs with ho
    · cases hcs
      simp [CopyStream.finished] at hfin
    · exact h.ended out' cs a hcs ha hfin
  case joined =>
    intro cs hcs
    right
    rcases hmain with hm | ⟨-, hm⟩ <;> rw [hm] <;> simp
  case late =>
    intro _ hnone
    have hnone' : c.stream .stdout = none := hnone
    rw [hstream] at hnone'
    split_ifs at hnone' with ho
    rcases hlate with rfl | hsome
    · exact ho rfl
    · exact hsome hnone'

omit [DecidableEq I] in
/-- What `start` and `wait` do with an answer. -/
theorem Delivered.reply {rpc : Rpc} {k : ℕ} {request : Request I} {ret : Except Error Answer}
    (h : Delivered s) (hcalling : s.client.main = .calling rpc k)
    (hcall : s.server.calls[k]? = some ⟨request, .done ret⟩) :
    Delivered ⟨s.server, s.client.afterReply rpc ret⟩ := by
  have hlate : rpc = .stderr ∨ rpc = .wait → s.client.stdout ≠ none := by
    rintro (rfl | rfl) <;> exact h.late (by rw [hcalling]; rfl)
  have hfailed : ∀ e, Delivered ⟨s.server, { s.client with main := .failed e }⟩ := by
    intro e
    exact h.main rfl (fun out => by cases out <;> rfl) (by simp) (by simp [MainPhase.early])
      (by simp [MainPhase.opens]) (by simp [MainPhase.late]) (by simp)
  have hready : ∀ next, next ≠ .stderr → next ≠ .wait →
      s.client.main.early = true → Delivered ⟨s.server, { s.client with main := .ready next }⟩ := by
    intro next hstderr hwait hearly
    refine h.main rfl (fun out => by cases out <;> rfl) (by simp) (fun _ => hearly)
      (fun out _ => ?_) (by simp [MainPhase.late, hstderr, hwait]) (by simp)
    rw [hcalling] at hearly ⊢
    cases rpc <;> cases out <;> simp [MainPhase.early, MainPhase.opens] at hearly ⊢
  have hstop : ∀ ret, rpc = .wait → Delivered ⟨s.server, s.client.stop ret⟩ := by
    intro ret hwait
    exact h.main rfl (fun out => by cases out <;> rfl) (by simp [Client.stop])
      (by simp [Client.stop, MainPhase.early]) (by simp [Client.stop, MainPhase.opens])
      (fun _ => hlate (.inr hwait))
      (fun cs _ => .inr ⟨by simp [Client.stop], by simp [Client.stop]⟩)
  revert hcall hcalling hlate hready hstop
  fun_cases Client.afterReply s.client rpc ret
  all_goals intro hcalling hcall hlate hready hstop
  case case1 code => exact hstop _ rfl
  case case2 e => exact hstop _ rfl
  case case3 e _ => exact hfailed _
  case case4 =>
    refine hready _ ?_ ?_ (by rw [hcalling]; rfl)
    all_goals split_ifs <;> simp
  case case5 => exact hready _ (by simp) (by simp) (by rw [hcalling]; rfl)
  case case6 => exact hready _ (by simp) (by simp) (by rw [hcalling]; rfl)
  case case7 =>
    exact h.streamOpened hcalling rfl hcall rfl (fun out => by cases out <;> rfl) (.inl rfl)
      (.inl rfl)
  case case8 =>
    exact h.streamOpened hcalling rfl hcall rfl (fun out => by cases out <;> rfl) (.inr ⟨rfl, rfl⟩)
      (.inl rfl)
  case case9 =>
    exact h.streamOpened hcalling rfl hcall rfl (fun out => by cases out <;> rfl) (.inl rfl)
      (.inr (hlate (.inl rfl)))
  all_goals exact hfailed _

omit [DecidableEq I] in
/-- A turn of `copy_stream`, which changes at most its own task on the server. -/
theorem Delivered.drained {out : Output} {c c' : CopyStream} {server : Server I}
    (h : Delivered s) (hstreams : Streams s.server) (hc : s.client.stream out = some c)
    (hlive : c.finished = false) (htask : c'.task = c.task)
    (hcalls : server.calls = s.server.calls)
    (hsame : ∀ j, j ≠ c.task → server.copyAt j = s.server.copyAt j)
    (htaken : ∀ a, server.copyAt c.task = some a → a.taken.flatten = c'.dst ++ c'.held)
    (hover : c'.finished = true → ∀ a, server.copyAt c.task = some a → a.Over) :
    Delivered ⟨server, s.client.setStream out c'⟩ := by
  obtain ⟨a, ha, hout, -⟩ := h.copyAt hstreams hc
  -- the task of the other stream is for the other output
  have hcases : ∀ out' cs, (s.client.setStream out c').stream out' = some cs →
      out' = out ∧ cs = c' ∨ s.client.stream out' = some cs ∧ cs.task ≠ c.task := by
    intro out' cs hcs
    rw [stream_setStream] at hcs
    split_ifs at hcs with ho
    · exact .inl ⟨ho, (Option.some.inj hcs).symm⟩
    · right
      refine ⟨hcs, fun heq => ?_⟩
      obtain ⟨b, hb, hb', -⟩ := h.copyAt hstreams hcs
      rw [heq, ha] at hb
      cases hb
      exact ho (hb'.symm.trans hout)
  constructor
  case calling =>
    intro rpc k hk
    rw [setStream_main] at hk
    rw [setStream_request, hcalls]
    exact h.calling rpc k hk
  case first =>
    rw [setStream_main, setStream_sid, hcalls]
    exact h.first
  case only =>
    rw [setStream_sid, hcalls]
    exact h.only
  case vacant =>
    intro out' ho
    rw [setStream_main] at ho
    have hnone := h.vacant out' ho
    rw [stream_setStream, if_neg, hnone]
    rintro rfl
    rw [hc] at hnone
    cases hnone
  case opened =>
    intro out' cs hcs
    rw [setStream_sid, hcalls]
    rcases hcases out' cs hcs with ⟨rfl, rfl⟩ | ⟨hcs, -⟩
    · rw [htask]
      exact h.opened out' c hc
    · exact h.opened out' cs hcs
  case fresh =>
    intro rpc k request p j b hk hp hj hb
    rw [setStream_main] at hk
    rw [hcalls] at hp
    rw [hsame j (h.streams_ne hstreams hc hk hp hj)] at hb
    exact h.fresh rpc k request p j b hk hp hj hb
  case taken =>
    intro out' cs b hcs hb
    rcases hcases out' cs hcs with ⟨rfl, rfl⟩ | ⟨hcs, hne⟩
    · rw [htask] at hb
      exact htaken b hb
    · rw [hsame _ hne] at hb
      exact h.taken out' cs b hcs hb
  case ended =>
    intro out' cs b hcs hb hfin
    rcases hcases out' cs hcs with ⟨rfl, rfl⟩ | ⟨hcs, hne⟩
    · rw [htask] at hb
      exact hover hfin b hb
    · rw [hsame _ hne] at hb
      exact h.ended out' cs b hcs hb hfin
  case joined =>
    intro cs hcs
    rw [setStream_main]
    rcases hcases .stdout cs hcs with ⟨rfl, rfl⟩ | ⟨hcs, -⟩
    · rcases h.joined c hc with hfin | hno
      · rw [hlive] at hfin
        cases hfin
      · exact .inr hno
    · exact h.joined cs hcs
  case late =>
    rw [setStream_main]
    intro hl hnone
    have hnone' : (s.client.setStream out c').stream .stdout = none := hnone
    rw [stream_setStream] at hnone'
    split_ifs at hnone' with ho
    exact h.late hl hnone'

/-- No message is lost between the task and the client, and no one else asks for the stdout. -/
def System.Lossless (sid : I) : System.Label I → Prop
  | .server label => label.Lossless ∧ label ≠ .call (.output .stdout sid)
  | .drain _ .streamFailed | .drain _ (.writeFailed _) => False
  | _ => True

theorem Delivered.drain {out : Output} {c : CopyStream} {a : Copy} {rxOpen : Bool}
    {e : DrainEvent} {t : System I} (h : Delivered s) (hstreams : Streams s.server)
    (hc : s.client.stream out = some c) (ha : s.server.tasks[c.task]? = some (.copy a rxOpen))
    (hloss : System.Lossless s.client.sid (.drain out e)) (hstep : s.stepDrain out c a e = some t) :
    Delivered t := by
  have hcopy : s.server.copyAt c.task = some a := by simp [Server.copyAt, ha]
  have hold := h.taken out c a hc hcopy
  -- a turn that takes nothing from the server
  have hkeep : ∀ phase dst, c.finished = false → dst ++ (CopyStream.mk c.task phase dst).held =
      c.dst ++ c.held → ((CopyStream.mk c.task phase dst).finished = true → a.Over) →
      Delivered ⟨s.server, s.client.setStream out ⟨c.task, phase, dst⟩⟩ := by
    intro phase dst hlive hheld hover
    refine h.drained hstreams hc hlive rfl rfl (fun _ _ => rfl) ?_ ?_
    · intro b hb
      rw [hcopy] at hb
      cases hb
      exact hold.trans hheld.symm
    · intro hfin b hb
      rw [hcopy] at hb
      cases hb
      exact hover hfin
  revert hstep
  fun_cases System.stepDrain s out c a e
  all_goals intro hstep
  case case1 bytes wire hwire hphase =>
    obtain ⟨server, hserver, rfl⟩ := Option.map_eq_some_iff.mp hstep
    have hserver' : s.server.stepCopy c.task a rxOpen .consume = some server := by
      simpa only [Server.step, ha] using hserver
    simp only [Server.stepCopy, hwire, Option.some.injEq] at hserver'
    subst hserver'
    refine h.drained hstreams hc (by simp [CopyStream.finished, hphase]) rfl rfl ?_ ?_ ?_
    · intro j hj
      rw [copyAt_setTask hcopy, if_neg hj]
    · intro b hb
      rw [copyAt_setTask hcopy, if_pos rfl] at hb
      cases hb
      rw [CopyStream.held, hphase, List.append_nil] at hold
      simp [CopyStream.held, hold]
    · simp [CopyStream.finished]
  all_goals cases hstep
  case case3.refl hphase hover =>
    obtain ⟨hfin, hqueue, hwire⟩ := hover
    refine hkeep _ _ (by simp [CopyStream.finished, hphase]) (by simp [CopyStream.held, hphase]) ?_
    intro _
    refine ⟨?_, hqueue, hwire⟩
    cases hp : a.phase with
    | done ret => exact ⟨ret, rfl⟩
    | _ => simp [Task.finished, hp] at hfin
  case case6.refl => exact hloss.elim
  case case8.refl len rest hphase hlen =>
    refine hkeep _ _ (by simp [CopyStream.finished, hphase]) ?_ (by simp [CopyStream.finished])
    simp [CopyStream.held, hphase]
  case case11.refl => exact hloss.elim
  case case13.refl hphase =>
    refine hkeep _ _ (by simp [CopyStream.finished, hphase]) ?_ (by simp [CopyStream.finished])
    simp [CopyStream.held, hphase]

omit [DecidableEq I] in
theorem Delivered.stepMain {e : MainEvent} {t : System I} (h : Delivered s)
    (hstep : s.stepMain e = some t) : Delivered t := by
  have hstreams : ∀ main : MainPhase, ∀ out,
      ({ s.client with main := main } : Client I).stream out = s.client.stream out := by
    intro main out
    cases out <;> rfl
  revert hstep
  fun_cases System.stepMain s e
  all_goals intro hstep
  all_goals cases hstep
  case case1.refl rpc hready call => exact h.invoke hready
  case case3.refl rpc k hcalling request ret hcall => exact h.reply hcalling hcall
  case case6.refl message k hcalling =>
    refine h.main rfl (fun out => by cases out <;> rfl) (by simp [Client.stop])
      (by simp [Client.stop, MainPhase.early]) (by simp [Client.stop, MainPhase.opens])
      (fun _ => h.late (by rw [hcalling]; rfl))
      (fun cs _ => .inr ⟨by simp [Client.stop], by simp [Client.stop]⟩)
  case case7.refl message rpc k hcalling hwait =>
    exact h.main rfl (hstreams _) (by simp) (by simp [MainPhase.early]) (by simp [MainPhase.opens])
      (by simp [MainPhase.late]) (by simp)
  case case9.refl hstarted =>
    exact h.main rfl (hstreams _) (by simp) (by simp [MainPhase.early])
      (fun out => by cases out <;> simp [MainPhase.opens])
      (fun _ => h.late (by rw [hstarted]; rfl)) (by simp)
  -- the copy of the stdout is the first handle
  case case11.refl n ret hjoining hhandle =>
    refine h.main rfl (hstreams _) (by simp) (by simp [MainPhase.early]) (by simp [MainPhase.opens])
      (fun _ => h.late (by rw [hjoining]; rfl)) (fun cs hcs => .inl ?_)
    rcases h.joined cs hcs with hfin | ⟨hzero, -⟩
    · exact hfin
    · rw [hzero n ret hjoining] at hhandle
      simpa [Client.handles, hcs] using hhandle
  case case13.refl n ret hjoining hhandle =>
    refine h.main rfl (hstreams _) (by simp) (by simp [MainPhase.early]) (by simp [MainPhase.opens])
      (fun _ => h.late (by rw [hjoining]; rfl)) (fun cs hcs => .inl ?_)
    rcases h.joined cs hcs with hfin | ⟨hzero, -⟩
    · exact hfin
    · rw [hzero n ret hjoining] at hhandle
      simp [Client.handles, hcs] at hhandle

omit [DecidableEq I] in
theorem Delivered.setStdin {stdin : Option (Stdin I)} (h : Delivered s) :
    Delivered ⟨s.server, { s.client with stdin := stdin }⟩ := by
  have hstream : ∀ out, ({ s.client with stdin := stdin } : Client I).stream out =
      s.client.stream out := by
    intro out
    cases out <;> rfl
  have hrequest : ∀ rpc, ({ s.client with stdin := stdin } : Client I).request rpc =
      s.client.request rpc := by
    intro rpc
    cases rpc <;> rfl
  constructor
  case calling =>
    simpa only [hrequest] using h.calling
  case first =>
    exact h.first
  case only =>
    exact h.only
  case vacant =>
    simpa only [hstream] using h.vacant
  case opened =>
    simpa only [hstream] using h.opened
  case fresh =>
    exact h.fresh
  case taken =>
    simpa only [hstream] using h.taken
  case ended =>
    simpa only [hstream] using h.ended
  case joined =>
    exact h.joined
  case late =>
    exact h.late

theorem Delivered.step {label : System.Label I} {t : System I} (h : Delivered s)
    (hstreams : Streams s.server) (hloss : System.Lossless s.client.sid label)
    (hstep : s.step label = some t) : Delivered t := by
  revert hstep
  fun_cases System.step s label
  all_goals intro hstep
  case case2 label hclient =>
    obtain ⟨server, hserver, rfl⟩ := Option.map_eq_some_iff.mp hstep
    exact h.server hstreams hserver (fun _ _ => by simpa using hclient) hloss.2
  case case3 e => exact h.stepMain hstep
  case case4 out e c hc a rxOpen ha => exact h.drain hstreams hc ha hloss hstep
  case case7 e stdin hstdin =>
    obtain ⟨stdin', server, rfl, rfl | ⟨label, hlabel, hkind⟩⟩ := System.stepFeed_eq hstep
    · exact h.setStdin
    · refine Delivered.setStdin (s := ⟨server, s.client⟩) (h.server hstreams hlabel ?_ ?_)
      · rintro j rfl
        rcases hkind with ⟨k, e, hk⟩ | ⟨sid, hk⟩ <;> cases hk
      · rintro rfl
        rcases hkind with ⟨k, e, hk⟩ | ⟨sid, hk⟩ <;> cases hk
  all_goals cases hstep

omit [DecidableEq I] in
theorem delivered_new (sid : I) (cmd : Cmd) : Delivered (System.new sid cmd) := by
  have hstream : ∀ out, (System.new sid cmd).client.stream out = none := by
    intro out
    cases out <;> rfl
  constructor
  case calling =>
    intro rpc k hk
    cases hk
  case first =>
    simp [System.new, Server.new]
  case only =>
    simp [System.new, Server.new]
  case vacant =>
    intro out _
    exact hstream out
  case opened =>
    simp [hstream]
  case fresh =>
    intro rpc k _ _ _ _ hk
    cases hk
  case taken =>
    simp [hstream]
  case ended =>
    simp [hstream]
  case joined =>
    intro cs hcs
    cases hcs
  case late =>
    intro hl
    cases hl

/-- What a run without losses keeps. -/
structure Whole (sid : I) (s : System I) : Prop where
  owned : Owned s.server
  streams : Streams s.server
  intact : Intact s.server
  delivered : Delivered s
  sid : s.client.sid = sid

omit [DecidableEq I] in
theorem whole_new (sid : I) (cmd : Cmd) : Whole sid (System.new sid cmd) :=
  ⟨owned_new, streams_new, intact_new, delivered_new sid cmd, rfl⟩

theorem whole_step {sid : I} (s : System I) (label : System.Label I) (t : System I)
    (h : Whole sid s) (hloss : System.Lossless sid label) (hstep : s.step label = some t) :
    Whole sid t := by
  have hdelivered : Delivered t := h.delivered.step h.streams (by rw [h.sid]; exact hloss) hstep
  have hsid : t.client.sid = sid := (System.sid_of_step hstep).trans h.sid
  rcases System.server_of_step hstep with hsame | ⟨l, hl, hkind⟩
  · exact ⟨hsame ▸ h.owned, hsame ▸ h.streams, hsame ▸ h.intact, hdelivered, hsid⟩
  · have hl' : l.Lossless := by
      rcases hkind with rfl | ⟨request, rfl⟩ | ⟨j, rfl⟩ | ⟨k, e, rfl⟩
      · exact hloss.1
      all_goals exact True.intro
    obtain ⟨howned, hstreams⟩ := streams_step _ l _ ⟨h.owned, h.streams⟩ hl
    have hintact := intact_step _ l _ h.intact h.streams hl' hl
    exact ⟨howned, hstreams, hintact, hdelivered, hsid⟩

theorem runs_whole {sid : I} {cmd : Cmd} {labels : List (System.Label I)} {s : System I}
    (h : runs System.step (System.new sid cmd) labels = some s)
    (hloss : ∀ label ∈ labels, System.Lossless sid label) : Whole sid s :=
  runs_invariant_along (fun s label t => whole_step s label t) (Along.of_forall hloss _) h
    (whole_new sid cmd)

/-- When `wait` returns to a client, the child whose stdout it streams has closed it, and the
bytes on the local stdout are those that were written to it. -/
theorem stdout_complete {sid : I} {cmd : Cmd} {labels : List (System.Label I)} {s : System I}
    {ret : Except ClientError Unit} (h : runs System.step (System.new sid cmd) labels = some s)
    (hloss : ∀ label ∈ labels, System.Lossless sid label)
    (hret : s.client.main = .returned ret) :
    ∃ cs t child, s.client.stdout = some cs ∧ s.server.copyAt cs.task = some t ∧
      t.out = .stdout ∧ s.server.sidOf t.child = some sid ∧
      s.server.children[t.child]? = some child ∧ child.stdout.writers = false ∧
      cs.dst = child.stdout.written := by
  obtain ⟨-, hstreams, hintact, hdelivered, rfl⟩ := runs_whole h hloss
  cases hstdout : s.client.stdout with
  | none => exact absurd hstdout (hdelivered.late (by rw [hret]; rfl))
  | some cs =>
    have hcs : s.client.stream .stdout = some cs := hstdout
    have hfin : cs.finished = true := by
      rcases hdelivered.joined cs hstdout with hfin | ⟨-, hno⟩
      · exact hfin
      · exact absurd hret (hno ret)
    obtain ⟨t, ht, hout, hsid⟩ := hdelivered.copyAt hstreams hcs
    obtain ⟨⟨r, hphase⟩, hqueue, hwire⟩ := hdelivered.ended .stdout cs t hcs ht hfin
    obtain ⟨k, hk⟩ := hdelivered.opened .stdout cs hcs
    have htask : ∃ rxOpen, s.server.tasks[cs.task]? = some (.copy t rxOpen) := by
      unfold Server.copyAt at ht
      split at ht
      case h_1 a rxOpen ha =>
        cases ht
        exact ⟨rxOpen, ha⟩
      case h_2 => cases ht
    obtain ⟨rxOpen, htask⟩ := htask
    have hopen := hintact.received k _ cs.task t rxOpen hk rfl htask
    have hok : ∀ e, t.phase ≠ .done (.error e) := by
      intro e he
      have hclosed := hintact.failed cs.task t rxOpen e htask he
      rw [hopen] at hclosed
      cases hclosed
    have hdone : t.phase = .done (.ok ()) := by
      rw [hphase]
      cases r with
      | ok u => rfl
      | error e => exact absurd hphase (hok e)
    have hlt := lt_of_sidOf hsid
    refine ⟨cs, t, s.server.children[t.child], rfl, ht, hout, hsid, by simp [hlt], ?_⟩
    have hpipe : s.server.pipeOf t.child .stdout = some s.server.children[t.child].stdout := by
      simp [Server.pipeOf, hlt, Child.pipe]
    obtain ⟨hempty, hwriters⟩ := hstreams.atEof cs.task t _ ht hout hdone hpipe
    have halone : s.server.Alone cs.task t := by
      intro j' t' ht' hout' hchild'
      obtain ⟨sid', p, hp, -, hsid'⟩ := hstreams.spawned j' t' ht'
      rw [hchild', hsid] at hsid'
      cases hsid'
      rw [hout', hout] at hp
      have hcalls := hdelivered.only _ k _ _ hp hk
      exact hstreams.once j' cs.task t' t ht' ht
        (hcalls.trans (hstreams.call_eq hk rfl ht).symm)
    have hconserved := hstreams.conserved cs.task t _ ht hok (hout ▸ hpipe) halone
    have htaken := hdelivered.taken .stdout cs t hcs ht
    have hheld : cs.held = [] := by
      unfold CopyStream.finished at hfin
      unfold CopyStream.held
      split at hfin
      case h_1 r hp => rw [hp]
      case h_2 => cases hfin
    refine ⟨hwriters, ?_⟩
    rw [hheld, List.append_nil] at htaken
    rw [← hconserved, hempty]
    simp [Copy.carried, Copy.held, hdone, hqueue, hwire, htaken]

/-- The child prints after its stdout was asked for, is killed, and `wait` returns to the client. -/
def printedOutput : List (System.Label ℕ) :=
  emptyInput ++
    [.server (.child 0 (.printed .stdout [104, 105])), .server (.task 0 .lock),
      .server (.task 0 (.read 2)), .server (.task 0 .sent), .server (.task 0 .take),
      .drain .stdout .next, .drain .stdout (.wrote 1), .drain .stdout (.wrote 1),
      .server (.child 0 (.printed .stdout [10])), .server (.child 0 .killed),
      .server (.child 0 (.closed .stdout)), .server (.child 0 (.closed .stderr)),
      .main .wait, .main .invoke, .server (.wait 4 .getChild), .server (.wait 4 .lockChild),
      .server (.wait 4 .reaped), .server (.wait 4 .getHandles), .server (.wait 4 .lockHandles),
      .server (.task 0 (.read 1)), .server (.task 0 .sent), .server (.task 0 .eof),
      .server (.task 1 .lock), .server (.task 1 .eof), .server (.wait 4 .join),
      .server (.wait 4 .join), .server (.wait 4 .join), .server (.wait 4 .remove), .main .reply,
      .drain .stdout .flushed, .server (.task 0 .take), .drain .stdout .next,
      .drain .stdout (.wrote 1), .drain .stdout .flushed, .drain .stdout .endOfStream,
      .drain .stderr .endOfStream, .feed .join, .main .join, .main .join, .main .join, .main .join]

theorem stdout_complete_printedOutput :
    ∃ s cs, runs System.step (System.new 0 catCmd) printedOutput = some s ∧
      s.client.stdout = some cs ∧ cs.dst = [104, 105, 10] := by
  have hr : runs System.step (System.new 0 catCmd) printedOutput =
    some ((runs System.step (System.new 0 catCmd) printedOutput).get rfl) := rfl
  have hloss : ∀ label ∈ printedOutput, System.Lossless 0 label := by
    simp [printedOutput, emptyInput, System.Lossless, Label.Lossless]
  obtain ⟨cs, t, child, hcs, ht, -, -, hchild, -, hdst⟩ := stdout_complete hr hloss rfl
  refine ⟨_, cs, hr, hcs, hdst.trans ?_⟩
  cases hcs
  cases ht
  cases hchild
  rfl

end P9cpu.Cpu
