import P9cpu.Core.FramedRead
import P9cpu.Ninep.Writer

/-! A connection with its reader: what arrives in pieces of any size becomes frames, the frames
become requests, and each request becomes a task. -/
namespace P9cpu.Ninep
open Core

/-! The requests of a list of frames. -/

/-- The requests in a list of frames, up to the first frame that `read_msg` refuses. -/
def requestsIn : List (List UInt8) → List Msg
  | [] => []
  | bytes :: frames =>
    match readMsg bytes with
    | .ok (msg, _) => msg :: requestsIn frames
    | .error _ => []

/-- Each of these frames is a request. -/
def AllDecode (frames : List (List UInt8)) : Prop :=
  ∀ bytes ∈ frames, ∃ msg rest, readMsg bytes = .ok (msg, rest)

section
variable {frames : List (List UInt8)}

theorem requestsIn_append (h : AllDecode frames) (more : List (List UInt8)) :
    requestsIn (frames ++ more) = requestsIn frames ++ requestsIn more := by
  induction frames with
  | nil => rfl
  | cons bytes frames ih =>
    obtain ⟨msg, rest, hread⟩ := h bytes List.mem_cons_self
    have hrest := ih fun b hb => h b (List.mem_cons_of_mem bytes hb)
    simp only [List.cons_append, requestsIn, hread, hrest]

/-- Nothing counts after a frame that is refused. -/
theorem requestsIn_append_error (h : AllDecode frames) {bytes : List UInt8} {e : IoError}
    (he : readMsg bytes = .error e) (more : List (List UInt8)) :
    requestsIn (frames ++ [bytes] ++ more) = requestsIn frames := by
  rw [List.append_assoc, requestsIn_append h, List.singleton_append, requestsIn, he,
    List.append_nil]

theorem requestsIn_mono {more : List (List UInt8)} (h : frames <+: more) :
    requestsIn frames <+: requestsIn more := by
  induction frames generalizing more with
  | nil => exact List.nil_prefix
  | cons bytes frames ih =>
    obtain ⟨rest, rfl⟩ := h
    have hrest := ih (List.prefix_append frames rest)
    simp only [List.cons_append, requestsIn]
    cases readMsg bytes with
    | error e => exact List.prefix_rfl
    | ok x => exact (List.prefix_cons_inj x.1).mpr hrest

theorem allDecode_snoc (h : AllDecode frames) {bytes rest : List UInt8} {msg : Msg}
    (hread : readMsg bytes = .ok (msg, rest)) : AllDecode (frames ++ [bytes]) := by
  intro b hb
  obtain hb | hb := List.mem_append.mp hb
  · exact h b hb
  · obtain rfl := List.mem_singleton.mp hb
    exact ⟨msg, rest, hread⟩

end

/-- A request that a client can send: its frame is not too long, and its encoding can be read. -/
structure Msg.Requestable (m : Msg) : Prop where
  wellFormed : m.body.WellFormed
  notListing : m.body.msgType ≠ .rreaddir
  fits : (wire m).length + 4 ≤ maxFrameLen

theorem Msg.Requestable.readMsg {m : Msg} (h : m.Requestable) :
    Ninep.readMsg (wire m) = .ok (m, []) := by
  have hbody := Fcall.decodeFields_wireFields m.body h.wellFormed h.notListing []
  rw [List.append_nil] at hbody
  have hwire : wire m = wire m.body.msgType.toU8 ++ (wire m.tag ++ m.body.wireFields) :=
    List.append_assoc _ _ _
  rw [hwire, show Ninep.readMsg = Msg.decode from rfl]
  simp [Msg.decode, reader_map (Fcall.decodeFields _), hbody]

theorem requestsIn_wire {ms : List Msg} (h : ∀ m ∈ ms, m.Requestable) :
    requestsIn (ms.map wire) = ms := by
  induction ms with
  | nil => rfl
  | cons m ms ih =>
    have hread := (h m List.mem_cons_self).readMsg
    have hrest := ih fun n hn => h n (List.mem_cons_of_mem m hn)
    simp only [List.map_cons, requestsIn, hread, hrest]

/-! The loop of `dispatch`. -/

section
variable {Op : Type} {Res : Op → Type}

/-- A connection with its writer, and the reader of its loop. -/
structure Service (W : World Op Res) (R : AsyncRead IoError) (A : AsyncWrite IoError) where
  dispatch : Dispatch W A
  framedread : FramedRead R

inductive ServiceLabel (W : World Op Res) (R : AsyncRead IoError) (A : AsyncWrite IoError)
  /-- `framedread.next()` goes on, with this much room for a read -/
  | next (room : ℕ)
  | dispatch (l : SendLabel W A)
  | reader (e : R.Event)

variable {W : World Op Res} {R : AsyncRead IoError} {A : AsyncWrite IoError}
  {fs : Filesystem Op Res}

/-- Only the loop takes these steps. -/
def SendLabel.OfLoop : SendLabel W A → Bool
  | .conn (.recv _) | .conn .hangup => true
  | _ => false

namespace Service

def step (fs : Filesystem Op Res) (s : Service W R A) : ServiceLabel W R A → Option (Service W R A)
  | .next room =>
    if s.dispatch.conn.reading ∧ 0 < room then
      match s.framedread.turn maxFrameLen room with
      | (.item bytes, framedread) =>
        (s.dispatch.step fs (.conn (.recv bytes))).map fun dispatch => ⟨dispatch, framedread⟩
      | (.failed _, framedread) | (.ended, framedread) =>
        (s.dispatch.step fs (.conn .hangup)).map fun dispatch => ⟨dispatch, framedread⟩
      | (_, framedread) => some { s with framedread := framedread }
    else none
  | .dispatch l =>
    if l.OfLoop then none
    else (s.dispatch.step fs l).map fun dispatch => { s with dispatch := dispatch }
  | .reader e =>
    (R.tick e s.framedread.inner).map fun inner => { s with framedread.inner := inner }

/-- What a step can do. -/
inductive Steps (fs : Filesystem Op Res) (s : Service W R A) :
    ServiceLabel W R A → Service W R A → Prop
  | polled (room : ℕ) (p : Polled IoError) (framedread : FramedRead R)
      (hreading : s.dispatch.conn.reading = true) (hroom : 0 < room)
      (hturn : s.framedread.turn maxFrameLen room = (p, framedread))
      (hp : p = .again ∨ p = .pending) :
      Steps fs s (.next room) { s with framedread := framedread }
  | received (room : ℕ) (bytes : List UInt8) (framedread : FramedRead R) (dispatch : Dispatch W A)
      (hreading : s.dispatch.conn.reading = true) (hroom : 0 < room)
      (hturn : s.framedread.turn maxFrameLen room = (.item bytes, framedread))
      (h : s.dispatch.step fs (.conn (.recv bytes)) = some dispatch) :
      Steps fs s (.next room) ⟨dispatch, framedread⟩
  | ended (room : ℕ) (p : Polled IoError) (framedread : FramedRead R) (dispatch : Dispatch W A)
      (hreading : s.dispatch.conn.reading = true) (hroom : 0 < room)
      (hturn : s.framedread.turn maxFrameLen room = (p, framedread))
      (hp : p = .ended ∨ ∃ e, p = .failed e)
      (h : s.dispatch.step fs (.conn .hangup) = some dispatch) :
      Steps fs s (.next room) ⟨dispatch, framedread⟩
  | dispatched (l : SendLabel W A) (dispatch : Dispatch W A) (hl : l.OfLoop = false)
      (h : s.dispatch.step fs l = some dispatch) :
      Steps fs s (.dispatch l) { s with dispatch := dispatch }
  | ticked (e : R.Event) (inner : R.State) (h : R.tick e s.framedread.inner = some inner) :
      Steps fs s (.reader e) { s with framedread.inner := inner }

theorem steps_of_step {s t : Service W R A} {l : ServiceLabel W R A} (h : step fs s l = some t) :
    Steps fs s l t := by
  cases l with
  | next room =>
    simp only [step] at h
    split_ifs at h with hgo
    rcases hturn : s.framedread.turn maxFrameLen room with ⟨p, framedread⟩
    rw [hturn] at h
    cases p with
    | again =>
      cases h
      exact .polled room _ framedread hgo.1 hgo.2 hturn (.inl rfl)
    | pending =>
      cases h
      exact .polled room _ framedread hgo.1 hgo.2 hturn (.inr rfl)
    | item bytes =>
      obtain ⟨dispatch, hdispatch, rfl⟩ := Option.map_eq_some_iff.mp h
      exact .received room bytes framedread dispatch hgo.1 hgo.2 hturn hdispatch
    | failed e =>
      obtain ⟨dispatch, hdispatch, rfl⟩ := Option.map_eq_some_iff.mp h
      exact .ended room _ framedread dispatch hgo.1 hgo.2 hturn (.inr ⟨e, rfl⟩) hdispatch
    | ended =>
      obtain ⟨dispatch, hdispatch, rfl⟩ := Option.map_eq_some_iff.mp h
      exact .ended room _ framedread dispatch hgo.1 hgo.2 hturn (.inl rfl) hdispatch
  | dispatch l =>
    simp only [step] at h
    split_ifs at h with hl
    obtain ⟨dispatch, hdispatch, rfl⟩ := Option.map_eq_some_iff.mp h
    exact .dispatched l dispatch (by simpa using hl) hdispatch
  | reader e =>
    obtain ⟨inner, htick, rfl⟩ := Option.map_eq_some_iff.mp h
    exact .ticked e inner htick

/-- No byte was read yet. -/
def start (fids : FidTable) (nextAux : ObjId) (world : W.State) (reader : R.State)
    (writer : A.State) : Service W R A :=
  ⟨Dispatch.start fids nextAux world writer, .new reader⟩

/-- The requests of the tasks. -/
def msgs (s : Service W R A) : List Msg := s.dispatch.conn.tasks.map Task.msg

/-- The requests in the bytes that were read. -/
def received (s : Service W R A) : List Msg :=
  requestsIn (unframe maxFrameLen (R.input s.framedread.inner)).1

/-- While the loop runs, the tasks are those of the frames that were handed out; when it has ended,
those of all frames there are. -/
structure TakesIn (s : Service W R A) : Prop where
  running : s.dispatch.conn.reading = true → ∃ items, s.framedread.Framing maxFrameLen items ∧
    AllDecode items ∧ s.msgs = requestsIn items
  stopped : s.dispatch.conn.reading = false → s.msgs = s.received

variable {s t : Service W R A}

/-- No other step adds a task or ends the loop. -/
theorem intake_of_dispatch {d u : Dispatch W A} {l : SendLabel W A} (hl : l.OfLoop = false)
    (h : d.step fs l = some u) : u.conn.reading = d.conn.reading ∧
      u.conn.tasks.map Task.msg = d.conn.tasks.map Task.msg := by
  obtain heq | ⟨m, hm, hstep⟩ := Dispatch.conn_step_label d l u h
  · rw [heq]
    exact ⟨rfl, rfl⟩
  · generalize u.conn = conn at hstep
    cases connStep_of_step hstep with
    | spawned | undecodable | hungUp =>
      obtain rfl | ⟨i, hi⟩ := hm
      · cases hl
      · cases hi
    | ticked e world hw => exact ⟨rfl, rfl⟩
    | task i msg aux p q l v ht htask =>
      have hkept : v.reading = d.conn.reading ∧ v.tasks = d.conn.tasks := by
        cases htask <;> exact ⟨rfl, rfl⟩
      refine ⟨hkept.1, ?_⟩
      rw [setPhase_map_msg, hkept.2]

theorem takesIn_start {fids : FidTable} {nextAux : ObjId} {world : W.State} {reader : R.State}
    {writer : A.State} (hr : R.input reader = []) :
    (start fids nextAux world reader writer : Service W R A).TakesIn := by
  constructor
  · intro _
    have hnone : AllDecode [] := fun b hb => nomatch hb
    exact ⟨[], FramedRead.framing_new hr, hnone, rfl⟩
  · intro h
    cases h

/-- A frame that was handed out is the request of a new task, or ends the loop. -/
theorem takesIn_recv {items : List (List UInt8)} {bytes : List UInt8} {framedread : FramedRead R}
    {dispatch : Dispatch W A} (hitems : AllDecode items) (hmsgs : s.msgs = requestsIn items)
    (hframing : framedread.Framing maxFrameLen (items ++ [bytes]))
    (h : s.dispatch.step fs (.conn (.recv bytes)) = some dispatch) :
    (⟨dispatch, framedread⟩ : Service W R A).TakesIn := by
  obtain ⟨conn, hconn, rfl, -⟩ := Dispatch.conn_of_step h
  cases connStep_of_step hconn with
  | spawned _ msg rest hreading hread =>
    constructor
    · intro _
      refine ⟨items ++ [bytes], hframing, allDecode_snoc hitems hread, ?_⟩
      have hnew : (s.dispatch.conn.spawn msg).tasks.map Task.msg = s.msgs ++ [msg] := by
        simp [Conn.spawn, msgs]
      rw [requestsIn_append hitems, ← hmsgs, requestsIn, hread]
      exact hnew
    · intro hstopped
      exact absurd (hreading.symm.trans hstopped) (by simp)
  | undecodable _ e hread =>
    constructor
    · intro hrunning
      cases hrunning
    · intro _
      obtain ⟨⟨more, hmore⟩, -⟩ := hframing.unframe_input (by decide)
      change s.msgs = requestsIn _
      rw [hmsgs, ← hmore, requestsIn_append_error hitems hread]
  | task i msg aux p q l v ht htask => cases htask

theorem takesIn_hangup {items : List (List UInt8)} {framedread : FramedRead R}
    {dispatch : Dispatch W A} {e : Option (CodecError ⊕ IoError)}
    (hmsgs : s.msgs = requestsIn items) (hstopped : framedread.Stopped maxFrameLen items e)
    (h : s.dispatch.step fs (.conn .hangup) = some dispatch) :
    (⟨dispatch, framedread⟩ : Service W R A).TakesIn := by
  obtain ⟨conn, hconn, rfl, -⟩ := Dispatch.conn_of_step h
  cases connStep_of_step hconn with
  | hungUp =>
    constructor
    · intro hrunning
      cases hrunning
    · intro _
      change s.msgs = requestsIn _
      rw [hmsgs, hstopped.unframe_input (by decide)]
  | task i msg aux p q l v ht htask => cases htask

theorem takesIn_step (s : Service W R A) (l : ServiceLabel W R A) (t : Service W R A)
    (hs : s.TakesIn) (h : step fs s l = some t) : t.TakesIn := by
  cases steps_of_step h with
  | polled room p framedread hreading hroom hturn hp =>
    obtain ⟨items, hframing, hitems, hmsgs⟩ := hs.running hreading
    have hafter := FramedRead.after_turn (by decide) hframing room
    rw [hturn] at hafter
    constructor
    · intro _
      obtain rfl | rfl := hp
      · exact ⟨items, hafter, hitems, hmsgs⟩
      · exact ⟨items, hafter, hitems, hmsgs⟩
    · intro hstopped
      exact absurd (hreading.symm.trans hstopped) (by simp)
  | received room bytes framedread dispatch hreading hroom hturn hdispatch =>
    obtain ⟨items, hframing, hitems, hmsgs⟩ := hs.running hreading
    have hafter := FramedRead.after_turn (by decide) hframing room
    rw [hturn] at hafter
    exact takesIn_recv hitems hmsgs hafter hdispatch
  | ended room p framedread dispatch hreading hroom hturn hp hdispatch =>
    obtain ⟨items, hframing, hitems, hmsgs⟩ := hs.running hreading
    have hafter := FramedRead.after_turn (by decide) hframing room
    rw [hturn] at hafter
    obtain rfl | ⟨e, rfl⟩ := hp
    · exact takesIn_hangup hmsgs hafter hdispatch
    · exact takesIn_hangup hmsgs hafter hdispatch
  | dispatched l dispatch hl hdispatch =>
    obtain ⟨hreading, hkept⟩ := intake_of_dispatch hl hdispatch
    constructor
    · intro hrunning
      obtain ⟨items, hframing, hitems, hmsgs⟩ := hs.running (hreading.symm.trans hrunning)
      exact ⟨items, hframing, hitems, hkept.trans hmsgs⟩
    · intro hstopped
      exact hkept.trans (hs.stopped (hreading.symm.trans hstopped))
  | ticked e inner htick =>
    have hinput := R.input_tick e _ inner htick
    constructor
    · intro hrunning
      obtain ⟨items, hframing, hitems, hmsgs⟩ := hs.running hrunning
      refine ⟨items, ⟨?_, hframing.items, hframing.fits, hframing.settled, hframing.running⟩,
        hitems, hmsgs⟩
      exact hinput.trans hframing.input
    · intro hstopped
      change s.msgs = requestsIn _
      rw [hs.stopped hstopped, hinput]
      rfl

theorem TakesIn.msgs_received (hs : s.TakesIn) : s.msgs <+: s.received := by
  cases hreading : s.dispatch.conn.reading with
  | true =>
    obtain ⟨items, hframing, -, hmsgs⟩ := hs.running hreading
    have hitems := (hframing.unframe_input (by decide)).1
    rw [hmsgs]
    exact requestsIn_mono hitems
  | false =>
    rw [hs.stopped hreading]

/-- The loop has ended, or waits for bytes. -/
def Idle (s : Service W R A) : Prop :=
  s.dispatch.conn.reading = false ∨ s.framedread.isReadable = false

theorem TakesIn.msgs_of_idle (hs : s.TakesIn) (hidle : s.Idle) : s.msgs = s.received := by
  cases hreading : s.dispatch.conn.reading with
  | true =>
    obtain ⟨items, hframing, -, hmsgs⟩ := hs.running hreading
    obtain hstopped | hwaits := hidle
    · exact absurd (hreading.symm.trans hstopped) (by simp)
    · have hall := (hframing.unframe_input (by decide)).2 hwaits
      unfold received
      rw [hmsgs, hall]
  | false => exact hs.stopped hreading

/-- Why the loop has ended: the reader is at its end, or the bytes are no requests. -/
def Stopped (s : Service W R A) : Prop :=
  s.framedread.eof = true ∨
    (∃ c, (unframe maxFrameLen (R.input s.framedread.inner)).2 = some c) ∨
    ¬ AllDecode (unframe maxFrameLen (R.input s.framedread.inner)).1

theorem stopped_step (hR : ∀ r room e, (R.pollRead r room).1 ≠ .ready (.error e))
    (s : Service W R A) (l : ServiceLabel W R A) (t : Service W R A)
    (hs : s.TakesIn ∧ (s.dispatch.conn.reading = false → s.Stopped)) (h : step fs s l = some t) :
    t.TakesIn ∧ (t.dispatch.conn.reading = false → t.Stopped) := by
  obtain ⟨htakes, hstopped⟩ := hs
  refine ⟨takesIn_step s l t htakes h, ?_⟩
  cases steps_of_step h with
  | polled room p framedread hreading =>
    intro hnot
    exact absurd (hreading.symm.trans hnot) (by simp)
  | received room bytes framedread dispatch hreading hroom hturn hdispatch =>
    intro hnot
    obtain ⟨items, hframing, -, -⟩ := htakes.running hreading
    have hafter := FramedRead.after_turn (by decide) hframing room
    rw [hturn] at hafter
    obtain ⟨conn, hconn, rfl, -⟩ := Dispatch.conn_of_step hdispatch
    cases connStep_of_step hconn with
    | spawned _ msg rest hr hread => exact absurd (hr.symm.trans hnot) (by simp)
    | undecodable _ e hread =>
      refine .inr (.inr fun hall => ?_)
      have hmem := (hafter.unframe_input (by decide)).1.subset
        (List.mem_append_right items (List.mem_singleton.mpr rfl))
      obtain ⟨msg, rest, hmsg⟩ := hall bytes hmem
      exact absurd (hread.symm.trans hmsg) (by simp)
    | task i msg aux p q l v ht htask => cases htask
  | ended room p framedread dispatch hreading hroom hturn hp hdispatch =>
    intro _
    obtain ⟨items, hframing, -, -⟩ := htakes.running hreading
    obtain heof | hrefused | ⟨e, he⟩ :=
      FramedRead.stop_of_turn (by decide) hframing hturn hp
    · exact .inl heof
    · exact .inr (.inl hrefused)
    · exact absurd he (hR _ room e)
  | dispatched l dispatch hl hdispatch =>
    intro hnot
    exact hstopped ((intake_of_dispatch hl hdispatch).1.symm.trans hnot)
  | ticked e inner htick =>
    intro hnot
    have hinput := R.input_tick e _ inner htick
    have hold := hstopped hnot
    unfold Stopped at hold ⊢
    rw [← hinput] at hold
    exact hold

/-- A step leaves the reader alone, or reads, or is one of the reader's other end. -/
theorem reader_of_step {l : ServiceLabel W R A} (h : step fs s l = some t) :
    (t.framedread.inner = s.framedread.inner ∧ t.framedread.eof = s.framedread.eof) ∨
      (∃ room, 0 < room ∧
        t.framedread.inner = (R.pollRead s.framedread.inner room).2 ∧
        (t.framedread.eof = true → s.framedread.eof = true ∨
          (R.pollRead s.framedread.inner room).1 = .ready (.ok []))) ∨
      ∃ e, R.tick e s.framedread.inner = some t.framedread.inner ∧
        t.framedread.eof = s.framedread.eof := by
  have hread : ∀ room p framedread, 0 < room →
      s.framedread.turn maxFrameLen room = (p, framedread) →
      (framedread.inner = s.framedread.inner ∧ framedread.eof = s.framedread.eof) ∨
        ∃ room, 0 < room ∧
          framedread.inner = (R.pollRead s.framedread.inner room).2 ∧
          (framedread.eof = true → s.framedread.eof = true ∨
            (R.pollRead s.framedread.inner room).1 = .ready (.ok [])) := by
    intro room p framedread hroom hturn
    have hinner := FramedRead.inner_of_turn maxFrameLen s.framedread room
    rw [hturn] at hinner
    obtain hsame | hpoll := hinner
    · exact .inl hsame
    · exact .inr ⟨room, hroom, hpoll⟩
  cases steps_of_step h with
  | polled room p framedread hreading hroom hturn hp =>
    obtain hsame | hpoll := hread room p framedread hroom hturn
    · exact .inl hsame
    · exact .inr (.inl hpoll)
  | received room bytes framedread dispatch hreading hroom hturn hdispatch =>
    obtain hsame | hpoll := hread room _ framedread hroom hturn
    · exact .inl hsame
    · exact .inr (.inl hpoll)
  | ended room p framedread dispatch hreading hroom hturn hp hdispatch =>
    obtain hsame | hpoll := hread room p framedread hroom hturn
    · exact .inl hsame
    · exact .inr (.inl hpoll)
  | dispatched => exact .inl ⟨rfl, rfl⟩
  | ticked e inner htick => exact .inr (.inr ⟨e, htick, rfl⟩)

/-- The bytes of a client that sends these requests. -/
def requestBytes (ms : List Msg) : List UInt8 := (ms.map wire).flatMap frame

theorem unframe_requestBytes {ms : List Msg} (hms : ∀ m ∈ ms, m.Requestable) :
    unframe maxFrameLen (requestBytes ms) = (ms.map wire, none) := by
  have hfits : ∀ p ∈ ms.map wire, p.length + 4 ≤ maxFrameLen := by
    intro p hp
    obtain ⟨m, hm, rfl⟩ := List.mem_map.mp hp
    exact (hms m hm).fits
  have hframes := unframe_frames (by decide) hfits []
  have hnil : unframe maxFrameLen [] = ([], none) := by
    rw [unframe, if_pos (by simp)]
  rwa [List.append_nil, hnil, List.append_nil] at hframes

/-- The requests in the first bytes of such a client. -/
theorem received_mono {ms : List Msg} (hms : ∀ m ∈ ms, m.Requestable)
    (h : R.input s.framedread.inner <+: requestBytes ms) : s.received <+: ms := by
  have hframes := requestsIn_mono (unframe_mono maxFrameLen h).1
  rw [unframe_requestBytes hms, requestsIn_wire hms] at hframes
  exact hframes

theorem received_of_requestBytes {ms : List Msg} (hms : ∀ m ∈ ms, m.Requestable)
    (h : R.input s.framedread.inner = requestBytes ms) : s.received = ms := by
  unfold received
  rw [h, unframe_requestBytes hms, requestsIn_wire hms]

/-- The loop of such a client ends with its stream only. -/
theorem Stopped.eof {ms : List Msg} (hms : ∀ m ∈ ms, m.Requestable)
    (hinput : R.input s.framedread.inner <+: requestBytes ms) (h : s.Stopped) :
    s.framedread.eof = true := by
  have hmono := unframe_mono maxFrameLen hinput
  rw [unframe_requestBytes hms] at hmono
  obtain heof | ⟨c, hc⟩ | hnot := h
  · exact heof
  · have hsame := hmono.2 c hc
    rw [← hsame] at hc
    cases hc
  · refine absurd (fun bytes hbytes => ?_) hnot
    obtain ⟨m, hm, rfl⟩ := List.mem_map.mp (hmono.1.subset hbytes)
    exact ⟨m, [], (hms m hm).readMsg⟩

/-- What its reader does aside, a connection with its writer takes a step or none. -/
theorem dispatch_step (s : Service W R A) (l : ServiceLabel W R A) (t : Service W R A)
    (h : step fs s l = some t) :
    t.dispatch = s.dispatch ∨ ∃ m, s.dispatch.step fs m = some t.dispatch := by
  cases steps_of_step h with
  | polled | ticked => exact .inl rfl
  | received _ _ _ _ _ _ _ hdispatch => exact .inr ⟨_, hdispatch⟩
  | ended _ _ _ _ _ _ _ _ hdispatch => exact .inr ⟨_, hdispatch⟩
  | dispatched l _ _ hdispatch => exact .inr ⟨l, hdispatch⟩

/-- Without its reader, a run is a run of the connection with its writer. -/
theorem dispatch_run {ls : List (ServiceLabel W R A)} (h : runs (step fs) s ls = some t) :
    ∃ ms, runs (Dispatch.step fs) s.dispatch ms = some t.dispatch := by
  refine runs_relation
    (R := fun s t => ∃ ms, runs (Dispatch.step fs) s.dispatch ms = some t.dispatch)
    (fun s => ⟨[], rfl⟩) ?_ ?_ h
  · intro s t u hst htu
    obtain ⟨ls, hls⟩ := hst
    obtain ⟨ms, hms⟩ := htu
    exact ⟨ls ++ ms, runs_append_eq_some.mpr ⟨_, hls, hms⟩⟩
  · intro s l t hstep
    obtain heq | ⟨m, hm⟩ := dispatch_step s l t hstep
    · exact ⟨[], by rw [runs_nil, heq]⟩
    · exact ⟨[m], by rw [runs_cons, hm]; rfl⟩

section
variable {fids : FidTable} {nextAux : ObjId} {world : W.State} {reader : R.State}
  {writer : A.State} {ls : List (ServiceLabel W R A)}

theorem takesIn_run (hreader : R.input reader = [])
    (h : runs (step fs) (start fids nextAux world reader writer) ls = some t) : t.TakesIn :=
  runs_invariant takesIn_step h (takesIn_start hreader)

theorem stopped_run (hR : ∀ r room e, (R.pollRead r room).1 ≠ .ready (.error e))
    (hreader : R.input reader = [])
    (h : runs (step fs) (start fids nextAux world reader writer) ls = some t) :
    t.dispatch.conn.reading = false → t.Stopped := by
  have hstart : (start fids nextAux world reader writer : Service W R A).TakesIn :=
    takesIn_start hreader
  exact (runs_invariant (stopped_step hR) h ⟨hstart, fun hnot => nomatch hnot⟩).2

theorem framed_run (hwriter : A.output writer = [])
    (h : runs (step fs) (start fids nextAux world reader writer) ls = some t) :
    t.dispatch.Framed [] := by
  obtain ⟨ds, hds⟩ := dispatch_run h
  refine runs_invariant Dispatch.framed_step hds ⟨?_, fun _ _ => rfl, fun x hx => nomatch hx⟩
  exact congrArg (· ++ []) hwriter

theorem sentOnce_run (h : runs (step fs) (start fids nextAux world reader writer) ls = some t) :
    t.dispatch.conn.SentOnce := by
  obtain ⟨ds, hds⟩ := dispatch_run h
  obtain ⟨cs, hcs⟩ := Dispatch.conn_run hds
  refine runs_invariant sentOnce_step hcs ⟨List.nodup_nil, fun x hx => ?_⟩
  exact nomatch hx

/-- The frames of the replies that were sent. -/
theorem frames_eq (c : Conn W) : c.frames = (c.written.map fun x => wire x.2).flatMap frame := by
  unfold Conn.frames
  rw [List.flatMap_map]
  simp only [replyFrame_eq]

/-- Each reply is to one of the requests in the bytes. -/
theorem TakesIn.request_of_written (htakes : t.TakesIn) (honce : t.dispatch.conn.SentOnce) :
    ∀ x ∈ t.dispatch.conn.written, ∃ request,
      t.received[x.1]? = some request ∧ x.2.tag = request.tag := by
  intro x hx
  obtain ⟨msg, aux, hdone, htag⟩ := honce.task x hx
  have hmsg : t.msgs[x.1]? = some msg := by
    unfold msgs
    rw [List.getElem?_map, hdone]
    rfl
  obtain ⟨more, hmore⟩ := htakes.msgs_received
  refine ⟨msg, ?_, htag⟩
  rw [← hmore, List.getElem?_append_left (List.getElem?_eq_some_iff.mp hmsg).1, hmsg]

/-- However the bytes arrive and the replies leave, the tasks are the requests in the bytes, in
their order; a client that sends requests has them all served. What leaves is the frames of the
replies, each of them to one request and with its tag. -/
theorem bytes_in_bytes_out (hreader : R.input reader = []) (hwriter : A.output writer = [])
    (h : runs (step fs) (start fids nextAux world reader writer) ls = some t) :
    t.msgs <+: t.received ∧ (t.Idle → t.msgs = t.received) ∧
      (∀ ms : List Msg, (∀ m ∈ ms, m.Requestable) →
        R.input t.framedread.inner <+: requestBytes ms → t.msgs <+: ms ∧
          (R.input t.framedread.inner = requestBytes ms → t.Idle → t.msgs = ms)) ∧
      A.output t.dispatch.framedwrite.inner ++ t.dispatch.framedwrite.buffer =
        (t.dispatch.conn.written.map fun x => wire x.2).flatMap frame ∧
      (t.dispatch.conn.written.map Prod.fst).Nodup ∧
      ∀ x ∈ t.dispatch.conn.written, ∃ request,
        t.received[x.1]? = some request ∧ x.2.tag = request.tag := by
  have htakes := takesIn_run hreader h
  have honce := sentOnce_run h
  refine ⟨htakes.msgs_received, htakes.msgs_of_idle, ?_, ?_, honce.nodup,
    htakes.request_of_written honce⟩
  · intro ms hms hinput
    constructor
    · exact htakes.msgs_received.trans (received_mono hms hinput)
    · intro hall hidle
      rw [htakes.msgs_of_idle hidle, received_of_requestBytes hms hall]
  · have hstream := (framed_run hwriter h).stream
    rw [List.nil_append, frames_eq] at hstream
    exact hstream

end

end Service
end

/-! A reader that hands out two bytes at a time. -/

/-- What is to come, and what was handed out. -/
def twoBytes : AsyncRead IoError where
  State := List UInt8 × List UInt8
  Event := Empty
  pollRead s room :=
    (.ready (.ok (s.1.take (min 2 room))), s.1.drop (min 2 room), s.2 ++ s.1.take (min 2 room))
  tick e _ := nomatch e
  input s := s.2
  input_pollRead _ _ := rfl
  input_tick e _ _ _ := nomatch e

/-- A `Tclunk` of a fid that is not bound, read in six pieces before the stream ends. -/
def readClunk : List (ServiceLabel noObjects twoBytes fiveBytes) :=
  List.replicate 15 (.next 64) ++ (badClunk.drop 1).map .dispatch

def readClunkRun : Option (Service noObjects twoBytes fiveBytes) :=
  runs (Service.step (R := twoBytes) (A := fiveBytes) {})
    (Service.start FidTable.new 0 () (Service.requestBytes [⟨7, .tclunk 1⟩], ([] : List UInt8))
      ([] : List UInt8)) readClunk

theorem readClunkRun_isSome : readClunkRun.isSome = true := rfl

theorem bytes_in_bytes_out_readClunk : ∃ t : Service noObjects twoBytes fiveBytes,
    readClunkRun = some t ∧ t.msgs = [⟨7, .tclunk 1⟩] ∧ t.msgs = t.received ∧
      t.dispatch.framedwrite.inner = [11, 0, 0, 0, 7, 7, 0, 9, 0, 0, 0] := by
  have hrun : readClunkRun = some (readClunkRun.get readClunkRun_isSome) :=
    (Option.some_get readClunkRun_isSome).symm
  obtain ⟨-, hidle, -⟩ := Service.bytes_in_bytes_out rfl rfl hrun
  exact ⟨readClunkRun.get readClunkRun_isSome, hrun, rfl, hidle (.inl rfl), rfl⟩

end P9cpu.Ninep
