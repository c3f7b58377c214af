import P9cpu.Core.Framed
import P9cpu.Ninep.Conn

/-! A connection with its writer: tasks take the lock of the `FramedWrite` and send their replies
while the bytes leave in pieces. -/
namespace P9cpu.Ninep
open Core
open FramedWrite (BACKPRESSURE_BOUNDARY)

/-- Where a `send` is: before or after `start_send`. -/
inductive Sending
  | ready
  | flushing
deriving DecidableEq

section
variable {Op : Type} {Res : Op → Type}

/-- A connection, its `FramedWrite` and the `Mutex` around it. -/
structure Dispatch (W : World Op Res) (A : AsyncWrite IoError) where
  conn : Conn W
  framedwrite : FramedWrite A
  /-- the task that holds the lock -/
  holder : Option (ℕ × Sending)
  /-- the tasks that panicked because the writer failed -/
  aborted : List ℕ

inductive SendLabel (W : World Op Res) (A : AsyncWrite IoError)
  | conn (l : Label W)
  | lock (i : ℕ)
  /-- the holder of the lock goes on -/
  | poll
  | writer (e : A.Event)

variable {W : World Op Res} {A : AsyncWrite IoError} {fs : Filesystem Op Res}

/-- The response of a task that is to be sent. -/
def Conn.response (s : Conn W) (i : ℕ) : Option Msg :=
  match s.tasks[i]? with
  | some ⟨msg, _, .replying response⟩ =>
    if response.msgType.isR then some ⟨msg.tag, response⟩ else none
  | _ => none

namespace Dispatch

/-- What becomes of the lock after a turn of `poll_flush`. -/
def flushed (s : Dispatch W A) (i : ℕ) (next : Option (ℕ × Sending)) : Dispatch W A :=
  match s.framedwrite.turn with
  | (.failed, framedwrite) =>
    { s with framedwrite := framedwrite, holder := none, aborted := s.aborted ++ [i] }
  | (.done, framedwrite) => { s with framedwrite := framedwrite, holder := next }
  | (_, framedwrite) => { s with framedwrite := framedwrite }

/-- `write_msg` and `start_send`; the lock is given back where one of them panics. -/
def startSend (fs : Filesystem Op Res) (s : Dispatch W A) (i : ℕ) : Option (Dispatch W A) :=
  match s.conn.response i with
  | none => none
  | some response =>
    (Ninep.step fs s.conn (.send i)).map fun conn =>
      match writeMsg ([] : List UInt8) response with
      | .error _ => { s with conn := conn, holder := none }
      | .ok (_, payload) =>
        if maxFrameLen < payload.length then { s with conn := conn, holder := none }
        else { s with
          conn := conn, framedwrite := s.framedwrite.startSend payload
          holder := some (i, .flushing) }

def step (fs : Filesystem Op Res) (s : Dispatch W A) : SendLabel W A → Option (Dispatch W A)
  | .conn (.send i) =>
    -- a response that is not sent
    if (s.conn.response i).isSome then none
    else (Ninep.step fs s.conn (.send i)).map fun conn => { s with conn := conn }
  | .conn l => (Ninep.step fs s.conn l).map fun conn => { s with conn := conn }
  | .lock i =>
    if s.holder = none ∧ (s.conn.response i).isSome ∧ i ∉ s.aborted then
      some { s with holder := some (i, .ready) }
    else none
  | .poll =>
    match s.holder with
    | none => none
    | some (i, .ready) =>
      if BACKPRESSURE_BOUNDARY ≤ s.framedwrite.buffer.length then
        some (s.flushed i (some (i, .ready)))
      else s.startSend fs i
    | some (i, .flushing) => some (s.flushed i none)
  | .writer e =>
    (A.tick e s.framedwrite.inner).map fun inner => { s with framedwrite.inner := inner }

/-- Nothing was received yet. -/
def start (fids : FidTable) (nextAux : ObjId) (world : W.State) (writer : A.State) :
    Dispatch W A :=
  ⟨Conn.start fids nextAux world, ⟨writer, []⟩, none, []⟩

end Dispatch

/-- The frame of a reply. -/
def replyFrame (m : Msg) : List UInt8 :=
  match writeMsg ([] : List UInt8) m with
  | .ok (_, payload) => frame payload
  | .error _ => []

theorem replyFrame_eq (m : Msg) : replyFrame m = frame (wire m) := by
  unfold replyFrame
  rw [writeMsg_vec, List.nil_append]

/-- The frames of the replies that were sent. -/
def Conn.frames (s : Conn W) : List UInt8 := s.written.flatMap fun x => replyFrame x.2

theorem task_of_response {s : Conn W} {i : ℕ} {m : Msg} (h : s.response i = some m) :
    ∃ msg aux response, s.tasks[i]? = some ⟨msg, aux, .replying response⟩ ∧
      response.msgType.isR = true ∧ m = ⟨msg.tag, response⟩ := by
  unfold Conn.response at h
  split at h
  · rename_i msg aux response ht
    split_ifs at h with hr
    cases h
    exact ⟨msg, aux, response, ht, hr, rfl⟩
  · cases h

/-- A reply is sent, or the codec refuses it. -/
theorem send_of_response {s t : Conn W} {i : ℕ} {m : Msg} (h : s.response i = some m)
    (hstep : step fs s (.send i) = some t) :
    t.frames = s.frames ++ replyFrame m ∧ (wire m).length ≤ maxFrameLen ∧
        t.written = s.written ++ [(i, m)] ∨
      t.written = s.written ∧ maxFrameLen < (wire m).length := by
  obtain ⟨msg, aux, response, ht, hr, rfl⟩ := task_of_response h
  simp only [step, ht, hr, if_true, writeMsg_vec, List.nil_append] at hstep
  split_ifs at hstep with hlen
  · cases hstep
    exact .inr ⟨rfl, hlen⟩
  · cases hstep
    refine .inl ⟨?_, not_lt.mp hlen, rfl⟩
    unfold Conn.frames
    rw [Conn.setPhase_written, List.flatMap_append]
    simp

theorem written_of_other {s t : Conn W} {l : Label W} (hstep : step fs s l = some t)
    (hl : ∀ i, l = .send i → s.response i = none) : t.written = s.written := by
  cases connStep_of_step hstep with
  | spawned | undecodable | hungUp | ticked => rfl
  | task i msg aux p q l u ht htask =>
    cases htask with
    | sent response hr hlen =>
      have hnone := hl i rfl
      simp [Conn.response, ht, hr] at hnone
    | _ => rfl

/-- Each reply was sent by a task of its own, which has ended, and carries its tag. -/
structure Conn.SentOnce (s : Conn W) : Prop where
  nodup : (s.written.map Prod.fst).Nodup
  task : ∀ x ∈ s.written, ∃ msg aux, s.tasks[x.1]? = some ⟨msg, aux, .done⟩ ∧ x.2.tag = msg.tag

theorem sentOnce_setPhase {s u : Conn W} (hs : s.SentOnce) {i : ℕ} {msg : Msg} {aux : ObjId}
    {p q : Phase Op Res} (htasks : u.tasks = s.tasks) (ht : s.tasks[i]? = some ⟨msg, aux, p⟩)
    (hp : p ≠ .done)
    (hw : u.written = s.written ∨ q = .done ∧ ∃ response,
      u.written = s.written ++ [(i, ⟨msg.tag, response⟩)]) : (u.setPhase i q).SentOnce := by
  have hfresh : ∀ x ∈ s.written, x.1 ≠ i := by
    intro x hx hxi
    obtain ⟨m, a, hdone, -⟩ := hs.task x hx
    rw [hxi, ht] at hdone
    cases hdone
    exact hp rfl
  have hold : ∀ x ∈ s.written, ∃ m a, (u.setPhase i q).tasks[x.1]? = some ⟨m, a, .done⟩ ∧
      x.2.tag = m.tag := by
    intro x hx
    obtain ⟨m, a, hdone, htag⟩ := hs.task x hx
    exact ⟨m, a, (Conn.setPhase_task_of_ne q htasks (hfresh x hx).symm).trans hdone, htag⟩
  obtain hw | ⟨rfl, response, hw⟩ := hw
  · constructor
    · rw [Conn.setPhase_written, hw]
      exact hs.nodup
    · rw [Conn.setPhase_written, hw]
      exact hold
  · constructor
    · rw [Conn.setPhase_written, hw, List.map_append, List.nodup_append]
      refine ⟨hs.nodup, by simp, fun a ha b hb hab => ?_⟩
      obtain ⟨x, hx, rfl⟩ := List.mem_map.mp ha
      obtain rfl : b = i := by simpa using hb
      exact hfresh x hx hab
    · rw [Conn.setPhase_written, hw]
      intro x hx
      obtain hx | hx := List.mem_append.mp hx
      · exact hold x hx
      · obtain rfl := List.mem_singleton.mp hx
        exact ⟨msg, aux, Conn.setPhase_task_self htasks ht, rfl⟩

theorem sentOnce_step (s : Conn W) (l : Label W) (t : Conn W) (hs : s.SentOnce)
    (h : step fs s l = some t) : t.SentOnce := by
  cases connStep_of_step h with
  | spawned frame msg rest hr hm =>
    refine ⟨hs.nodup, fun x hx => ?_⟩
    obtain ⟨m, a, hdone, htag⟩ := hs.task x hx
    exact ⟨m, a, Conn.task_spawn msg hdone, htag⟩
  | undecodable | hungUp | ticked => exact ⟨hs.nodup, hs.task⟩
  | task i msg aux p q l u ht htask =>
    have hp : p ≠ .done := by cases htask <;> simp
    have htasks : u.tasks = s.tasks := by cases htask <;> rfl
    apply sentOnce_setPhase hs htasks ht hp
    cases htask with
    | sent response hr hlen => exact .inr ⟨rfl, response, rfl⟩
    | _ => exact .inl rfl

/-- What a task sends was its response. -/
theorem response_of_written {s t : Conn W} {ls : List (Label W)}
    (h : runs (step fs) s ls = some t) (hs : s.written = []) :
    ∀ x ∈ t.written, ∃ ms u, runs (step fs) s ms = some u ∧ u.response x.1 = some x.2 := by
  have hreached := runs_invariant
    (I := fun u => (∃ ms, runs (step fs) s ms = some u) ∧
      ∀ x ∈ u.written, ∃ ms u, runs (step fs) s ms = some u ∧ u.response x.1 = some x.2)
    ?_ h ⟨⟨[], rfl⟩, fun x hx => ?_⟩
  · exact hreached.2
  · intro u l v hu huv
    obtain ⟨⟨ms, hms⟩, hold⟩ := hu
    constructor
    · refine ⟨ms ++ [l], runs_append_eq_some.mpr ⟨u, hms, ?_⟩⟩
      rw [runs_cons, huv]
      rfl
    · intro x hx
      by_cases hsends : ∃ i m, l = .send i ∧ u.response i = some m
      · obtain ⟨i, m, rfl, hm⟩ := hsends
        obtain ⟨-, -, hwritten⟩ | ⟨hwritten, -⟩ := send_of_response hm huv
        · rw [hwritten] at hx
          obtain hx | hx := List.mem_append.mp hx
          · exact hold x hx
          · obtain rfl := List.mem_singleton.mp hx
            exact ⟨ms, u, hms, hm⟩
        · rw [hwritten] at hx
          exact hold x hx
      · have hnone : ∀ i, l = .send i → u.response i = none := by
          intro i hl
          apply Option.eq_none_iff_forall_ne_some.mpr
          intro m hm
          exact hsends ⟨i, m, hl, hm⟩
        rw [written_of_other huv hnone] at hx
        exact hold x hx
  · rw [hs] at hx
    exact nomatch hx

namespace Dispatch

/-- The bytes that have left and those that wait are the frames of the replies, after what the
writer had before; while no `send` is on its way nothing waits. -/
structure Framed (before : List UInt8) (s : Dispatch W A) : Prop where
  stream : s.framedwrite.stream = before ++ s.conn.frames
  empty : s.aborted = [] → (∀ i, s.holder ≠ some (i, .flushing)) → s.framedwrite.buffer = []
  fits : ∀ x ∈ s.conn.written, (wire x.2).length ≤ maxFrameLen

variable {before : List UInt8} {s t : Dispatch W A}

theorem framed_flushed (hs : s.Framed before) (i : ℕ) (next : Option (ℕ × Sending)) :
    (s.flushed i next).Framed before := by
  have hkept := s.framedwrite.stream_turn.trans hs.stream
  have hwaits : s.aborted = [] → (∀ j, s.holder ≠ some (j, .flushing)) →
      s.framedwrite.turn.2.buffer = [] :=
    fun ha hh => FramedWrite.turn_of_empty (hs.empty ha hh)
  have hdone : s.framedwrite.turn.1 = .done → s.framedwrite.turn.2.buffer = [] :=
    FramedWrite.empty_of_done
  unfold flushed
  rcases hturn : s.framedwrite.turn with ⟨turn, framedwrite⟩
  rw [hturn] at hkept hwaits hdone
  cases turn with
  | again => exact ⟨hkept, hwaits, hs.fits⟩
  | pending => exact ⟨hkept, hwaits, hs.fits⟩
  | done => exact ⟨hkept, fun _ _ => hdone rfl, hs.fits⟩
  | failed => exact ⟨hkept, fun ha => absurd ha (by simp), hs.fits⟩

theorem framed_startSend (hs : s.Framed before) {i : ℕ} (hholder : s.holder = some (i, .ready))
    (h : s.startSend fs i = some t) : t.Framed before := by
  unfold startSend at h
  cases hm : s.conn.response i with
  | none =>
    rw [hm] at h
    cases h
  | some m =>
    rw [hm] at h
    obtain ⟨conn, hconn, rfl⟩ := Option.map_eq_some_iff.mp h
    have hempty : s.aborted = [] → s.framedwrite.buffer = [] :=
      fun ha => hs.empty ha fun j => by simp [hholder]
    simp only [writeMsg_vec, List.nil_append]
    obtain ⟨hframes, hlen, hwritten⟩ | ⟨hwritten, hlen⟩ := send_of_response hm hconn
    · rw [if_neg (not_lt.mpr hlen)]
      refine ⟨?_, fun _ hh => absurd rfl (hh i), fun x hx => ?_⟩
      · dsimp only
        rw [FramedWrite.stream_startSend, hs.stream, hframes, replyFrame_eq, List.append_assoc]
      · dsimp only at hx
        rw [hwritten] at hx
        obtain hx | hx := List.mem_append.mp hx
        · exact hs.fits x hx
        · obtain rfl := List.mem_singleton.mp hx
          exact hlen
    · rw [if_pos hlen]
      have hframes : conn.frames = s.conn.frames := by
        unfold Conn.frames
        rw [hwritten]
      refine ⟨?_, fun ha _ => hempty ha, fun x hx => hs.fits x ?_⟩
      · dsimp only
        rw [hs.stream, hframes]
      · dsimp only at hx
        rw [hwritten] at hx
        exact hx

theorem framed_conn (hs : s.Framed before) {conn : Conn W}
    (hwritten : conn.written = s.conn.written) :
    ({ s with conn := conn } : Dispatch W A).Framed before := by
  constructor
  · have hframes : conn.frames = s.conn.frames := by
      unfold Conn.frames
      rw [hwritten]
    dsimp only
    rw [hs.stream, hframes]
  · exact hs.empty
  · intro x hx
    apply hs.fits x
    dsimp only at hx
    rw [hwritten] at hx
    exact hx

/-- A step of the connection without the writer: no reply is sent by it. -/
theorem conn_of_step {l : Label W} (h : step fs s (.conn l) = some t) :
    ∃ conn, Ninep.step fs s.conn l = some conn ∧ t = { s with conn := conn } ∧
      ∀ i, l = .send i → s.conn.response i = none := by
  cases l with
  | send i =>
    simp only [step] at h
    split_ifs at h with hsends
    obtain ⟨conn, hconn, rfl⟩ := Option.map_eq_some_iff.mp h
    refine ⟨conn, hconn, rfl, fun j hj => ?_⟩
    cases hj
    simpa using hsends
  | _ =>
    obtain ⟨conn, hconn, rfl⟩ := Option.map_eq_some_iff.mp h
    exact ⟨conn, hconn, rfl, fun j hj => nomatch hj⟩

theorem framed_step (s : Dispatch W A) (l : SendLabel W A) (t : Dispatch W A)
    (hs : s.Framed before) (h : step fs s l = some t) : t.Framed before := by
  cases l with
  | conn l =>
    obtain ⟨conn, hconn, rfl, hl⟩ := conn_of_step h
    exact framed_conn hs (written_of_other hconn hl)
  | lock i =>
    simp only [step] at h
    split_ifs at h with hfree
    cases h
    exact ⟨hs.stream, fun ha _ => hs.empty ha (by simp [hfree.1]), hs.fits⟩
  | poll =>
    simp only [step] at h
    split at h
    · cases h
    · rename_i i hholder
      split_ifs at h
      · cases h
        exact framed_flushed hs i _
      · exact framed_startSend hs hholder h
    · rename_i i hholder
      cases h
      exact framed_flushed hs i _
  | writer e =>
    obtain ⟨inner, htick, rfl⟩ := Option.map_eq_some_iff.mp h
    refine ⟨?_, hs.empty, hs.fits⟩
    have hstream := hs.stream
    unfold FramedWrite.stream at hstream ⊢
    dsimp only
    rw [A.output_tick e _ inner htick, hstream]

theorem flushed_conn (s : Dispatch W A) (i : ℕ) (next : Option (ℕ × Sending)) :
    (s.flushed i next).conn = s.conn := by
  unfold flushed
  rcases s.framedwrite.turn with ⟨_ | _ | _ | _, framedwrite⟩ <;> rfl

theorem flushed_framedwrite (s : Dispatch W A) (i : ℕ) (next : Option (ℕ × Sending)) :
    (s.flushed i next).framedwrite = s.framedwrite.turn.2 := by
  unfold flushed
  rcases s.framedwrite.turn with ⟨_ | _ | _ | _, framedwrite⟩ <;> rfl

/-- A step leaves the writer alone, or calls it, or is one of its other end. -/
theorem writer_of_step {l : SendLabel W A} (h : step fs s l = some t) :
    t.framedwrite.inner = s.framedwrite.inner ∨
      t.framedwrite.inner = (A.pollFlush s.framedwrite.inner).2 ∨
      t.framedwrite.inner = (A.pollWrite s.framedwrite.inner s.framedwrite.buffer).2 ∨
      ∃ e, A.tick e s.framedwrite.inner = some t.framedwrite.inner := by
  cases l with
  | conn l =>
    obtain ⟨conn, hconn, rfl, -⟩ := conn_of_step h
    exact .inl rfl
  | lock i =>
    simp only [step] at h
    split_ifs at h
    cases h
    exact .inl rfl
  | poll =>
    have hturn := s.framedwrite.inner_of_turn
    simp only [step] at h
    split at h
    · cases h
    · rename_i i hholder
      split_ifs at h
      · cases h
        rw [flushed_framedwrite]
        exact .inr (hturn.imp_right .inl)
      · left
        unfold startSend at h
        split at h
        · cases h
        · obtain ⟨conn, hconn, rfl⟩ := Option.map_eq_some_iff.mp h
          split
          · rfl
          · split_ifs <;> rfl
    · rename_i i hholder
      cases h
      rw [flushed_framedwrite]
      exact .inr (hturn.imp_right .inl)
  | writer e =>
    obtain ⟨inner, htick, rfl⟩ := Option.map_eq_some_iff.mp h
    exact .inr (.inr (.inr ⟨e, htick⟩))

/-- The connection takes the step of the label, or sends, or does not move. -/
theorem conn_step_label (s : Dispatch W A) (l : SendLabel W A) (t : Dispatch W A)
    (h : step fs s l = some t) :
    t.conn = s.conn ∨ ∃ m, (l = .conn m ∨ ∃ i, m = .send i) ∧
      Ninep.step fs s.conn m = some t.conn := by
  cases l with
  | conn l =>
    obtain ⟨conn, hconn, rfl, -⟩ := conn_of_step h
    exact .inr ⟨l, .inl rfl, hconn⟩
  | lock i =>
    simp only [step] at h
    split_ifs at h
    cases h
    exact .inl rfl
  | poll =>
    simp only [step] at h
    split at h
    · cases h
    · rename_i i hholder
      split_ifs at h
      · cases h
        exact .inl (flushed_conn s i _)
      · right
        refine ⟨.send i, .inr ⟨i, rfl⟩, ?_⟩
        unfold startSend at h
        split at h
        · cases h
        · obtain ⟨conn, hconn, rfl⟩ := Option.map_eq_some_iff.mp h
          rw [hconn]
          split
          · rfl
          · split_ifs <;> rfl
    · rename_i i hholder
      cases h
      exact .inl (flushed_conn s i _)
  | writer e =>
    obtain ⟨inner, htick, rfl⟩ := Option.map_eq_some_iff.mp h
    exact .inl rfl

/-- What the writer does aside, a connection takes a step or none. -/
theorem conn_step (s : Dispatch W A) (l : SendLabel W A) (t : Dispatch W A)
    (h : step fs s l = some t) :
    t.conn = s.conn ∨ ∃ m, Ninep.step fs s.conn m = some t.conn := by
  obtain heq | ⟨m, -, hm⟩ := conn_step_label s l t h
  · exact .inl heq
  · exact .inr ⟨m, hm⟩

/-- Without its writer, a run is a run of the connection. -/
theorem conn_run {ls : List (SendLabel W A)} (h : runs (step fs) s ls = some t) :
    ∃ ms, runs (Ninep.step fs) s.conn ms = some t.conn := by
  refine runs_relation (R := fun s t => ∃ ms, runs (Ninep.step fs) s.conn ms = some t.conn)
    (fun s => ⟨[], rfl⟩) ?_ ?_ h
  · intro s t u hst htu
    obtain ⟨ls, hls⟩ := hst
    obtain ⟨ms, hms⟩ := htu
    exact ⟨ls ++ ms, runs_append_eq_some.mpr ⟨_, hls, hms⟩⟩
  · intro s l t hstep
    obtain heq | ⟨m, hm⟩ := conn_step s l t hstep
    · exact ⟨[], by rw [runs_nil, heq]⟩
    · exact ⟨[m], by rw [runs_cons, hm]; rfl⟩

/-- The writer gets whole frames, one after the other, each with the reply of one task: what it
has accepted and what the buffer holds are the frames of the replies that were sent, and when no
`send` is on its way and none has failed it has accepted them all. -/
theorem replies_in_frames {fids : FidTable} {nextAux : ObjId} {world : W.State} {writer : A.State}
    {ls : List (SendLabel W A)}
    (h : runs (step fs) (start fids nextAux world writer) ls = some t) :
    A.output t.framedwrite.inner ++ t.framedwrite.buffer = A.output writer ++ t.conn.frames ∧
      (t.holder = none → t.aborted = [] →
        A.output t.framedwrite.inner = A.output writer ++ t.conn.frames) ∧
      (∀ x ∈ t.conn.written,
        replyFrame x.2 = leBytes 4 ((wire x.2).length + 4) ++ wire x.2 ∧
        leVal ((replyFrame x.2).take 4) = (wire x.2).length + 4 ∧
        (∃ msg aux, t.conn.tasks[x.1]? = some ⟨msg, aux, .done⟩ ∧ x.2.tag = msg.tag) ∧
        ∃ ms u, runs (Ninep.step fs) (Conn.start fids nextAux world) ms = some u ∧
          u.response x.1 = some x.2) ∧
      (t.conn.written.map Prod.fst).Nodup := by
  have hstart : (start fids nextAux world writer : Dispatch W A).Framed (A.output writer) :=
    ⟨rfl, fun _ _ => rfl, fun x hx => nomatch hx⟩
  have hframed := runs_invariant framed_step h hstart
  obtain ⟨ms, hms⟩ := conn_run h
  have honce : t.conn.SentOnce := by
    refine runs_invariant sentOnce_step hms ⟨List.nodup_nil, fun x hx => ?_⟩
    exact nomatch hx
  refine ⟨hframed.stream, ?_, ?_, honce.nodup⟩
  · intro hfree hnone
    have hempty := hframed.empty hnone (by simp [hfree])
    have hstream := hframed.stream
    unfold FramedWrite.stream at hstream
    rw [hempty, List.append_nil] at hstream
    exact hstream
  · intro x hx
    have hfits := hframed.fits x hx
    unfold maxFrameLen at hfits
    have hlen : (frame (wire x.2)).length = (wire x.2).length + 4 := by
      unfold frame
      rw [List.length_append, length_leBytes]
      omega
    refine ⟨replyFrame_eq x.2, ?_, honce.task x hx, response_of_written hms rfl x hx⟩
    rw [replyFrame_eq, leVal_frame (by omega), hlen]

end Dispatch
end

/-! A writer that takes five bytes at a time. -/

def fiveBytes : AsyncWrite IoError where
  State := List UInt8
  Event := Empty
  pollWrite s buf := (.ready (.ok (min 5 buf.length)), s ++ buf.take (min 5 buf.length))
  pollFlush s := (.ready (.ok ()), s)
  tick e _ := nomatch e
  output s := s
  output_pollWrite _ _ := rfl
  output_pollFlush _ := rfl
  output_tick e _ _ _ := nomatch e

def noObjects : World Empty (fun _ => Unit) where
  State := Unit
  Event := Empty
  create _ s := s
  exec o _ := nomatch o
  tick e _ := nomatch e

/-- A `Tclunk` of a fid that is not bound. -/
def badClunk : List (SendLabel noObjects fiveBytes) :=
  [.conn (.recv (wire (⟨7, .tclunk 1⟩ : Msg))), .conn (.lookup 0), .lock 0, .poll, .poll, .poll,
    .poll, .poll]

def badClunkRun : Option (Dispatch noObjects fiveBytes) :=
  runs (Dispatch.step (A := fiveBytes) {}) (Dispatch.start FidTable.new 0 () ([] : List UInt8))
    badClunk

theorem badClunkRun_isSome : badClunkRun.isSome = true := rfl

theorem replies_in_frames_badClunk : ∃ t : Dispatch noObjects fiveBytes,
    badClunkRun = some t ∧ t.framedwrite.inner = t.conn.frames ∧
      t.conn.frames = [11, 0, 0, 0, 7, 7, 0, 9, 0, 0, 0] := by
  have hrun : badClunkRun = some (badClunkRun.get badClunkRun_isSome) :=
    (Option.some_get badClunkRun_isSome).symm
  have hframes := (Dispatch.replies_in_frames hrun).2.1 rfl rfl
  exact ⟨badClunkRun.get badClunkRun_isSome, hrun, hframes, rfl⟩

end P9cpu.Ninep
