import P9cpu.Ninep.Writer

/-! The `AsyncWrite` over a channel that carries the 9P replies of the client. -/
namespace P9cpu.Cpu
open Core
open Ninep

/-- A bounded `mpsc` channel: its items in flight and those that were received. -/
structure Channel (Item : Type) where
  capacity : ℕ
  queue : List Item
  received : List Item
  closed : Bool
  /-- the receiver will close it right after the next reservation -/
  closing : Bool

namespace Channel

variable {Item : Type}

/-- `mpsc::channel` -/
def new (buffer : ℕ) : Channel Item := ⟨buffer, [], [], false, false⟩

def pollReserve (self : Channel Item) : Poll (Except Unit Unit) × Channel Item :=
  if self.closed then (.ready (.error ()), self)
  else if self.queue.length < self.capacity then
    (.ready (.ok ()), { self with closed := self.closing })
  else (.pending, self)

/-- `send_item` in the slot that was reserved. -/
def sendItem (self : Channel Item) (item : Item) : Except Unit Unit × Channel Item :=
  if self.closed then (.error (), self)
  else (.ok (), { self with queue := self.queue ++ [item] })

/-- What the receiver does. -/
inductive Event
  | recv
  | close
  | closeReserved

def tick : Event → Channel Item → Option (Channel Item)
  | .recv, self =>
    match self.queue with
    | [] => none
    | item :: queue => some { self with queue := queue, received := self.received ++ [item] }
  | .close, self => some { self with closed := true }
  | .closeReserved, self => some { self with closing := true }

/-- The items that were sent. -/
def sent (self : Channel Item) : List Item := self.received ++ self.queue

theorem sent_tick {e : Event} {c d : Channel Item} (h : c.tick e = some d) : d.sent = c.sent := by
  cases e with
  | recv =>
    cases hqueue : c.queue with
    | nil =>
      simp only [tick, hqueue] at h
      cases h
    | cons item queue =>
      simp only [tick, hqueue] at h
      cases h
      unfold sent
      rw [hqueue, List.append_assoc]
      rfl
  | close | closeReserved =>
    cases h
    rfl

theorem sent_pollReserve (c : Channel Item) : c.pollReserve.2.sent = c.sent := by
  unfold pollReserve
  split_ifs <;> rfl

end Channel

structure SenderWriter (Item : Type) where
  /-- `inner` is `Some` -/
  inner : Bool
  channel : Channel Item

namespace SenderWriter

variable {Item : Type} (into : List UInt8 → Item)

/-- `SenderWriter::new` -/
def new (sender : Channel Item) : SenderWriter Item := ⟨true, sender⟩

def SENDER_IS_DOWN : IoError := .custom .brokenPipe "Sender is down."

def CHANNEL_IS_CLOSED : IoError := .custom .brokenPipe "Channel is closed."

def pollWrite (self : SenderWriter Item) (buf : List UInt8) :
    Poll (Except IoError ℕ) × SenderWriter Item :=
  if buf.isEmpty then (.ready (.ok 0), self)
  else if self.inner then
    match self.channel.pollReserve with
    | (.pending, channel) => (.pending, { self with channel := channel })
    | (.ready (.error _), channel) =>
      (.ready (.error CHANNEL_IS_CLOSED), { self with channel := channel })
    | (.ready (.ok _), channel) =>
      match channel.sendItem (into buf) with
      | (.ok _, channel) => (.ready (.ok buf.length), { self with channel := channel })
      | (.error _, channel) =>
        (.ready (.error CHANNEL_IS_CLOSED), { self with channel := channel })
  else (.ready (.error SENDER_IS_DOWN), self)

def pollFlush (self : SenderWriter Item) : Poll (Except IoError Unit) × SenderWriter Item :=
  if self.inner then (.ready (.ok ()), self) else (.ready (.error SENDER_IS_DOWN), self)

def pollShutdown (self : SenderWriter Item) : Poll (Except IoError Unit) × SenderWriter Item :=
  if self.inner then (.ready (.ok ()), { self with inner := false })
  else (.ready (.error SENDER_IS_DOWN), self)

variable {into} {bytes : Item → List UInt8}

/-- A write is accepted whole, as one item, or not at all. -/
theorem sent_pollWrite (into : List UInt8 → Item) (self : SenderWriter Item) (buf : List UInt8) :
    (self.pollWrite into buf).1.accepted = 0 ∧
        (self.pollWrite into buf).2.channel.sent = self.channel.sent ∨
      buf ≠ [] ∧ (self.pollWrite into buf).1 = .ready (.ok buf.length) ∧
        (self.pollWrite into buf).2.channel.sent = self.channel.sent ++ [into buf] := by
  have hreserve := self.channel.sent_pollReserve
  unfold pollWrite
  split_ifs with hempty
  · exact .inl ⟨rfl, rfl⟩
  · rcases hpoll : self.channel.pollReserve with ⟨(e | _) | _, channel⟩
    · rw [hpoll] at hreserve
      exact .inl ⟨rfl, hreserve⟩
    · rw [hpoll] at hreserve
      unfold Channel.sendItem
      by_cases hclosed : channel.closed = true
      · simp only [if_pos hclosed]
        exact .inl ⟨rfl, hreserve⟩
      · simp only [if_neg hclosed]
        refine .inr ⟨by simpa using hempty, True.intro, ?_⟩
        rw [← hreserve]
        exact (List.append_assoc _ _ _).symm
    · rw [hpoll] at hreserve
      exact .inl ⟨rfl, hreserve⟩
  · exact .inl ⟨rfl, rfl⟩

/-- The writer that is given to `dispatch`. -/
def asyncWrite (into : List UInt8 → Item) (bytes : Item → List UInt8)
    (hinto : ∀ buf, bytes (into buf) = buf) : AsyncWrite IoError where
  State := SenderWriter Item
  Event := Channel.Event
  pollWrite := pollWrite into
  pollFlush := pollFlush
  tick e self := (self.channel.tick e).map fun channel => { self with channel := channel }
  output self := self.channel.sent.flatMap bytes
  output_pollWrite self buf := by
    obtain ⟨hnone, hsent⟩ | ⟨-, hall, hsent⟩ := sent_pollWrite into self buf
    · rw [hnone, hsent, List.take_zero, List.append_nil]
    · rw [hall, hsent, List.flatMap_append, List.flatMap_singleton, hinto, Poll.accepted,
        List.take_length]
  output_pollFlush self := by
    unfold pollFlush
    split_ifs <;> rfl
  output_tick e self t h := by
    obtain ⟨channel, htick, rfl⟩ := Option.map_eq_some_iff.mp h
    dsimp only
    rw [Channel.sent_tick htick]

/-- The server receives a prefix of the frames of the replies. -/
theorem received_prefix {hinto : ∀ buf, bytes (into buf) = buf} {Op : Type} {Res : Op → Type}
    {W : World Op Res} {fs : Filesystem Op Res} {fids : FidTable} {nextAux : ObjId}
    {world : W.State} {ls : List (SendLabel W (asyncWrite into bytes hinto))}
    {t : Dispatch W (asyncWrite into bytes hinto)}
    (h : runs (Dispatch.step fs)
      (Dispatch.start fids nextAux world (new (Channel.new 1) : SenderWriter Item)) ls = some t) :
    t.framedwrite.inner.channel.received.flatMap bytes <+: t.conn.frames := by
  have hstart : (Dispatch.start fids nextAux world (new (Channel.new 1) : SenderWriter Item) :
      Dispatch W (asyncWrite into bytes hinto)).Framed [] :=
    ⟨rfl, fun _ _ => rfl, fun x hx => nomatch hx⟩
  have hstream := (runs_invariant Dispatch.framed_step h hstart).stream
  have hsent : (t.framedwrite.inner.channel.received ++
      t.framedwrite.inner.channel.queue).flatMap bytes ++ t.framedwrite.buffer =
        t.conn.frames := hstream
  rw [List.flatMap_append, List.append_assoc] at hsent
  exact ⟨_, hsent⟩

end SenderWriter
end P9cpu.Cpu
