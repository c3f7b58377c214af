import P9cpu.Core.Wire

/-! Writers that are polled, and a writer of length-delimited frames over one of them. -/
namespace P9cpu.Core

/-- `std::task::Poll`. -/
inductive Poll (α : Type)
  | ready (a : α)
  | pending
deriving DecidableEq

/-- The bytes that an answer of `poll_write` accepts. -/
def Poll.accepted {ε : Type} : Poll (Except ε ℕ) → ℕ
  | .ready (.ok n) => n
  | _ => 0

/-- An `AsyncWrite`. It may accept any part of a buffer; what it accepts is the next part of its
output, and nothing else is. -/
structure AsyncWrite (ε : Type) where
  State : Type
  /-- what happens at its other end -/
  Event : Type
  pollWrite : State → List UInt8 → Poll (Except ε ℕ) × State
  pollFlush : State → Poll (Except ε Unit) × State
  tick : Event → State → Option State
  output : State → List UInt8
  output_pollWrite : ∀ s buf,
    output (pollWrite s buf).2 = output s ++ buf.take (pollWrite s buf).1.accepted
  output_pollFlush : ∀ s, output (pollFlush s).2 = output s
  output_tick : ∀ e s t, tick e s = some t → output t = output s

/-- A frame of `LengthDelimitedCodec` with a length field of four bytes that counts itself. -/
def frame (payload : List UInt8) : List UInt8 := leBytes 4 (payload.length + 4) ++ payload

theorem leVal_frame {payload : List UInt8} (h : payload.length + 4 < 2 ^ 32) :
    leVal ((frame payload).take 4) = (frame payload).length := by
  have htake : (frame payload).take 4 = leBytes 4 (payload.length + 4) :=
    List.take_left' (length_leBytes 4 _)
  have hlen : (frame payload).length = payload.length + 4 := by
    unfold frame
    rw [List.length_append, length_leBytes]
    omega
  rw [htake, hlen]
  exact leVal_leBytes_of_lt (by omega)

/-- A `FramedWrite`: a writer and the bytes that it has not accepted yet. -/
structure FramedWrite {ε : Type} (A : AsyncWrite ε) where
  inner : A.State
  buffer : List UInt8

/-- How one turn of the loop in `poll_flush` ends. -/
inductive Turn
  | again
  | pending
  | done
  | failed
deriving DecidableEq

namespace FramedWrite

variable {ε : Type} {A : AsyncWrite ε}

/-- From this many bytes on, `poll_ready` flushes. -/
def BACKPRESSURE_BOUNDARY : ℕ := 8 * 1024

/-- The bytes that were written or will be. -/
def stream (self : FramedWrite A) : List UInt8 := A.output self.inner ++ self.buffer

/-- `start_send` of a payload that the codec takes. -/
def startSend (self : FramedWrite A) (payload : List UInt8) : FramedWrite A :=
  { self with buffer := self.buffer ++ frame payload }

/-- One turn of the loop in `poll_flush`. -/
def turn (self : FramedWrite A) : Turn × FramedWrite A :=
  if self.buffer = [] then
    match A.pollFlush self.inner with
    | (.pending, inner) => (.pending, { self with inner := inner })
    | (.ready (.ok _), inner) => (.done, { self with inner := inner })
    | (.ready (.error _), inner) => (.failed, { self with inner := inner })
  else
    match A.pollWrite self.inner self.buffer with
    | (.pending, inner) => (.pending, { self with inner := inner })
    | (.ready (.error _), inner) => (.failed, { self with inner := inner })
    -- `WriteZero`
    | (.ready (.ok 0), inner) => (.failed, { self with inner := inner })
    | (.ready (.ok (n + 1)), inner) => (.again, ⟨inner, self.buffer.drop (n + 1)⟩)

theorem stream_startSend (self : FramedWrite A) (payload : List UInt8) :
    (self.startSend payload).stream = self.stream ++ frame payload := by
  unfold stream startSend
  rw [List.append_assoc]

section
variable {self : FramedWrite A} {inner : A.State}

theorem stream_kept (h : A.output inner = A.output self.inner ++ self.buffer.take 0) :
    ({ self with inner := inner } : FramedWrite A).stream = self.stream := by
  unfold stream
  rw [h, List.take_zero, List.append_nil]

theorem stream_drop {n : ℕ} (h : A.output inner = A.output self.inner ++ self.buffer.take n) :
    (⟨inner, self.buffer.drop n⟩ : FramedWrite A).stream = self.stream := by
  unfold stream
  rw [h, List.append_assoc, List.take_append_drop]

end

/-- A turn moves bytes from the buffer to the output. -/
theorem stream_turn (self : FramedWrite A) : self.turn.2.stream = self.stream := by
  unfold turn
  split_ifs
  · have houtput := A.output_pollFlush self.inner
    rcases hpoll : A.pollFlush self.inner with ⟨(e | _) | _, inner⟩ <;> rw [hpoll] at houtput <;>
      exact congrArg (· ++ self.buffer) houtput
  · have houtput := A.output_pollWrite self.inner self.buffer
    rcases hpoll : A.pollWrite self.inner self.buffer with ⟨(e | _ | n) | _, inner⟩ <;>
      rw [hpoll] at houtput
    · exact stream_kept houtput
    · exact stream_kept houtput
    · exact stream_drop houtput
    · exact stream_kept houtput

/-- A turn is one call of the writer. -/
theorem inner_of_turn (self : FramedWrite A) :
    self.turn.2.inner = (A.pollFlush self.inner).2 ∨
      self.turn.2.inner = (A.pollWrite self.inner self.buffer).2 := by
  unfold turn
  split_ifs
  · left
    rcases A.pollFlush self.inner with ⟨(e | _) | _, inner⟩ <;> rfl
  · right
    rcases A.pollWrite self.inner self.buffer with ⟨(e | _ | n) | _, inner⟩ <;> rfl

theorem turn_of_empty {self : FramedWrite A} (h : self.buffer = []) : self.turn.2.buffer = [] := by
  unfold turn
  rw [if_pos h]
  rcases A.pollFlush self.inner with ⟨(e | _) | _, inner⟩ <;> exact h

/-- It is done when no byte is left. -/
theorem empty_of_done {self : FramedWrite A} (h : self.turn.1 = .done) :
    self.turn.2.buffer = [] := by
  by_cases hbuffer : self.buffer = []
  · exact turn_of_empty hbuffer
  · unfold turn at h
    rw [if_neg hbuffer] at h
    rcases hpoll : A.pollWrite self.inner self.buffer with ⟨(e | _ | n) | _, inner⟩ <;>
      rw [hpoll] at h <;> cases h

end FramedWrite
end P9cpu.Core
