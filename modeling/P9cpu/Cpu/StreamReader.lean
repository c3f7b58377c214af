import Mathlib.Data.List.Basic
import Mathlib.Data.List.Range
import P9cpu.Core.Framed
import P9cpu.Ninep.Error

/-! The `AsyncRead` over a stream of byte vectors that carries the 9P requests to the client. -/
namespace P9cpu.Cpu
open Core (Poll)
open Ninep (IoError)

/-- What the polls of a `Stream` of byte vectors answer, one after the other. -/
abbrev Polls := ℕ → Poll (Option (List UInt8))

namespace Polls

/-- The bytes that one poll takes from the stream. -/
def item (polls : Polls) (k : ℕ) : List UInt8 :=
  match polls k with
  | .ready (some bytes) => bytes
  | _ => []

/-- The concatenation of the items taken by the `n` polls from the `k`-th one. -/
def items (polls : Polls) (k n : ℕ) : List UInt8 := (List.range' k n).flatMap polls.item

@[simp] theorem items_zero (polls : Polls) (k : ℕ) : polls.items k 0 = [] := rfl

@[simp] theorem items_one (polls : Polls) (k : ℕ) : polls.items k 1 = polls.item k := by
  simp [items]

theorem items_append (polls : Polls) (k m n : ℕ) :
    polls.items k m ++ polls.items (k + m) n = polls.items k (m + n) := by
  unfold items
  rw [← List.flatMap_append, List.range'_append_1]

theorem length_item_le (polls : Polls) {k n : ℕ} (h : k < n) :
    (polls.item k).length ≤ (polls.items 0 n).length := by
  have hsub : List.Sublist (polls.item k) (polls.items 0 n) := by
    have hmem : k ∈ List.range' 0 n := by simp [h]
    unfold items
    rw [List.flatMap_def]
    exact List.sublist_flatten_of_mem (List.mem_map_of_mem hmem)
  exact hsub.length_le

/-- `n` polls come before the one that ends the stream. -/
def EndsAt (polls : Polls) (n : ℕ) : Prop :=
  polls n = .ready none ∧ ∀ k < n, polls k ≠ .ready none

end Polls

/-- `tokio::io::ReadBuf`. -/
structure ReadBuf where
  capacity : ℕ
  filled : List UInt8
  fits : filled.length ≤ capacity

namespace ReadBuf

def remaining (buf : ReadBuf) : ℕ := buf.capacity - buf.filled.length

/-- `ReadBuf::put_slice`, which panics where the slice does not fit. -/
def putSlice (buf : ReadBuf) (slice : List UInt8) (h : slice.length ≤ buf.remaining) :
    ReadBuf where
  capacity := buf.capacity
  filled := buf.filled ++ slice
  fits := by
    have := buf.fits
    unfold remaining at h
    rw [List.length_append]
    omega

@[simp] theorem putSlice_filled (buf : ReadBuf) (slice : List UInt8)
    (h : slice.length ≤ buf.remaining) : (buf.putSlice slice h).filled = buf.filled ++ slice := rfl

/-- An empty buffer. -/
def ofCapacity (n : ℕ) : ReadBuf := ⟨n, [], Nat.zero_le n⟩

@[simp] theorem remaining_ofCapacity (n : ℕ) : (ofCapacity n).remaining = n := rfl

end ReadBuf

structure StreamReader where
  /-- the answers of the stream, and how many polls it has answered -/
  inner : Polls
  polled : ℕ
  buffer : List UInt8
  consumed : ℕ

namespace StreamReader

/-- `StreamReader::new` -/
def new (stream : Polls) : StreamReader := ⟨stream, 0, [], 0⟩

/-- The stream has answered one more poll. -/
def advance (self : StreamReader) : StreamReader := { self with polled := self.polled + 1 }

/-- The loop of `poll_read`. It comes round again only with an item that is not empty. -/
def loop (self : StreamReader) (buf : ReadBuf) :
    Poll (Except IoError Unit) × StreamReader × ReadBuf :=
  if h : self.consumed < self.buffer.length then
    let remaining := self.buffer.length - self.consumed
    let readTo := min buf.remaining remaining + self.consumed
    (.ready (.ok ()), { self with consumed := readTo },
      buf.putSlice ((self.buffer.take readTo).drop self.consumed) (by simp; omega))
  else
    match self.inner self.polled with
    | .ready (some item) =>
      if item.isEmpty then
        (.ready (.ok ()), { self.advance with buffer := item, consumed := 0 }, buf)
      else loop { self.advance with buffer := item, consumed := 0 } buf
    | .ready none => (.ready (.ok ()), self.advance, buf)
    | .pending => (.pending, self.advance, buf)
termination_by if self.consumed < self.buffer.length then 0 else 1
decreasing_by
  have hlen : 0 < item.length := by
    cases item with
    | nil => contradiction
    | cons b bs => simp
  simp [h, hlen]

/-- `StreamReader::poll_read` -/
def pollRead (self : StreamReader) (buf : ReadBuf) :
    Poll (Except IoError Unit) × StreamReader × ReadBuf :=
  if buf.remaining = 0 then (.ready (.ok ()), self, buf) else self.loop buf

/-- The part of the buffer that was not delivered. -/
def held (self : StreamReader) : List UInt8 := self.buffer.drop self.consumed

/-- What a call of `poll_read` does. -/
inductive Call (self : StreamReader) (buf : ReadBuf) :
    Poll (Except IoError Unit) → StreamReader → ReadBuf → Prop
  | full (h : buf.remaining = 0) : Call self buf (.ready (.ok ())) self buf
  | copied (n : ℕ) (buf' : ReadBuf) (h : 0 < buf.remaining)
      (hheld : self.consumed < self.buffer.length)
      (hn : n = min buf.remaining (self.buffer.length - self.consumed))
      (hput : buf'.filled = buf.filled ++ self.held.take n) :
      Call self buf (.ready (.ok ())) { self with consumed := self.consumed + n } buf'
  | pending (h : 0 < buf.remaining) (hheld : self.buffer.length ≤ self.consumed)
      (hpoll : self.inner self.polled = .pending) : Call self buf .pending self.advance buf
  | ended (h : 0 < buf.remaining) (hheld : self.buffer.length ≤ self.consumed)
      (hpoll : self.inner self.polled = .ready none) :
      Call self buf (.ready (.ok ())) self.advance buf
  | empty (h : 0 < buf.remaining) (hheld : self.buffer.length ≤ self.consumed)
      (hpoll : self.inner self.polled = .ready (some [])) :
      Call self buf (.ready (.ok ())) { self.advance with buffer := [], consumed := 0 } buf
  | took (item : List UInt8) (n : ℕ) (buf' : ReadBuf) (h : 0 < buf.remaining)
      (hheld : self.buffer.length ≤ self.consumed)
      (hpoll : self.inner self.polled = .ready (some item)) (hitem : item ≠ [])
      (hn : n = min buf.remaining item.length) (hput : buf'.filled = buf.filled ++ item.take n) :
      Call self buf (.ready (.ok ())) { self.advance with buffer := item, consumed := n } buf'

/-- A turn of the loop where the buffer still holds bytes. -/
theorem loop_of_lt (self : StreamReader) (buf : ReadBuf) {n : ℕ}
    (hheld : self.consumed < self.buffer.length)
    (hn : n = min buf.remaining (self.buffer.length - self.consumed)) :
    ∃ buf' : ReadBuf,
      self.loop buf = (.ready (.ok ()), { self with consumed := self.consumed + n }, buf') ∧
        buf'.filled = buf.filled ++ self.held.take n := by
  subst hn
  rw [loop, dif_pos hheld]
  refine ⟨_, by rw [Nat.add_comm], ?_⟩
  rw [ReadBuf.putSlice_filled, List.drop_take, Nat.add_sub_cancel]
  rfl

theorem call_of_loop (self : StreamReader) (buf : ReadBuf) (h : 0 < buf.remaining) :
    Call self buf (self.loop buf).1 (self.loop buf).2.1 (self.loop buf).2.2 := by
  by_cases hheld : self.consumed < self.buffer.length
  · obtain ⟨buf', hloop, hput⟩ := loop_of_lt self buf hheld rfl
    rw [hloop]
    exact .copied _ buf' h hheld rfl hput
  · have hdone : self.buffer.length ≤ self.consumed := by omega
    cases hpoll : self.inner self.polled with
    | pending =>
      rw [loop, dif_neg hheld, hpoll]
      exact .pending h hdone hpoll
    | ready answer =>
      cases answer with
      | none =>
        rw [loop, dif_neg hheld, hpoll]
        exact .ended h hdone hpoll
      | some item =>
        cases item with
        | nil =>
          rw [loop, dif_neg hheld, hpoll]
          exact .empty h hdone hpoll
        | cons b bs =>
          -- the second turn finds the item in the buffer
          obtain ⟨buf', hloop, hput⟩ := loop_of_lt
            { self.advance with buffer := b :: bs, consumed := 0 } buf (by simp) rfl
          have hturn : self.loop buf =
              loop { self.advance with buffer := b :: bs, consumed := 0 } buf := by
            rw [loop, dif_neg hheld, hpoll]
            rfl
          rw [hturn, hloop]
          exact .took (b :: bs) _ buf' h hdone hpoll (by simp) (by simp)
            (by simpa [held] using hput)

/-- The spec of `poll_read`. -/
theorem call_of_pollRead (self : StreamReader) (buf : ReadBuf) :
    Call self buf (self.pollRead buf).1 (self.pollRead buf).2.1 (self.pollRead buf).2.2 := by
  unfold pollRead
  split
  · rename_i h
    exact .full h
  · rename_i h
    exact call_of_loop self buf (Nat.pos_of_ne_zero h)

/-- The call puts `put` into its buffer. What it takes from the stream is put or held. -/
structure Moves (r : StreamReader) (buf : ReadBuf) (result : Poll (Except IoError Unit))
    (r' : StreamReader) (buf' : ReadBuf) (put : List UInt8) : Prop where
  inner : r'.inner = r.inner
  bounded : r.consumed ≤ r.buffer.length → r'.consumed ≤ r'.buffer.length
  filled : buf'.filled = buf.filled ++ put
  fits : put.length ≤ buf.remaining
  pending : result = .pending → put = []
  conserved : ∃ k, r'.polled = r.polled + k ∧
    put ++ r'.held = r.held ++ r.inner.items r.polled k

theorem held_eq_nil {self : StreamReader} (h : self.buffer.length ≤ self.consumed) :
    self.held = [] :=
  List.drop_eq_nil_of_le h

theorem Call.moves {self self' : StreamReader} {buf buf' : ReadBuf}
    {result : Poll (Except IoError Unit)} (h : Call self buf result self' buf') :
    ∃ put, Moves self buf result self' buf' put := by
  cases h with
  | full => exact ⟨[], rfl, id, by simp, by simp, fun _ => rfl, 0, rfl, by simp⟩
  | copied n _ hpos hheld hn hput =>
    refine ⟨self.held.take n, rfl, fun _ => ?_, hput, ?_, by simp, 0, rfl, ?_⟩
    · dsimp only
      omega
    · rw [List.length_take]
      omega
    · rw [Polls.items_zero, List.append_nil]
      unfold held
      rw [← List.drop_drop, List.take_append_drop]
  | pending hpos hheld hpoll | ended hpos hheld hpoll =>
    refine ⟨[], rfl, id, by simp, by simp, fun _ => rfl, 1, rfl, ?_⟩
    rw [Polls.items_one, Polls.item, hpoll]
    simp [held, advance]
  | empty hpos hheld hpoll =>
    refine ⟨[], rfl, by simp, by simp, by simp, fun _ => rfl, 1, rfl, ?_⟩
    rw [Polls.items_one, Polls.item, hpoll, held_eq_nil hheld]
    rfl
  | took item n _ hpos hheld hpoll hne hn hput =>
    refine ⟨item.take n, rfl, fun _ => ?_, hput, ?_, by simp, 1, rfl, ?_⟩
    · dsimp only
      omega
    · rw [List.length_take]
      omega
    · rw [Polls.items_one, Polls.item, hpoll, held_eq_nil hheld]
      exact List.take_append_drop n item

theorem moves_pollRead (self : StreamReader) (buf : ReadBuf) :
    ∃ put, Moves self buf (self.pollRead buf).1 (self.pollRead buf).2.1 (self.pollRead buf).2.2
      put :=
  (call_of_pollRead self buf).moves

end StreamReader

/-- A reader, and all that its calls have put into their buffers. -/
structure Reading where
  reader : StreamReader
  delivered : List UInt8

namespace Reading
open StreamReader

def start (polls : Polls) : Reading := ⟨.new polls, []⟩

/-- A call of `poll_read`, and what the caller finds in its buffer after it. -/
def read (s : Reading) (buf : ReadBuf) : Reading where
  reader := (s.reader.pollRead buf).2.1
  delivered := s.delivered ++ (s.reader.pollRead buf).2.2.filled.drop buf.filled.length

def reads (s : Reading) (bufs : List ReadBuf) : Reading := bufs.foldl read s

@[simp] theorem reads_nil (s : Reading) : s.reads [] = s := rfl

@[simp] theorem reads_snoc (s : Reading) (bufs : List ReadBuf) (buf : ReadBuf) :
    s.reads (bufs ++ [buf]) = (s.reads bufs).read buf := by
  simp [reads]

/-- Every byte taken from the stream was delivered or is held by the reader. -/
structure Conserves (polls : Polls) (s : Reading) : Prop where
  inner : s.reader.inner = polls
  bounded : s.reader.consumed ≤ s.reader.buffer.length
  conserved : s.delivered ++ s.reader.held = polls.items 0 s.reader.polled

theorem conserves_start (polls : Polls) : Conserves polls (start polls) :=
  ⟨rfl, le_rfl, rfl⟩

theorem Conserves.read {polls : Polls} {s : Reading} (h : Conserves polls s) (buf : ReadBuf) :
    Conserves polls (s.read buf) := by
  obtain ⟨put, hmoves⟩ := moves_pollRead s.reader buf
  obtain ⟨k, hpolled, hheld⟩ := hmoves.conserved
  constructor
  · exact hmoves.inner.trans h.inner
  · exact hmoves.bounded h.bounded
  · change (s.delivered ++ _) ++ (s.reader.pollRead buf).2.1.held =
      polls.items 0 (s.reader.pollRead buf).2.1.polled
    rw [hmoves.filled, List.drop_left, hpolled, List.append_assoc, hheld, ← List.append_assoc,
      h.conserved, h.inner]
    have hsum := polls.items_append 0 s.reader.polled k
    rwa [Nat.zero_add] at hsum

theorem conserves_reads (polls : Polls) (bufs : List ReadBuf) :
    Conserves polls ((start polls).reads bufs) := by
  induction bufs using List.reverseRecOn with
  | nil => exact conserves_start polls
  | append_singleton bufs buf ih =>
    rw [reads_snoc]
    exact ih.read buf

end Reading

/-- After any calls the bytes delivered, those still held and those of the polls to come are the
bytes of the stream. The next call puts no more than fits, and nothing when it is pending. -/
theorem streamReader_conserves (polls : Polls) (bufs : List ReadBuf) (buf : ReadBuf) :
    let s := (Reading.start polls).reads bufs
    let (result, _, buf') := s.reader.pollRead buf
    s.reader.inner = polls ∧ s.reader.consumed ≤ s.reader.buffer.length ∧
      (∀ n, s.delivered ++ s.reader.buffer.drop s.reader.consumed ++
        polls.items s.reader.polled n = polls.items 0 (s.reader.polled + n)) ∧
      ∃ put, buf'.filled = buf.filled ++ put ∧ put.length ≤ buf.remaining ∧
        (result = .pending → put = []) := by
  intro s
  have hs : s.Conserves polls := Reading.conserves_reads polls bufs
  obtain ⟨put, hmoves⟩ := StreamReader.moves_pollRead s.reader buf
  refine ⟨hs.inner, hs.bounded, fun n => ?_, put, hmoves.filled, hmoves.fits, hmoves.pending⟩
  have hconserved : s.delivered ++ s.reader.buffer.drop s.reader.consumed =
      polls.items 0 s.reader.polled := hs.conserved
  have hsum := polls.items_append 0 s.reader.polled n
  rw [Nat.zero_add] at hsum
  rw [hconserved, hsum]

namespace Reading
open StreamReader

/-- The call is ready and has put nothing into its buffer: its caller takes this for the end. -/
def Eof (s : Reading) (buf : ReadBuf) : Prop :=
  (s.reader.pollRead buf).1 = .ready (.ok ()) ∧
    (s.reader.pollRead buf).2.2.filled = buf.filled

/-- `bufs` are the buffers of calls before the first one that looks like the end. -/
def Continues (s : Reading) (bufs : List ReadBuf) : Prop :=
  ∀ before buf after, bufs = before ++ buf :: after → ¬ (s.reads before).Eof buf

theorem Continues.left {s : Reading} {bufs : List ReadBuf} {buf : ReadBuf}
    (h : s.Continues (bufs ++ [buf])) : s.Continues bufs := by
  intro before b after hbufs
  exact h before b (after ++ [buf]) (by simp [hbufs])

theorem Continues.last {s : Reading} {bufs : List ReadBuf} {buf : ReadBuf}
    (h : s.Continues (bufs ++ [buf])) : ¬ (s.reads bufs).Eof buf :=
  h bufs buf [] rfl

/-- The stream has answered `None`. -/
def Ended (s : Reading) : Prop :=
  ∃ k < s.reader.polled, s.reader.inner k = .ready none

/-- A call that looks like the end polled the end of the stream, or an empty item. -/
theorem Eof.poll {s : Reading} {buf : ReadBuf} (hpos : 0 < buf.remaining) (h : s.Eof buf) :
    s.reader.buffer.length ≤ s.reader.consumed ∧
      (s.read buf).reader.polled = s.reader.polled + 1 ∧
      (s.read buf).reader.inner = s.reader.inner ∧
      (s.reader.inner s.reader.polled = .ready none ∨
        s.reader.inner s.reader.polled = .ready (some [])) := by
  obtain ⟨hready, hfilled⟩ := h
  have hcall := call_of_pollRead s.reader buf
  unfold read
  generalize s.reader.pollRead buf = called at *
  obtain ⟨result, reader, buf'⟩ := called
  dsimp only at *
  cases hcall with
  | full hfull => omega
  | copied n _ _ hheld hn hput =>
    have hlen := congrArg List.length (hput.symm.trans hfilled)
    rw [held, List.length_append, List.length_take, List.length_drop] at hlen
    omega
  | pending => cases hready
  | ended _ hheld hpoll => exact ⟨hheld, rfl, rfl, .inl hpoll⟩
  | empty _ hheld hpoll => exact ⟨hheld, rfl, rfl, .inr hpoll⟩
  | took item n _ _ _ _ hne hn hput =>
    have hlen := congrArg List.length (hput.symm.trans hfilled)
    have hitem := List.length_pos_of_ne_nil hne
    rw [List.length_append, List.length_take] at hlen
    omega

/-- A call that does not look like the end has not polled the end of the stream. -/
theorem ended_of_read {s : Reading} {buf : ReadBuf} (hnot : ¬ s.Eof buf)
    (h : (s.read buf).Ended) : s.Ended := by
  obtain ⟨k, hk, hnone⟩ := h
  have hcall := call_of_pollRead s.reader buf
  unfold Eof at hnot
  unfold read at hk hnone
  generalize s.reader.pollRead buf = called at *
  obtain ⟨result, reader, buf'⟩ := called
  dsimp only at *
  cases hcall with
  | full => exact ⟨k, hk, hnone⟩
  | copied => exact ⟨k, hk, hnone⟩
  | ended | empty => exact absurd ⟨rfl, rfl⟩ hnot
  | pending _ _ hpoll | took _ _ _ _ _ hpoll =>
    have hbefore : k ≠ s.reader.polled := by
      intro hlast
      subst hlast
      exact absurd (hpoll.symm.trans hnone) (by simp)
    change k < s.reader.polled + 1 at hk
    exact ⟨k, by omega, hnone⟩

theorem not_ended_of_continues (polls : Polls) {bufs : List ReadBuf}
    (h : (start polls).Continues bufs) : ¬ ((start polls).reads bufs).Ended := by
  induction bufs using List.reverseRecOn with
  | nil =>
    rintro ⟨k, hk, -⟩
    exact absurd hk (Nat.not_lt_zero k)
  | append_singleton bufs buf ih =>
    rw [reads_snoc]
    intro hended
    exact ih h.left (ended_of_read h.last hended)

end Reading

/-- A call with room in its buffer looks like the end only when the stream has ended, and the
first such call comes when every item was delivered. -/
def EofAtEnd (polls : Polls) : Prop :=
  ∀ (bufs : List ReadBuf) (buf : ReadBuf), (∀ b ∈ bufs, 0 < b.remaining) → 0 < buf.remaining →
    let s := (Reading.start polls).reads bufs
    s.Eof buf → (s.read buf).Ended ∧
      ((Reading.start polls).Continues bufs → ∃ n, polls.EndsAt n ∧ s.delivered = polls.items 0 n)

theorem eofAtEnd_of_noEmpty {polls : Polls}
    (h : ∀ n, polls n = .ready (some []) → ∃ k < n, polls k = .ready none) : EofAtEnd polls := by
  intro bufs buf _ hpos s heof
  have hs : s.Conserves polls := Reading.conserves_reads polls bufs
  obtain ⟨hheld, hpolled, hinner, hpoll⟩ := heof.poll hpos
  rw [hs.inner] at hpoll hinner
  have hended : ∃ k < s.reader.polled + 1, polls k = .ready none := by
    cases hpoll with
    | inl hnone => exact ⟨s.reader.polled, by omega, hnone⟩
    | inr hempty =>
      obtain ⟨k, hk, hnone⟩ := h _ hempty
      exact ⟨k, by omega, hnone⟩
  constructor
  · unfold Reading.Ended
    rw [hpolled, hinner]
    exact hended
  · intro hcontinues
    have hnot : ∀ k < s.reader.polled, polls k ≠ .ready none := by
      intro k hk hnone
      refine Reading.not_ended_of_continues polls hcontinues ⟨k, hk, ?_⟩
      rw [hs.inner]
      exact hnone
    have hlast : polls s.reader.polled = .ready none := by
      obtain ⟨k, hk, hnone⟩ := hended
      have hk' : k = s.reader.polled := by
        by_contra hne
        exact hnot k (by omega) hnone
      rwa [hk'] at hnone
    refine ⟨s.reader.polled, ⟨hlast, hnot⟩, ?_⟩
    have hconserved := hs.conserved
    rwa [StreamReader.held_eq_nil hheld, List.append_nil] at hconserved

namespace Reading
open StreamReader

/-- A call with room for the next item takes one poll and leaves nothing behind. -/
theorem read_large {s : Reading} {buf : ReadBuf} (hpos : 0 < buf.remaining)
    (hheld : s.reader.buffer.length ≤ s.reader.consumed)
    (hroom : (s.reader.inner.item s.reader.polled).length ≤ buf.remaining) :
    (s.read buf).reader.polled = s.reader.polled + 1 ∧
      (s.read buf).reader.buffer.length ≤ (s.read buf).reader.consumed := by
  have hcall := call_of_pollRead s.reader buf
  unfold read
  generalize s.reader.pollRead buf = called at *
  obtain ⟨result, reader, buf'⟩ := called
  dsimp only at *
  cases hcall with
  | full hfull => omega
  | copied n _ _ hlt => omega
  | pending | ended => exact ⟨rfl, hheld⟩
  | empty => exact ⟨rfl, le_rfl⟩
  | took item n _ _ _ hpoll hne hn =>
    rw [Polls.item, hpoll] at hroom
    refine ⟨rfl, ?_⟩
    dsimp only at *
    omega

/-- Calls with room for every item take the polls of the stream one by one. -/
theorem reads_large (polls : Polls) {buf : ReadBuf} (hpos : 0 < buf.remaining) {n : ℕ}
    (hroom : ∀ k < n, (polls.item k).length ≤ buf.remaining) :
    let s := (start polls).reads (List.replicate n buf)
    s.reader.polled = n ∧ s.reader.buffer.length ≤ s.reader.consumed := by
  induction n with
  | zero => exact ⟨rfl, le_rfl⟩
  | succ n ih =>
    obtain ⟨hpolled, hheld⟩ := ih fun k hk => hroom k (by omega)
    have hs := conserves_reads polls (List.replicate n buf)
    have hnext := read_large hpos hheld (by
      rw [hs.inner, hpolled]
      exact hroom n (by omega))
    rw [hpolled] at hnext
    dsimp only
    rw [List.replicate_succ', reads_snoc]
    exact hnext

/-- An empty item that is polled with nothing held looks like the end. -/
theorem eof_of_empty {s : Reading} {buf : ReadBuf}
    (hheld : s.reader.buffer.length ≤ s.reader.consumed)
    (hpoll : s.reader.inner s.reader.polled = .ready (some [])) : s.Eof buf := by
  have hcall := call_of_pollRead s.reader buf
  unfold Eof
  generalize s.reader.pollRead buf = called at *
  obtain ⟨result, reader, buf'⟩ := called
  dsimp only at *
  cases hcall with
  | full | empty => exact ⟨rfl, rfl⟩
  | copied n _ _ hlt => omega
  | pending _ _ h | ended _ _ h | took _ _ _ _ _ h =>
    have hsame := hpoll.symm.trans h
    simp_all

end Reading

/-- The reader reports the end at the end alone exactly on the streams that have no empty item
before it. -/
theorem eofAtEnd_iff (polls : Polls) :
    EofAtEnd polls ↔ ∀ n, polls n = .ready (some []) → ∃ k < n, polls k = .ready none := by
  constructor
  · intro heof n hempty
    -- buffers that every item up to the empty one fits into
    let buf := ReadBuf.ofCapacity ((polls.items 0 n).length + 1)
    have hpos : 0 < buf.remaining := Nat.succ_pos _
    have hroom (k : ℕ) (hk : k < n) : (polls.item k).length ≤ buf.remaining :=
      (polls.length_item_le hk).trans (Nat.le_succ _)
    obtain ⟨hpolled, hheld⟩ := Reading.reads_large polls hpos hroom
    have hs := Reading.conserves_reads polls (List.replicate n buf)
    have hlast : ((Reading.start polls).reads (List.replicate n buf)).Eof buf := by
      refine Reading.eof_of_empty hheld ?_
      rw [hs.inner, hpolled]
      exact hempty
    have hended := (heof _ buf (by simp_all) hpos hlast).1
    obtain ⟨-, hnext, hinner, -⟩ := hlast.poll hpos
    unfold Reading.Ended at hended
    rw [hnext, hinner, hpolled, hs.inner] at hended
    obtain ⟨k, hk, hnone⟩ := hended
    have hne : k ≠ n := by
      intro hkn
      subst hkn
      exact absurd (hempty.symm.trans hnone) (by simp)
    exact ⟨k, by omega, hnone⟩
  · exact eofAtEnd_of_noEmpty

/-- An empty item, one with a byte, and the end. -/
def emptyFirst : Polls
  | 0 => .ready (some [])
  | 1 => .ready (some [7])
  | _ => .ready none

theorem not_eofAtEnd : ¬ EofAtEnd emptyFirst := by
  intro h
  have hpos : 0 < (ReadBuf.ofCapacity 1).remaining := Nat.one_pos
  have hlast : (Reading.start emptyFirst).Eof (.ofCapacity 1) :=
    Reading.eof_of_empty le_rfl rfl
  obtain ⟨-, hnext, hinner, -⟩ := hlast.poll hpos
  obtain ⟨k, hk, hnone⟩ := (h [] (.ofCapacity 1) (by simp) hpos hlast).1
  change k < ((Reading.start emptyFirst).read (.ofCapacity 1)).reader.polled at hk
  rw [hnext] at hk
  have hzero : k = 0 := Nat.lt_one_iff.mp hk
  subst hzero
  change ((Reading.start emptyFirst).read (.ofCapacity 1)).reader.inner 0 = _ at hnone
  rw [hinner] at hnone
  cases hnone

/-- `ByteVecStream::poll_next`: an error of the gRPC stream is its end. -/
def byteVecStream {Status : Type} (inner : ℕ → Poll (Option (Except Status (List UInt8)))) :
    Polls := fun k =>
  match inner k with
  | .pending => .pending
  | .ready none => .ready none
  | .ready (some (.ok b)) => .ready (some b)
  | .ready (some (.error _)) => .ready none

/-- Where no message of the gRPC stream is empty, the 9P server sees the end at the end alone. -/
theorem eofAtEnd_byteVecStream {Status : Type}
    {inner : ℕ → Poll (Option (Except Status (List UInt8)))}
    (h : ∀ n, inner n ≠ .ready (some (.ok []))) : EofAtEnd (byteVecStream inner) := by
  refine eofAtEnd_of_noEmpty fun n hempty => absurd hempty ?_
  unfold byteVecStream
  split
  · simp
  · simp
  · rename_i b hb
    intro hnil
    cases hnil
    exact h n hb
  · simp

end P9cpu.Cpu
