import P9cpu.Cpu.SenderWriter

/-! What a `SenderWriter` puts on its channel is what it acknowledges. -/
namespace P9cpu.Cpu
open Core
open Ninep (IoError)

/-- The calls of a writer, and what happens at the channel between them. -/
inductive WriterLabel
  | write (buf : List UInt8)
  | flush
  | shutdown
  | channel (e : Channel.Event)
  /-- more or less room is left to this sender -/
  | slots (capacity : ℕ)

/-- A writer with the answers to its `poll_write` calls so far. -/
structure Polled (Item : Type) where
  writer : SenderWriter Item
  writes : List (List UInt8 × Poll (Except IoError ℕ))

namespace Polled

variable {Item : Type}

def step (into : List UInt8 → Item) (s : Polled Item) : WriterLabel → Option (Polled Item)
  | .write buf =>
    let (r, writer) := s.writer.pollWrite into buf
    some ⟨writer, s.writes ++ [(buf, r)]⟩
  | .flush => some { s with writer := s.writer.pollFlush.2 }
  | .shutdown => some { s with writer := s.writer.pollShutdown.2 }
  | .channel e => (s.writer.channel.tick e).map fun channel =>
    { s with writer := { s.writer with channel := channel } }
  | .slots capacity =>
    some { s with writer := { s.writer with
      channel := { s.writer.channel with capacity := capacity } } }

/-- The buffers of the writes that returned a positive number of bytes. -/
def acknowledged (writes : List (List UInt8 × Poll (Except IoError ℕ))) : List (List UInt8) :=
  (writes.filter (fun write => 0 < write.2.accepted)).map Prod.fst

/-- The channel has what was acknowledged since it had `items`. -/
structure Exact (into : List UInt8 → Item) (items : List Item) (s : Polled Item) : Prop where
  sent : s.writer.channel.sent = items ++ (acknowledged s.writes).map into
  whole : ∀ buf r, (buf, r) ∈ s.writes → 0 < r.accepted →
    buf ≠ [] ∧ r = .ready (.ok buf.length)

/-- The writer is shut down, and since it had written `before` no write has done anything. -/
structure Down (items : List Item) (before : ℕ) (s : Polled Item) : Prop where
  inner : s.writer.inner = false
  sent : s.writer.channel.sent = items
  le : before ≤ s.writes.length
  failed : ∀ buf r, (buf, r) ∈ s.writes.drop before → buf ≠ [] → ∃ e, r = .ready (.error e)

variable {into : List UInt8 → Item} {items : List Item} {s t : Polled Item} {l : WriterLabel}
  {before : ℕ}

theorem acknowledged_snoc (writes : List (List UInt8 × Poll (Except IoError ℕ)))
    (buf : List UInt8) (r : Poll (Except IoError ℕ)) :
    acknowledged (writes ++ [(buf, r)]) =
      acknowledged writes ++ if 0 < r.accepted then [buf] else [] := by
  unfold acknowledged
  rw [List.filter_append, List.map_append]
  by_cases hr : 0 < r.accepted
  · simp [hr]
  · simp [hr]

theorem channel_pollFlush (writer : SenderWriter Item) : writer.pollFlush.2 = writer := by
  unfold SenderWriter.pollFlush
  split_ifs <;> rfl

theorem channel_pollShutdown (writer : SenderWriter Item) :
    writer.pollShutdown.2 = { writer with inner := false } := by
  unfold SenderWriter.pollShutdown
  split_ifs with hinner
  · rfl
  · obtain ⟨inner, channel⟩ := writer
    obtain rfl : inner = false := by simpa using hinner
    rfl

/-- What a step does: a write, or nothing but to what the channel is like. -/
theorem step_cases (h : step into s l = some t) :
    (∃ buf, l = .write buf ∧ t = ⟨(s.writer.pollWrite into buf).2,
      s.writes ++ [(buf, (s.writer.pollWrite into buf).1)]⟩) ∨
    t.writes = s.writes ∧ t.writer.channel.sent = s.writer.channel.sent ∧
      (s.writer.inner = false → t.writer.inner = false) := by
  cases l with
  | write buf =>
    cases h
    exact .inl ⟨buf, rfl, rfl⟩
  | flush =>
    cases h
    rw [channel_pollFlush]
    exact .inr ⟨rfl, rfl, id⟩
  | shutdown =>
    cases h
    rw [channel_pollShutdown]
    exact .inr ⟨rfl, rfl, fun _ => rfl⟩
  | channel e =>
    obtain ⟨channel, htick, rfl⟩ := Option.map_eq_some_iff.mp h
    exact .inr ⟨rfl, Channel.sent_tick htick, id⟩
  | slots capacity =>
    cases h
    exact .inr ⟨rfl, rfl, id⟩

theorem exact_step (h : s.Exact into items) (hstep : step into s l = some t) :
    t.Exact into items := by
  rcases step_cases hstep with ⟨buf, rfl, rfl⟩ | ⟨hwrites, hsent, -⟩
  · rcases SenderWriter.sent_pollWrite into s.writer buf with ⟨hnone, hsent⟩ | ⟨hne, hall, hsent⟩
    · constructor
      · rw [acknowledged_snoc, hnone, if_neg (lt_irrefl 0), List.append_nil, hsent, h.sent]
      · intro buf' r hmem hpos
        rcases List.mem_append.mp hmem with hold | hnew
        · exact h.whole buf' r hold hpos
        · cases List.mem_singleton.mp hnew
          omega
    · have hpos : 0 < (s.writer.pollWrite into buf).1.accepted := by
        rw [hall]
        exact List.length_pos_of_ne_nil hne
      constructor
      · rw [acknowledged_snoc, if_pos hpos, hsent, h.sent, List.map_append, List.append_assoc]
        rfl
      · intro buf' r hmem hpos'
        rcases List.mem_append.mp hmem with hold | hnew
        · exact h.whole buf' r hold hpos'
        · cases List.mem_singleton.mp hnew
          exact ⟨hne, hall⟩
  · constructor
    · rw [hsent, hwrites, h.sent]
    · rw [hwrites]
      exact h.whole

/-- Without its sender a writer fails, but for an empty buffer. -/
theorem pollWrite_down {writer : SenderWriter Item} (h : writer.inner = false)
    (buf : List UInt8) : (writer.pollWrite into buf).2 = writer ∧
      (buf ≠ [] → (writer.pollWrite into buf).1 = .ready (.error SenderWriter.SENDER_IS_DOWN)) := by
  unfold SenderWriter.pollWrite
  rw [h]
  cases buf with
  | nil => exact ⟨rfl, fun hne => absurd rfl hne⟩
  | cons b buf => exact ⟨rfl, fun _ => rfl⟩

theorem down_step (h : s.Down items before) (hstep : step into s l = some t) :
    t.Down items before := by
  rcases step_cases hstep with ⟨buf, rfl, rfl⟩ | ⟨hwrites, hsent, hinner⟩
  · have hsame : (s.writer.pollWrite into buf).2 = s.writer := (pollWrite_down h.inner buf).1
    have hfails : buf ≠ [] →
        (s.writer.pollWrite into buf).1 = .ready (.error SenderWriter.SENDER_IS_DOWN) :=
      (pollWrite_down h.inner buf).2
    refine ⟨?_, ?_, ?_, fun buf' r hmem hne => ?_⟩
    · rw [hsame]
      exact h.inner
    · rw [hsame]
      exact h.sent
    · rw [List.length_append]
      exact Nat.le_add_right_of_le h.le
    · rw [List.drop_append_of_le_length h.le] at hmem
      rcases List.mem_append.mp hmem with hold | hnew
      · exact h.failed buf' r hold hne
      · cases List.mem_singleton.mp hnew
        exact ⟨_, hfails hne⟩
  · refine ⟨hinner h.inner, hsent.trans h.sent, hwrites ▸ h.le, ?_⟩
    rw [hwrites]
    exact h.failed

/-- A writer that has been polled in any way, over a channel that is full, free or closed at any
time: what it has put on the channel is the buffers that it acknowledged, each whole and in order,
a call without success has put nothing there, and after a shutdown no call does. -/
theorem enqueued_exactly {channel : Channel Item} {ls : List WriterLabel}
    (h : runs (step into) ⟨.new channel, []⟩ ls = some s) :
    s.writer.channel.sent = channel.sent ++ (acknowledged s.writes).map into ∧
    (∀ buf r, (buf, r) ∈ s.writes → 0 < r.accepted → buf ≠ [] ∧ r = .ready (.ok buf.length)) ∧
    (∀ buf, (s.writer.pollWrite into buf).1 = .pending ∨
        (∃ e, (s.writer.pollWrite into buf).1 = .ready (.error e)) →
      (s.writer.pollWrite into buf).2.channel.sent = s.writer.channel.sent) ∧
    ∀ writer ms t, s.writer.pollShutdown = (.ready (.ok ()), writer) →
      runs (step into) ⟨writer, s.writes⟩ ms = some t →
      t.writer.channel.sent = s.writer.channel.sent ∧
      ∀ buf r, (buf, r) ∈ t.writes.drop s.writes.length → buf ≠ [] →
        ∃ e, r = .ready (.error e) := by
  have hexact : s.Exact into channel.sent := by
    refine runs_invariant (fun _ _ _ hs hstep => exact_step hs hstep) h ?_
    exact ⟨(List.append_nil _).symm, fun buf r hmem => nomatch hmem⟩
  refine ⟨hexact.sent, hexact.whole, fun buf hfails => ?_, fun writer ms t hdown hrun => ?_⟩
  · rcases SenderWriter.sent_pollWrite into s.writer buf with ⟨-, hsent⟩ | ⟨-, hall, -⟩
    · exact hsent
    · rw [hall] at hfails
      rcases hfails with hfails | ⟨e, hfails⟩ <;> cases hfails
  · have hwriter : writer = { s.writer with inner := false } := by
      rw [← channel_pollShutdown, hdown]
    have hstart : (⟨writer, s.writes⟩ : Polled Item).Down s.writer.channel.sent
        s.writes.length := by
      refine ⟨by rw [hwriter], by rw [hwriter], le_rfl, fun buf r hmem => ?_⟩
      rw [List.drop_length] at hmem
      cases hmem
    have hend := runs_invariant (fun _ _ _ hs hstep => down_step hs hstep) hrun hstart
    exact ⟨hend.sent, hend.failed⟩

/-- A second buffer waits until the first is received, and a third comes after the shutdown. -/
def waits : List WriterLabel :=
  [.write [1, 2], .write [3], .channel .recv, .write [3], .shutdown, .write [4]]

theorem enqueued_exactly_waits : ∃ s : Polled (List UInt8),
    runs (step id) ⟨.new (Channel.new 1), []⟩ waits = some s ∧
      s.writer.channel.sent = [[1, 2], [3]] ∧ s.writes.length = 4 := by
  have h : runs (step id) ⟨.new (Channel.new 1), []⟩ waits = some (_ : Polled (List UInt8)) := rfl
  exact ⟨_, h, (enqueued_exactly h).1, rfl⟩

end Polled
end P9cpu.Cpu
