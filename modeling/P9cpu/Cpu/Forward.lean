import P9cpu.Core.Run
import P9cpu.Cpu.Error

/-! The task that `Server::ninep_forward` spawns: it copies 9P requests from the TCP
connection of the kernel to the client, and the items of `in_stream` back to it. -/
namespace P9cpu.Cpu.Forward
open Core
open Ninep (IoError)

abbrev Bytes := List UInt8

/-- Where the task waits. -/
inductive Pc
  /-- `tcp_listener_rx.recv().await` -/
  | accepting
  /-- both branches of the `select!` are polled -/
  | select
  /-- `tx.send(buf).await` in the body of the first branch -/
  | sending (buf : Bytes)
  /-- `writer.write(&in_item).await` in the body of the second branch -/
  | writing (inItem : Bytes)
  | done (ret : Except Error Unit)

structure State where
  pc : Pc
  /-- the queue of `mpsc::channel(10)` towards the client -/
  tx : List Bytes
  rxOpen : Bool
  /-- all bytes put on the TCP connection -/
  tcpOut : Bytes
  /-- the items taken from `in_stream` -/
  consumed : List Bytes

def start : State := ⟨.accepting, [], true, [], []⟩

def channelCapacity : ℕ := 10

/-- What the environment answers to the operation the task waits for, and what the
receiver of the channel does. -/
inductive Event
  | accepted
  | acceptFailed
  | listenerGone
  | setupFailed (e : IoError)
  | read (buf : Bytes)
  | readFailed (e : IoError)
  | item (inItem : Bytes)
  | endOfStream
  | sent
  | sendClosed
  | wrote (len : ℕ)
  | writeFailed (e : IoError)
  | clientTakes
  | clientDrops

def State.stop (s : State) (ret : Except Error Unit) : State := { s with pc := .done ret }

def step (s : State) : Event → Option State
  | .accepted =>
    match s.pc with
    | .accepting => some { s with pc := .select }
    | _ => none
  | .acceptFailed =>
    match s.pc with
    | .accepting => some (s.stop (.ok ()))
    | _ => none
  | .listenerGone =>
    match s.pc with
    | .accepting => some (s.stop (.error .channelClosed))
    | _ => none
  | .setupFailed e =>
    match s.pc with
    | .accepting => some (s.stop (.error (.ioErr e)))
    | _ => none
  | .read buf =>
    match s.pc with
    | .select =>
      if 128 < buf.length then none
      else if buf.length = 0 then some (s.stop (.ok ()))
      else some { s with pc := .sending buf }
    | _ => none
  | .readFailed e =>
    match s.pc with
    | .select => some (s.stop (.error (.ioErr e)))
    | _ => none
  | .item inItem =>
    match s.pc with
    | .select => some { s with pc := .writing inItem, consumed := s.consumed ++ [inItem] }
    | _ => none
  | .endOfStream =>
    match s.pc with
    | .select => some (s.stop (.ok ()))
    | _ => none
  | .sent =>
    match s.pc with
    | .sending buf =>
      if s.rxOpen ∧ s.tx.length < channelCapacity then
        some { s with pc := .select, tx := s.tx ++ [buf] }
      else none
    | _ => none
  | .sendClosed =>
    match s.pc with
    | .sending _ => if s.rxOpen then none else some (s.stop (.error .channelClosed))
    | _ => none
  | .wrote len =>
    match s.pc with
    | .writing inItem =>
      if inItem.length < len then none
      -- one `write`, so what it did not take is dropped with `in_item`
      else if len = 0 then some (s.stop (.ok ()))
      else some { s with pc := .select, tcpOut := s.tcpOut ++ inItem.take len }
    | _ => none
  | .writeFailed e =>
    match s.pc with
    | .writing _ => some (s.stop (.error (.ioErr e)))
    | _ => none
  | .clientTakes => if s.tx = [] then none else some { s with tx := s.tx.tail }
  | .clientDrops => some { s with rxOpen := false }

def State.stopped (s : State) : Bool :=
  match s.pc with
  | .done _ => true
  | _ => false

/-- The item that the task holds and has not written yet. -/
def State.held (s : State) : Bytes :=
  match s.pc with
  | .writing inItem => inItem
  | _ => []

/-- The loop goes on and no item is half done. -/
def State.Running (s : State) : Prop :=
  match s.pc with
  | .select | .sending _ => True
  | _ => False

/-- The socket takes the whole item that is offered to it. -/
def WholeWrite (s : State) (e : Event) : Prop :=
  ∀ inItem len, s.pc = .writing inItem → e = .wrote len → len = inItem.length

/-- How many consumed bytes are neither on the connection nor held by the task. -/
def State.lost (s : State) : ℤ := s.consumed.flatten.length - s.tcpOut.length - s.held.length

/-- One turn of the task: bytes are taken from `in_stream`, put on the connection, or left
alone. A task that ends keeps what it has done. -/
theorem step_cases {s t : State} {e : Event} (h : step s e = some t) :
    (t.tcpOut = s.tcpOut ∧ t.consumed = s.consumed ∧
      (t.held = s.held ∧ (s.stopped = true → t.stopped = true) ∨ t.stopped = true)) ∨
    (∃ inItem, e = .item inItem ∧ s.pc = .select ∧
      t = { s with pc := .writing inItem, consumed := s.consumed ++ [inItem] }) ∨
    (∃ inItem len, e = .wrote len ∧ s.pc = .writing inItem ∧ 0 < len ∧ len ≤ inItem.length ∧
      t = { s with pc := .select, tcpOut := s.tcpOut ++ inItem.take len }) := by
  cases e with
  | item inItem =>
    cases hpc : s.pc with
    | select =>
      simp only [step, hpc, Option.some.injEq] at h
      exact .inr (.inl ⟨inItem, rfl, rfl, h.symm⟩)
    | _ => simp [step, hpc] at h
  | wrote len =>
    cases hpc : s.pc with
    | writing inItem =>
      simp only [step, hpc] at h
      split_ifs at h with hlt h0
      · obtain rfl := Option.some.inj h
        exact .inl ⟨rfl, rfl, .inr rfl⟩
      · obtain rfl := Option.some.inj h
        exact .inr (.inr ⟨inItem, len, rfl, rfl, by omega, by omega, rfl⟩)
    | _ => simp [step, hpc] at h
  | clientTakes =>
    simp only [step] at h
    split_ifs at h
    obtain rfl := Option.some.inj h
    exact .inl ⟨rfl, rfl, .inl ⟨rfl, id⟩⟩
  | clientDrops =>
    obtain rfl := Option.some.inj h
    exact .inl ⟨rfl, rfl, .inl ⟨rfl, id⟩⟩
  | _ =>
    refine .inl ?_
    cases hpc : s.pc <;> simp only [step, hpc] at h <;> (try split_ifs at h) <;> cases h <;>
      simp [State.stop, State.held, State.stopped, hpc]

theorem stopped_of_step {s t : State} {e : Event} (h : step s e = some t)
    (hs : s.stopped = true) : t.stopped = true := by
  obtain ⟨-, -, ⟨-, ht⟩ | ht⟩ | ⟨_, -, hpc, -⟩ | ⟨_, _, -, hpc, -⟩ := step_cases h
  · exact ht hs
  · exact ht
  · simp [State.stopped, hpc] at hs
  · simp [State.stopped, hpc] at hs

/-- What the connection has, followed by what the task holds, is what was consumed. -/
def State.Kept (s : State) : Prop :=
  s.stopped = true ∨ s.tcpOut ++ s.held = s.consumed.flatten

theorem kept_step (s : State) (e : Event) (t : State) (hs : s.Kept) (hw : WholeWrite s e)
    (h : step s e = some t) : t.Kept := by
  obtain hs | hs := hs
  · exact .inl (stopped_of_step h hs)
  obtain ⟨ho, hc, ⟨hh, -⟩ | ht⟩ | ⟨x, -, hpc, rfl⟩ | ⟨x, len, he, hpc, -, -, rfl⟩ := step_cases h
  · right
    rw [ho, hh, hc, hs]
  · exact .inl ht
  · right
    simp only [State.held, hpc, List.append_nil] at hs
    simp [State.held, hs]
  · right
    have hlen : len = x.length := hw x len hpc he
    simp only [State.held, hpc] at hs
    simp [State.held, hlen, hs]

theorem kept_run {s : State} {es : List Event} (h : runs step start es = some s)
    (hw : Along step WholeWrite start es) : s.Kept :=
  runs_invariant_along kept_step hw h (.inr rfl)

theorem lost_le_of_step {s t : State} {e : Event} (h : step s e = some t) : s.lost ≤ t.lost := by
  obtain ⟨ho, hc, ⟨hh, -⟩ | ht⟩ | ⟨x, -, hpc, rfl⟩ | ⟨x, len, -, hpc, -, hlen, rfl⟩ := step_cases h
  · simp [State.lost, ho, hc, hh]
  · have hh : t.held = [] := by
      cases hpc : t.pc <;> simp_all [State.held, State.stopped]
    simp only [State.lost, ho, hc, hh, List.length_nil]
    omega
  · simp [State.lost, State.held, hpc]
    omega
  · simp [State.lost, State.held, hpc]
    omega

theorem lost_lt_of_partial {s t : State} {e : Event} (h : step s e = some t)
    (hw : ¬ WholeWrite s e) : s.lost < t.lost := by
  simp only [WholeWrite, not_forall] at hw
  obtain ⟨x, len, hpc, rfl, hne⟩ := hw
  obtain ⟨ho, hc, hh⟩ | ⟨x, he, -⟩ | ⟨y, m, he, hpc', -, hlen, rfl⟩ := step_cases h
  · -- the socket took nothing and the task ended with the item in hand
    simp only [step, hpc] at h
    split_ifs at h with hlt h0
    · obtain rfl := Option.some.inj h
      simp [State.lost, State.held, State.stop, hpc]
      omega
    · obtain rfl := Option.some.inj h
      have : len = 0 ∨ x = [] := by simpa using ho
      cases this <;> simp_all
  · cases he
  · cases he
    rw [hpc] at hpc'
    cases hpc'
    simp [State.lost, State.held, hpc]
    omega

/-- Lost bytes stay lost, so a run that ends with none wrote every item whole. -/
theorem along_wholeWrite {s t : State} {es : List Event} (h : runs step s es = some t)
    (hs : 0 ≤ s.lost) (ht : t.lost ≤ 0) : Along step WholeWrite s es := by
  induction es generalizing s with
  | nil => trivial
  | cons e es ih =>
    obtain ⟨u, hu, hr⟩ := runs_cons_eq_some.mp h
    have hsu : s.lost ≤ u.lost := lost_le_of_step hu
    have hut : u.lost ≤ t.lost := runs_relation (R := fun s t => s.lost ≤ t.lost)
      (fun _ => Int.le_refl _) (fun _ _ _ => Int.le_trans) (fun _ _ _ => lost_le_of_step) hr
    refine ⟨?_, fun v hv => ?_⟩
    · by_contra hw
      have := lost_lt_of_partial hu hw
      omega
    · obtain rfl := Option.some.inj (hu.symm.trans hv)
      exact ih hr (by omega)

theorem held_of_running {s : State} (h : s.Running) : s.held = [] := by
  unfold State.Running at h
  split at h <;> simp_all [State.held]

theorem stopped_of_running {s : State} (h : s.Running) : s.stopped = false := by
  unfold State.Running at h
  split at h <;> simp_all [State.stopped]

/-- While the loop runs, the connection has the consumed items, each once and in order, if
and only if the socket took every item it was offered as a whole. -/
theorem tcpOut_eq_flatten_iff {s : State} {es : List Event} (h : runs step start es = some s)
    (hs : s.Running) :
    s.tcpOut = s.consumed.flatten ↔ Along step WholeWrite start es := by
  constructor
  · intro ho
    refine along_wholeWrite h (Int.le_refl _) ?_
    simp [State.lost, ho, held_of_running hs]
  · intro hw
    obtain hstop | hkept := kept_run h hw
    · simp [stopped_of_running hs] at hstop
    · simpa [held_of_running hs] using hkept

theorem tcpOut_eq_flatten_iff_twoItems :
    ([1, 2, 3] : Bytes) = [[1, 2], [3]].flatten ↔
      Along step WholeWrite start [.accepted, .item [1, 2], .wrote 2, .item [3], .wrote 1] :=
  tcpOut_eq_flatten_iff (s := ⟨.select, [], true, [1, 2, 3], [[1, 2], [3]]⟩) rfl trivial

/-- An item of two bytes of which the socket takes one: the other byte never follows. -/
theorem tcpOut_ne_flatten :
    ¬ ∀ (es : List Event) (s : State), runs step start es = some s → s.Running →
      (∀ x ∈ s.consumed, x ≠ []) → s.tcpOut = s.consumed.flatten := by
  intro h
  have := h [.accepted, .item [1, 2], .wrote 1] ⟨.select, [], true, [1], [[1, 2]]⟩ rfl trivial
    (by decide)
  simp at this

end P9cpu.Cpu.Forward
