import P9cpu.Cpu.Forward
import P9cpu.Cpu.SenderWriter
import P9cpu.Cpu.StreamReader
import P9cpu.Ninep.Intake

/-! 9P from end to end: what the kernel of the server sends on its TCP connection comes in pieces
to the `dispatch` of the client, and the replies go back to it. -/
namespace P9cpu.Cpu
open Core
open Ninep

namespace Reading
open StreamReader

/-- The answer of a call, with the bytes that are in the buffer then. -/
def answer : Poll (Except IoError Unit) × StreamReader × ReadBuf →
    Poll (Except IoError (List UInt8))
  | (.pending, _) => .pending
  | (.ready (.error e), _) => .ready (.error e)
  | (.ready (.ok _), _, buf) => .ready (.ok buf.filled)

/-- A read into an empty buffer with this much room. -/
def pollRead (s : Reading) (room : ℕ) : Poll (Except IoError (List UInt8)) × Reading :=
  (answer (s.reader.pollRead (.ofCapacity room)), s.read (.ofCapacity room))

/-- A `StreamReader` reports no error. -/
theorem pollRead_ne_error (s : Reading) (room : ℕ) (e : IoError) :
    (s.pollRead room).1 ≠ .ready (.error e) := by
  have hcall := call_of_pollRead s.reader (.ofCapacity room)
  unfold pollRead
  generalize s.reader.pollRead (.ofCapacity room) = called at *
  obtain ⟨result, reader, buf'⟩ := called
  dsimp only at hcall
  cases hcall <;> simp [answer]

theorem delivered_pollRead (s : Reading) (room : ℕ) :
    (s.pollRead room).2.delivered = s.delivered ++ (s.pollRead room).1.taken := by
  obtain ⟨put, hmoves⟩ := moves_pollRead s.reader (.ofCapacity room)
  have hnot := s.pollRead_ne_error room
  unfold pollRead read at *
  generalize s.reader.pollRead (.ofCapacity room) = called at *
  obtain ⟨(e | u) | _, reader, buf'⟩ := called
  · exact absurd rfl (hnot e)
  · rfl
  · have hfilled := hmoves.filled
    rw [hmoves.pending rfl, List.append_nil] at hfilled
    dsimp only [answer, Poll.taken]
    rw [hfilled, List.drop_length]

/-- The reader that is given to `dispatch`. -/
def asyncRead : AsyncRead IoError where
  State := Reading
  Event := Empty
  pollRead := pollRead
  tick e _ := nomatch e
  input := delivered
  input_pollRead := delivered_pollRead
  input_tick e _ _ _ := nomatch e

/-- A read takes one answer of the stream, or none. -/
theorem polled_read (s : Reading) (buf : ReadBuf) :
    (s.read buf).reader.inner = s.reader.inner ∧
      ((s.read buf).reader.polled = s.reader.polled ∨
        (s.read buf).reader.polled = s.reader.polled + 1) := by
  have hcall := call_of_pollRead s.reader buf
  unfold read
  generalize s.reader.pollRead buf = called at *
  obtain ⟨result, reader, buf'⟩ := called
  dsimp only at hcall ⊢
  cases hcall with
  | full | copied => exact ⟨rfl, .inl rfl⟩
  | pending | ended | empty | took => exact ⟨rfl, .inr rfl⟩

/-- A read that hands out nothing has got the end of the stream, or an empty item. -/
theorem end_of_pollRead {s : Reading} {room : ℕ} (hroom : 0 < room)
    (h : (s.pollRead room).1 = .ready (.ok [])) :
    (s.pollRead room).2.reader.polled = s.reader.polled + 1 ∧
      (s.reader.inner s.reader.polled = .ready none ∨
        s.reader.inner s.reader.polled = .ready (some [])) := by
  have heof : s.Eof (.ofCapacity room) := by
    unfold pollRead at h
    unfold Eof
    generalize s.reader.pollRead (.ofCapacity room) = called at *
    obtain ⟨(e | u) | _, reader, buf'⟩ := called
    · cases h
    · have hfilled : buf'.filled = [] := by
        simpa [answer] using h
      exact ⟨rfl, hfilled⟩
    · cases h
  have hremaining : 0 < (ReadBuf.ofCapacity room).remaining := by
    rw [ReadBuf.remaining_ofCapacity]
    exact hroom
  obtain ⟨-, hpolled, -, hend⟩ := heof.poll hremaining
  exact ⟨hpolled, hend⟩

end Reading

namespace Forward

/-- The bytes that the task has read and not put into its channel. -/
def State.inHand (s : State) : Bytes :=
  match s.pc with
  | .sending buf => buf
  | _ => []

theorem read_of_step {s t : State} {buf : Bytes} (h : step s (.read buf) = some t) :
    s.pc = .select ∧ t.tx = s.tx ∧ (t.stopped = true ∨ t.pc = .sending buf ∧ buf ≠ []) := by
  simp only [step] at h
  split at h
  · rename_i hpc
    split_ifs at h with hlong hnil
    · cases h
      exact ⟨hpc, rfl, .inl rfl⟩
    · cases h
      exact ⟨hpc, rfl, .inr ⟨rfl, fun hbuf => hnil (by rw [hbuf]; rfl)⟩⟩
  · cases h

theorem takes_of_step {s t : State} (h : step s .clientTakes = some t) :
    t.pc = s.pc ∧ t.tx = s.tx.tail := by
  simp only [step] at h
  split_ifs at h
  cases h
  exact ⟨rfl, rfl⟩

/-- Another event puts into the channel what was read, or keeps it, or ends the task. -/
theorem sends_of_step {s t : State} {e : Event} (hread : ∀ buf, e ≠ .read buf)
    (htakes : e ≠ .clientTakes) (h : step s e = some t) :
    (∃ buf, s.pc = .sending buf ∧ t.pc = .select ∧ t.tx = s.tx ++ [buf]) ∨
      t.tx = s.tx ∧ (t.stopped = true ∨ s.stopped = false ∧ t.inHand = s.inHand ∧
        ∀ buf, t.pc = .sending buf → s.pc = .sending buf) := by
  cases e with
  | read buf => exact absurd rfl (hread buf)
  | clientTakes => exact absurd rfl htakes
  | clientDrops =>
    cases h
    by_cases hstop : s.stopped = true
    · exact .inr ⟨rfl, .inl hstop⟩
    · exact .inr ⟨rfl, .inr ⟨by simpa using hstop, rfl, fun buf hbuf => hbuf⟩⟩
  | _ =>
    cases hpc : s.pc <;> simp only [step, hpc] at h <;> (try split_ifs at h) <;> cases h <;>
      simp [State.stop, State.stopped, State.inHand, hpc]

end Forward

/-- The writer that is given to `dispatch`: its items are vectors of bytes. -/
abbrev ninepWriter : AsyncWrite IoError :=
  SenderWriter.asyncWrite (id : List UInt8 → List UInt8) id fun _ => rfl

section
variable {Op : Type} {Res : Op → Type}

/-- The forwarding task of the server, the `dispatch` of the client, and what is between them. -/
structure Tunnel (W : World Op Res) where
  /-- all bytes that the kernel has sent -/
  sent : List UInt8
  /-- those that the task has not read -/
  unread : List UInt8
  forward : Forward.State
  /-- the items on their way from the task to the client -/
  down : List (List UInt8)
  client : Service W Reading.asyncRead ninepWriter

namespace Tunnel

inductive Label (W : World Op Res)
  | kernel (bytes : List UInt8)
  | forward (e : Forward.Event)
  | client (l : ServiceLabel W Reading.asyncRead ninepWriter)

variable {W : World Op Res} {fs : Filesystem Op Res}

def reading (s : Tunnel W) : Reading := s.client.framedread.inner

/-- How many polls the stream of the client has answered. -/
def polled (s : Tunnel W) : ℕ := s.reading.reader.polled

/-- The items that the server has got from the client. -/
def up (s : Tunnel W) : List (List UInt8) := s.client.dispatch.framedwrite.inner.channel.received

/-- What an event of the task is to the kernel and to the streams of the call. -/
def link (s : Tunnel W) : Forward.Event → Option (Tunnel W)
  | .read buf => if buf <+: s.unread then some { s with unread := s.unread.drop buf.length } else none
  | .item inItem => if s.up[s.forward.consumed.length]? = some inItem then some s else none
  | .clientTakes => some { s with down := s.down ++ s.forward.tx.take 1 }
  | _ => some s

/-- The client has gone on. The stream answers it with the items in their order; it can end at any
time. -/
def goOn (s : Tunnel W) (client : Service W Reading.asyncRead ninepWriter) : Option (Tunnel W) :=
  if client.framedread.inner.reader.polled = s.polled then some { s with client := client }
  else
    match s.reading.reader.inner s.polled with
    | .ready (some item) =>
      if s.down.head? = some item then some { s with client := client, down := s.down.tail }
      else none
    | _ => some { s with client := client }

def step (fs : Filesystem Op Res) (s : Tunnel W) : Label W → Option (Tunnel W)
  | .kernel bytes => some { s with sent := s.sent ++ bytes, unread := s.unread ++ bytes }
  | .forward e =>
    (s.link e).bind fun t =>
      (Forward.step s.forward e).map fun forward => { t with forward := forward }
  | .client l => (Service.step fs s.client l).bind s.goOn

/-- The stream of the client will answer its polls with `polls`. -/
def start (polls : Polls) (fids : FidTable) (nextAux : ObjId) (world : W.State) : Tunnel W :=
  ⟨[], [], Forward.start, [], Service.start fids nextAux world (Reading.start polls)
    (SenderWriter.new (Channel.new 1))⟩

/-- The socket takes the whole item that the task writes. -/
def WholeWrite (s : Tunnel W) (l : Label W) : Prop :=
  ∀ e, l = .forward e → Forward.WholeWrite s.forward e

/-- What the stream answers to the next poll of the client. -/
structure Answered (s : Tunnel W) (down : List (List UInt8)) : Prop where
  flatten : s.down.flatten = s.reading.reader.inner.item s.polled ++ down.flatten
  rest : ∀ x ∈ down, x ∈ s.down
  item : ∀ x, s.reading.reader.inner s.polled = .ready (some x) → x ∈ s.down

/-- What a step can do. -/
inductive Steps (fs : Filesystem Op Res) (s : Tunnel W) : Label W → Tunnel W → Prop
  | sent (bytes : List UInt8) :
      Steps fs s (.kernel bytes) { s with sent := s.sent ++ bytes, unread := s.unread ++ bytes }
  | read (buf : List UInt8) (forward : Forward.State) (hbuf : buf <+: s.unread)
      (h : Forward.step s.forward (.read buf) = some forward) :
      Steps fs s (.forward (.read buf))
        { s with unread := s.unread.drop buf.length, forward := forward }
  | took (forward : Forward.State) (h : Forward.step s.forward .clientTakes = some forward) :
      Steps fs s (.forward .clientTakes)
        { s with down := s.down ++ s.forward.tx.take 1, forward := forward }
  | moved (e : Forward.Event) (forward : Forward.State)
      (hread : ∀ buf, e ≠ .read buf) (htakes : e ≠ .clientTakes)
      (hitem : ∀ x, e = .item x → s.up[s.forward.consumed.length]? = some x)
      (h : Forward.step s.forward e = some forward) :
      Steps fs s (.forward e) { s with forward := forward }
  | client (l : ServiceLabel W Reading.asyncRead ninepWriter)
      (client : Service W Reading.asyncRead ninepWriter) (down : List (List UInt8))
      (h : Service.step fs s.client l = some client)
      (hdown : client.framedread.inner.reader.polled = s.polled ∧ down = s.down ∨
        client.framedread.inner.reader.polled ≠ s.polled ∧ s.Answered down) :
      Steps fs s (.client l) { s with client := client, down := down }

theorem steps_of_step {s t : Tunnel W} {l : Label W} (h : step fs s l = some t) :
    Steps fs s l t := by
  cases l with
  | kernel bytes =>
    cases h
    exact .sent bytes
  | forward e =>
    obtain ⟨u, hlink, hmap⟩ := Option.bind_eq_some_iff.mp h
    obtain ⟨forward, hforward, rfl⟩ := Option.map_eq_some_iff.mp hmap
    cases e with
    | read buf =>
      simp only [link] at hlink
      split_ifs at hlink with hbuf
      cases hlink
      exact .read buf forward hbuf hforward
    | item x =>
      simp only [link] at hlink
      split_ifs at hlink with hitem
      cases hlink
      refine .moved _ forward (by simp) (by simp) (fun y hy => ?_) hforward
      cases hy
      exact hitem
    | clientTakes =>
      cases hlink
      exact .took forward hforward
    | _ =>
      cases hlink
      exact .moved _ forward (by simp) (by simp) (by simp) hforward
  | client l =>
    obtain ⟨client, hclient, hgo⟩ := Option.bind_eq_some_iff.mp h
    unfold goOn at hgo
    by_cases hsame : client.framedread.inner.reader.polled = s.polled
    · rw [if_pos hsame] at hgo
      cases hgo
      exact .client l client s.down hclient (.inl ⟨hsame, rfl⟩)
    · rw [if_neg hsame] at hgo
      rcases hpoll : s.reading.reader.inner s.polled with (_ | item) | _
      · rw [hpoll] at hgo
        cases hgo
        refine .client l client s.down hclient (.inr ⟨hsame, ?_, fun x hx => hx, by simp [hpoll]⟩)
        simp [Polls.item, hpoll]
      · rw [hpoll] at hgo
        dsimp only at hgo
        split_ifs at hgo with hhead
        cases hgo
        obtain ⟨down, hdown⟩ : ∃ down, s.down = item :: down := by
          cases hs : s.down with
          | nil => simp [hs] at hhead
          | cons x xs =>
            rw [hs] at hhead
            cases hhead
            exact ⟨xs, rfl⟩
        refine .client l client s.down.tail hclient (.inr ⟨hsame, ?_, ?_, ?_⟩)
        · simp [Polls.item, hpoll, hdown]
        · intro x hx
          exact List.mem_of_mem_tail hx
        · intro x hx
          rw [hpoll] at hx
          cases hx
          rw [hdown]
          exact List.mem_cons_self
      · rw [hpoll] at hgo
        cases hgo
        refine .client l client s.down hclient (.inr ⟨hsame, ?_, fun x hx => hx, by simp [hpoll]⟩)
        simp [Polls.item, hpoll]

/-- What the kernel has sent was taken by the reader of the client, is in an item on its way, or was
not sent on; no item is empty, so the reader sees no end before that of the stream. -/
structure Carries (polls : Polls) (s : Tunnel W) : Prop where
  conserves : s.reading.Conserves polls
  sent : ∃ rest, s.sent = polls.items 0 s.polled ++ s.down.flatten ++ s.forward.tx.flatten ++ rest ∧
    (s.forward.stopped = false → rest = s.forward.inHand ++ s.unread)
  down : ∀ x ∈ s.down, x ≠ []
  tx : ∀ x ∈ s.forward.tx, x ≠ []
  inHand : ∀ buf, s.forward.pc = .sending buf → buf ≠ []
  eof : s.client.framedread.eof = true → s.reading.Ended

variable {polls : Polls} {s t : Tunnel W}

theorem carries_start (polls : Polls) (fids : FidTable) (nextAux : ObjId) (world : W.State) :
    (start polls fids nextAux world).Carries polls := by
  constructor
  · exact Reading.conserves_start polls
  · exact ⟨[], rfl, fun _ => rfl⟩
  · intro x hx
    cases hx
  · intro x hx
    cases hx
  · intro buf hbuf
    cases hbuf
  · intro h
    cases h

/-- The reader stays at its end. -/
theorem ended_of_le {r r' : Reading} (hinner : r'.reader.inner = r.reader.inner)
    (hpolled : r.reader.polled ≤ r'.reader.polled) (h : r.Ended) : r'.Ended := by
  obtain ⟨k, hk, hnone⟩ := h
  exact ⟨k, by omega, by rw [hinner, hnone]⟩

theorem carries_same (hs : s.Carries polls) {client : Service W Reading.asyncRead ninepWriter}
    (hinner : client.framedread.inner = s.reading)
    (heof : client.framedread.eof = s.client.framedread.eof) :
    ({ s with client := client } : Tunnel W).Carries polls := by
  have hreading : ({ s with client := client } : Tunnel W).reading = s.reading := hinner
  constructor
  · rw [hreading]
    exact hs.conserves
  · unfold polled
    rw [hreading]
    exact hs.sent
  · exact hs.down
  · exact hs.tx
  · exact hs.inHand
  · rw [hreading]
    intro h
    exact hs.eof (heof.symm.trans h)

/-- A read that takes nothing from the stream. -/
theorem carries_read (hs : s.Carries polls) {client : Service W Reading.asyncRead ninepWriter}
    {room : ℕ} (hroom : 0 < room) (hinner : client.framedread.inner = (s.reading.pollRead room).2)
    (heof : client.framedread.eof = true → s.client.framedread.eof = true ∨
      (s.reading.pollRead room).1 = .ready (.ok []))
    (hpolled : client.framedread.inner.reader.polled = s.polled) :
    ({ s with client := client } : Tunnel W).Carries polls := by
  have hread : client.framedread.inner = s.reading.read (.ofCapacity room) := hinner
  have hconserves := hs.conserves.read (.ofCapacity room)
  rw [← hread] at hconserves
  constructor
  · exact hconserves
  · obtain ⟨rest, hsent, hrest⟩ := hs.sent
    refine ⟨rest, ?_, hrest⟩
    rw [← hpolled] at hsent
    exact hsent
  · exact hs.down
  · exact hs.tx
  · exact hs.inHand
  · intro h
    obtain hold | hnil := heof h
    · refine ended_of_le ?_ hpolled.ge (hs.eof hold)
      exact hconserves.inner.trans hs.conserves.inner.symm
    · -- the end would be one more answer
      have hmore := (Reading.end_of_pollRead hroom hnil).1
      rw [← hinner, hpolled] at hmore
      exact absurd hmore (Nat.ne_of_lt (Nat.lt_succ_self _))

/-- A read that takes the next answer of the stream. -/
theorem carries_answer (hs : s.Carries polls) {client : Service W Reading.asyncRead ninepWriter}
    {down : List (List UInt8)} {room : ℕ} (hroom : 0 < room)
    (hinner : client.framedread.inner = (s.reading.pollRead room).2)
    (heof : client.framedread.eof = true → s.client.framedread.eof = true ∨
      (s.reading.pollRead room).1 = .ready (.ok []))
    (hpolled : client.framedread.inner.reader.polled = s.polled + 1) (hdown : s.Answered down) :
    ({ s with client := client, down := down } : Tunnel W).Carries polls := by
  have hread : client.framedread.inner = s.reading.read (.ofCapacity room) := hinner
  have hconserves := hs.conserves.read (.ofCapacity room)
  rw [← hread] at hconserves
  constructor
  · exact hconserves
  · obtain ⟨rest, hsent, hrest⟩ := hs.sent
    refine ⟨rest, ?_, hrest⟩
    have hitems := polls.items_append 0 s.polled 1
    rw [Nat.zero_add, Polls.items_one, ← hpolled] at hitems
    have hflatten := hdown.flatten
    rw [hs.conserves.inner] at hflatten
    change s.sent = polls.items 0 client.framedread.inner.reader.polled ++ _ ++ _ ++ _
    rw [hsent, hflatten, ← hitems]
    simp only [List.append_assoc]
  · intro x hx
    exact hs.down x (hdown.rest x hx)
  · exact hs.tx
  · exact hs.inHand
  · have hsame : client.framedread.inner.reader.inner = s.reading.reader.inner :=
      hconserves.inner.trans hs.conserves.inner.symm
    intro h
    obtain hold | hnil := heof h
    · have hle : s.polled ≤ client.framedread.inner.reader.polled := by
        rw [hpolled]
        exact Nat.le_succ _
      exact ended_of_le hsame hle (hs.eof hold)
    · obtain hnone | hempty := (Reading.end_of_pollRead hroom hnil).2
      · refine ⟨s.polled, ?_, ?_⟩
        · change s.polled < client.framedread.inner.reader.polled
          rw [hpolled]
          exact Nat.lt_succ_self _
        · change client.framedread.inner.reader.inner s.polled = _
          rw [hsame]
          exact hnone
      · exact absurd rfl (hs.down [] (hdown.item [] hempty))

/-- The client takes the next answer of the stream, or none. -/
theorem carries_client (hs : s.Carries polls) {l : ServiceLabel W Reading.asyncRead ninepWriter}
    {client : Service W Reading.asyncRead ninepWriter} {down : List (List UInt8)}
    (h : Service.step fs s.client l = some client)
    (hdown : client.framedread.inner.reader.polled = s.polled ∧ down = s.down ∨
      client.framedread.inner.reader.polled ≠ s.polled ∧ s.Answered down) :
    ({ s with client := client, down := down } : Tunnel W).Carries polls := by
  obtain ⟨hinner, heof⟩ | ⟨room, hroom, hinner, heof⟩ | ⟨e, -⟩ := Service.reader_of_step h
  · obtain ⟨-, rfl⟩ | ⟨hne, -⟩ := hdown
    · exact carries_same hs hinner heof
    · exact absurd (congrArg (fun r : Reading => r.reader.polled) hinner) hne
  · obtain ⟨hsame, rfl⟩ | ⟨hne, hanswered⟩ := hdown
    · exact carries_read hs hroom hinner heof hsame
    · have hstep := (s.reading.polled_read (.ofCapacity room)).2
      have hread : client.framedread.inner = s.reading.read (.ofCapacity room) := hinner
      rw [← hread] at hstep
      obtain hsame | hmore := hstep
      · exact absurd hsame hne
      · exact carries_answer hs hroom hinner heof hmore hanswered
  · cases e

theorem carries_step (s : Tunnel W) (l : Label W) (t : Tunnel W) (hs : s.Carries polls)
    (h : step fs s l = some t) : t.Carries polls := by
  obtain ⟨rest, hsent, hrest⟩ := hs.sent
  cases steps_of_step h with
  | sent bytes =>
    refine ⟨hs.conserves, ⟨rest ++ bytes, ?_, fun hgo => ?_⟩, hs.down, hs.tx, hs.inHand, hs.eof⟩
    · dsimp only
      rw [hsent]
      exact List.append_assoc _ _ _
    · dsimp only at hgo ⊢
      rw [hrest hgo, List.append_assoc]
  | read buf forward hbuf hforward =>
    obtain ⟨hpc, htx, hnext⟩ := Forward.read_of_step hforward
    have hgo : s.forward.stopped = false := by simp [Forward.State.stopped, hpc]
    have hunread : rest = buf ++ s.unread.drop buf.length := by
      obtain ⟨more, hmore⟩ := hbuf
      rw [hrest hgo, ← hmore, List.drop_left]
      simp [Forward.State.inHand, hpc]
    refine ⟨hs.conserves, ⟨rest, ?_, fun hstill => ?_⟩, hs.down, ?_, fun b hb => ?_, hs.eof⟩
    · dsimp only
      rw [htx]
      exact hsent
    · obtain hstop | ⟨hsending, -⟩ := hnext
      · exact absurd (hstop.symm.trans hstill) (by simp)
      · dsimp only
        rw [hunread, Forward.State.inHand, hsending]
    · dsimp only
      rw [htx]
      exact hs.tx
    · dsimp only at hb
      obtain hstop | ⟨hsending, hne⟩ := hnext
      · simp [Forward.State.stopped, hb] at hstop
      · rw [hsending] at hb
        cases hb
        exact hne
  | took forward hforward =>
    obtain ⟨hpc, htx⟩ := Forward.takes_of_step hforward
    have hsplit : s.forward.tx = s.forward.tx.take 1 ++ forward.tx := by
      rw [htx, ← List.drop_one, List.take_append_drop]
    refine ⟨hs.conserves, ⟨rest, ?_, fun hstill => ?_⟩, ?_, ?_, fun b hb => ?_, hs.eof⟩
    · rw [hsplit] at hsent
      dsimp only
      rw [hsent, List.flatten_append, List.flatten_append]
      simp only [List.append_assoc]
      rfl
    · dsimp only at hstill ⊢
      have hgo : s.forward.stopped = false := by
        unfold Forward.State.stopped at hstill ⊢
        rwa [hpc] at hstill
      rw [hrest hgo]
      unfold Forward.State.inHand
      rw [hpc]
    · intro x hx
      obtain hx | hx := List.mem_append.mp hx
      · exact hs.down x hx
      · exact hs.tx x (List.mem_of_mem_take hx)
    · intro x hx
      dsimp only at hx
      rw [htx] at hx
      exact hs.tx x (List.mem_of_mem_tail hx)
    · dsimp only at hb
      rw [hpc] at hb
      exact hs.inHand b hb
  | moved e forward hread htakes hitem hforward =>
    obtain ⟨buf, hpc, hnext, htx⟩ | ⟨htx, hkept⟩ := Forward.sends_of_step hread htakes hforward
    · have hgo : s.forward.stopped = false := by simp [Forward.State.stopped, hpc]
      have hbuf : rest = buf ++ s.unread := by
        rw [hrest hgo]
        simp [Forward.State.inHand, hpc]
      refine ⟨hs.conserves, ⟨s.unread, ?_, fun _ => ?_⟩, hs.down, ?_, fun b hb => ?_, hs.eof⟩
      · dsimp only
        rw [hsent, hbuf, htx, List.flatten_append, List.flatten_singleton]
        simp only [List.append_assoc]
        rfl
      · dsimp only
        simp [Forward.State.inHand, hnext]
      · intro x hx
        dsimp only at hx
        rw [htx] at hx
        obtain hx | hx := List.mem_append.mp hx
        · exact hs.tx x hx
        · obtain rfl := List.mem_singleton.mp hx
          exact hs.inHand x hpc
      · dsimp only at hb
        rw [hnext] at hb
        cases hb
    · refine ⟨hs.conserves, ⟨rest, ?_, fun hstill => ?_⟩, hs.down, ?_, fun b hb => ?_, hs.eof⟩
      · dsimp only
        rw [htx]
        exact hsent
      · obtain hstop | ⟨hgo, hhand, -⟩ := hkept
        · exact absurd (hstop.symm.trans hstill) (by simp)
        · dsimp only
          rw [hhand, hrest hgo]
      · dsimp only
        rw [htx]
        exact hs.tx
      · dsimp only at hb
        obtain hstop | ⟨-, -, hback⟩ := hkept
        · simp [Forward.State.stopped, hb] at hstop
        · exact hs.inHand b (hback b hb)
  | client l client down hclient hdown => exact carries_client hs hclient hdown

/-! The replies. -/

theorem received_pollWrite (writer : SenderWriter (List UInt8)) (buf : List UInt8) :
    (writer.pollWrite id buf).2.channel.received = writer.channel.received := by
  have hreserve : writer.channel.pollReserve.2.received = writer.channel.received := by
    unfold Channel.pollReserve
    split_ifs <;> rfl
  unfold SenderWriter.pollWrite
  split_ifs
  · rfl
  · rcases hpoll : writer.channel.pollReserve with ⟨(e | _) | _, channel⟩
    all_goals rw [hpoll] at hreserve
    · exact hreserve
    · rw [← hreserve]
      dsimp only
      unfold Channel.sendItem
      split_ifs <;> rfl
    · exact hreserve
  · rfl

/-- The items that have come to the server stay. -/
theorem received_of_dispatch {d u : Dispatch W ninepWriter} {l : SendLabel W ninepWriter}
    (h : Dispatch.step fs d l = some u) :
    d.framedwrite.inner.channel.received <+: u.framedwrite.inner.channel.received := by
  obtain hsame | hflush | hwrite | ⟨e, htick⟩ := Dispatch.writer_of_step h
  · rw [hsame]
  · rw [hflush]
    change _ <+: (SenderWriter.pollFlush _).2.channel.received
    unfold SenderWriter.pollFlush
    split_ifs <;> exact List.prefix_rfl
  · have hreceived := received_pollWrite d.framedwrite.inner d.framedwrite.buffer
    rw [hwrite]
    exact hreceived.symm ▸ List.prefix_rfl
  · obtain ⟨channel, hchannel, hinner⟩ := Option.map_eq_some_iff.mp htick
    rw [← hinner]
    cases e with
    | recv =>
      simp only [Channel.tick] at hchannel
      split at hchannel
      · cases hchannel
      · cases hchannel
        exact List.prefix_append _ _
    | close | closeReserved =>
      cases hchannel
      exact List.prefix_rfl

/-- The task has consumed the first items of the client, and has written them. -/
structure Returns (s : Tunnel W) : Prop where
  consumed : s.forward.consumed <+: s.up
  out : s.forward.tcpOut <+: s.forward.consumed.flatten
  kept : s.forward.stopped = false →
    s.forward.tcpOut ++ s.forward.held = s.forward.consumed.flatten

theorem returns_forward (hs : s.Returns) {e : Forward.Event} {forward : Forward.State}
    (hitem : ∀ x, e = .item x → s.up[s.forward.consumed.length]? = some x)
    (hwhole : Forward.WholeWrite s.forward e) (h : Forward.step s.forward e = some forward)
    {u : Tunnel W} (hu : u.forward = forward) (hup : u.up = s.up) : u.Returns := by
  subst hu
  obtain ⟨hout, hconsumed, hnext⟩ | ⟨x, rfl, hpc, hforward⟩ | ⟨x, len, rfl, hpc, -, -, hforward⟩ :=
    Forward.step_cases h
  · constructor
    · rw [hconsumed, hup]
      exact hs.consumed
    · rw [hout, hconsumed]
      exact hs.out
    · intro hgo
      obtain ⟨hheld, hback⟩ | hstop := hnext
      · have hbefore : s.forward.stopped = false := by
          by_contra hstop
          have := hback (by simpa using hstop)
          exact absurd (this.symm.trans hgo) (by simp)
        rw [hout, hheld, hconsumed]
        exact hs.kept hbefore
      · exact absurd (hstop.symm.trans hgo) (by simp)
  · have hgo : s.forward.stopped = false := by simp [Forward.State.stopped, hpc]
    have hkept := hs.kept hgo
    have hheld : s.forward.held = [] := by simp [Forward.State.held, hpc]
    rw [hheld, List.append_nil] at hkept
    constructor
    · rw [hforward, hup]
      obtain ⟨more, hmore⟩ := hs.consumed
      have hx := hitem x rfl
      rw [← hmore, List.getElem?_append_right (Nat.le_refl _), Nat.sub_self] at hx
      obtain ⟨more, rfl⟩ : ∃ rest, more = x :: rest := by
        cases more with
        | nil => cases hx
        | cons y rest =>
          cases hx
          exact ⟨rest, rfl⟩
      exact ⟨more, by rw [← hmore, List.append_assoc, List.singleton_append]⟩
    · rw [hforward]
      dsimp only
      rw [List.flatten_append]
      exact hs.out.trans (List.prefix_append _ _)
    · intro _
      rw [hforward]
      dsimp only [Forward.State.held]
      rw [hkept, List.flatten_append, List.flatten_singleton]
  · have hgo : s.forward.stopped = false := by simp [Forward.State.stopped, hpc]
    have hkept := hs.kept hgo
    have hheld : s.forward.held = x := by simp [Forward.State.held, hpc]
    have hlen : len = x.length := hwhole x len hpc rfl
    have hall : s.forward.tcpOut ++ x.take len = s.forward.consumed.flatten := by
      rw [hlen, List.take_length, ← hheld]
      exact hkept
    constructor
    · rw [hforward, hup]
      exact hs.consumed
    · rw [hforward]
      dsimp only
      rw [hall]
    · intro _
      rw [hforward]
      dsimp only [Forward.State.held]
      rw [List.append_nil, hall]

theorem returns_step (s : Tunnel W) (l : Label W) (t : Tunnel W) (hs : s.Returns)
    (hwhole : s.WholeWrite l) (h : step fs s l = some t) : t.Returns := by
  cases steps_of_step h with
  | sent bytes => exact ⟨hs.consumed, hs.out, hs.kept⟩
  | read buf forward hbuf hforward =>
    exact returns_forward hs (by simp) (hwhole _ rfl) hforward rfl rfl
  | took forward hforward =>
    exact returns_forward hs (by simp) (hwhole _ rfl) hforward rfl rfl
  | moved e forward hread htakes hitem hforward =>
    exact returns_forward hs hitem (hwhole _ rfl) hforward rfl rfl
  | client l client down hclient hdown =>
    refine ⟨hs.consumed.trans ?_, hs.out, hs.kept⟩
    obtain hsame | ⟨m, hm⟩ := Service.dispatch_step s.client l client hclient
    · change s.client.dispatch.framedwrite.inner.channel.received <+:
        client.dispatch.framedwrite.inner.channel.received
      rw [hsame]
    · exact received_of_dispatch hm

theorem returns_start (polls : Polls) (fids : FidTable) (nextAux : ObjId) (world : W.State) :
    (start polls fids nextAux world).Returns := by
  constructor
  · exact List.prefix_rfl
  · exact List.prefix_rfl
  · intro _
    rfl

/-- Without the server, a run is a run of the client. -/
theorem client_run {ls : List (Label W)} (h : runs (step fs) s ls = some t) :
    ∃ ms, runs (Service.step fs) s.client ms = some t.client := by
  refine runs_relation (R := fun s t => ∃ ms, runs (Service.step fs) s.client ms = some t.client)
    (fun s => ⟨[], rfl⟩) ?_ ?_ h
  · intro s t u hst htu
    obtain ⟨ls, hls⟩ := hst
    obtain ⟨ms, hms⟩ := htu
    exact ⟨ls ++ ms, runs_append_eq_some.mpr ⟨_, hls, hms⟩⟩
  · intro s l t hstep
    cases steps_of_step hstep with
    | sent | read | took | moved => exact ⟨[], rfl⟩
    | client l client down hclient hdown => exact ⟨[l], by rw [runs_cons, hclient]; rfl⟩

/-- Nothing is on its way, and nothing failed. -/
structure Quiet (s : Tunnel W) : Prop where
  unread : s.unread = []
  forward : s.forward.pc = .select
  tx : s.forward.tx = []
  down : s.down = []
  held : s.reading.reader.held = []
  idle : s.client.Idle
  free : s.client.dispatch.holder = none
  sound : s.client.dispatch.aborted = []
  queue : s.client.dispatch.framedwrite.inner.channel.queue = []
  up : s.up.length = s.forward.consumed.length

end Tunnel
end

/-! A `Tclunk` of a fid that is not bound, which comes in two pieces. -/

namespace Tunnel

def clunkBytes : List UInt8 := Service.requestBytes [⟨7, .tclunk 1⟩]

def clunkPolls : Polls
  | 0 => .ready (some (clunkBytes.take 8))
  | 1 => .ready (some (clunkBytes.drop 8))
  | _ => .pending

def errorBytes : List UInt8 := [11, 0, 0, 0, 7, 7, 0, 9, 0, 0, 0]

/-- It comes to the client, which answers it. -/
def clunkDown : List (Label noObjects) :=
  [.kernel clunkBytes, .forward .accepted, .forward (.read (clunkBytes.take 8)), .forward .sent,
    .forward .clientTakes, .forward (.read (clunkBytes.drop 8)), .forward .sent,
    .forward .clientTakes] ++ List.replicate 5 (.client (.next 64)) ++
    [.client (.dispatch (.conn (.lookup 0))), .client (.dispatch (.lock 0)),
      .client (.dispatch .poll), .client (.dispatch .poll), .client (.dispatch .poll),
      .client (.dispatch (.writer .recv)), .forward (.item errorBytes)]

def clunkRun (ls : List (Label noObjects)) : Option (Tunnel noObjects) :=
  runs (step {}) (start clunkPolls FidTable.new 0 ()) ls

theorem clunkRun_isSome : (clunkRun (clunkDown ++ [.forward (.wrote 11)])).isSome = true := by
  decide +kernel

theorem clunkDown_held : (clunkRun clunkDown).map (fun t => t.forward.held) = some errorBytes := by
  decide +kernel

theorem clunk_whole : Along (step {}) WholeWrite (start clunkPolls FidTable.new 0 ())
    (clunkDown ++ [.forward (.wrote 11)]) := by
  have hbefore : ∀ l ∈ clunkDown, ∀ len, l ≠ .forward (.wrote len) := by
    intro l hl len
    simp only [clunkDown, List.replicate, List.cons_append, List.nil_append, List.mem_cons,
      List.not_mem_nil, or_false] at hl
    rcases hl with rfl | rfl | rfl | rfl | rfl | rfl | rfl | rfl | rfl | rfl | rfl | rfl | rfl |
      rfl | rfl | rfl | rfl | rfl | rfl | rfl <;> simp
  apply Along.append
  · refine (Along.of_forall (D := fun l => ∀ len, l ≠ .forward (.wrote len)) hbefore _).imp ?_
    intro s l hl e he inItem len _ hlen
    rw [hlen] at he
    exact absurd he (hl len)
  · intro t ht
    have hheld : t.forward.held = errorBytes := by
      have hrun := clunkDown_held
      unfold clunkRun at hrun
      rw [ht] at hrun
      exact Option.some.inj hrun
    refine ⟨?_, fun _ _ => trivial⟩
    intro e he inItem len hpc hlen
    cases he
    cases hlen
    rw [Forward.State.held, hpc] at hheld
    exact (congrArg List.length hheld).symm

end Tunnel

end P9cpu.Cpu
