import P9cpu.Cpu.Server

/-! `P9cpuClient` over `RpcClient`, together with the server. There is one client in view; the
calls of all others on the same server are labels. -/
namespace P9cpu.Cpu
open Ninep (IoError)

inductive ClientError
  | nonZeroExitCode (code : ℤ)
  | ioErr (e : IoError)
  | channelClosed
  | inner (message : String)

/-- The remote calls of `P9cpuClient::start` and `P9cpuClient::wait`, in their order. -/
inductive Rpc
  | dial
  | ninepForward
  | start
  | stdout
  | stderr
  | wait
deriving DecidableEq

inductive MainPhase
  | ready (rpc : Rpc)
  | calling (rpc : Rpc) (call : ℕ)
  /-- `start` has returned -/
  | started
  /-- `start` has failed -/
  | failed (e : ClientError)
  /-- `wait` has joined the handles before `next` -/
  | joining (next : ℕ) (ret : Except ClientError Unit)
  | returned (ret : Except ClientError Unit)

inductive DrainPhase
  | next
  | writing (rest : List UInt8)
  | done (ret : Except ClientError Unit)

/-- The task of `copy_stream`. -/
structure CopyStream where
  /-- the server task that feeds the stream -/
  task : ℕ
  phase : DrainPhase
  /-- everything written to the local stream -/
  dst : List UInt8

def CopyStream.finished (c : CopyStream) : Bool :=
  match c.phase with
  | .done _ => true
  | _ => false

/-- The task that reads the local stdin. -/
inductive ReaderPhase
  | reading
  | sending (buf : List UInt8)
  /-- `tx` is dropped; waits for `stdin_future` -/
  | closing
  | done (ret : Except ClientError Unit)

/-- The task of `RpcClient::stdin`. -/
inductive RpcPhase
  | first
  | calling
  | done (ret : Except ClientError Unit)

structure StdinRequest (I : Type) where
  id : Option I
  data : List UInt8

structure Stdin (I : Type) where
  reader : ReaderPhase
  /-- everything read from the local stdin -/
  chunks : List (List UInt8)
  /-- the queue of `mpsc::channel(1)` -/
  queue : List (List UInt8)
  rpc : RpcPhase
  /-- the messages of the request stream that the server has not taken -/
  wire : List (StdinRequest I)
  /-- the request stream has ended -/
  closed : Bool
  /-- the `stdin` call on the server and what its `PrependedStream` has in front -/
  service : Option (ℕ × Option (List UInt8))

def Stdin.setup {I : Type} : Stdin I := ⟨.reading, [], [], .first, [], false, none⟩

/-- The reader still has `tx`. -/
def ReaderPhase.holdsTx : ReaderPhase → Bool
  | .reading | .sending _ => true
  | _ => false

def ReaderPhase.finished : ReaderPhase → Bool
  | .done _ => true
  | _ => false

structure Client (I : Type) where
  /-- the id that `dial` makes for it -/
  sid : I
  cmd : Cmd
  main : MainPhase
  stdout : Option CopyStream
  stderr : Option CopyStream
  stdin : Option (Stdin I)
  /-- `stop_tx` was sent -/
  stopped : Bool

inductive MainEvent
  | invoke
  | reply
  | rpcFailed (message : String)
  /-- the caller goes on from `start` to `wait` -/
  | wait
  | join

inductive DrainEvent
  | next
  | endOfStream
  | streamFailed
  | wrote (len : ℕ)
  | writeFailed (e : IoError)
  | flushed

inductive FeedEvent
  | read (buf : List UInt8)
  | eof
  | stop
  | readFailed (e : IoError)
  | sent
  | sendClosed
  | join
  | first
  | noChunks
  | forward
  | endRequests
  | serve
  | refuse
  | item
  | endOfStream
  | broken
  | response
  | rpcFailed (message : String)

structure System (I : Type) where
  server : Server I
  client : Client I

namespace System

inductive Label (I : Type)
  | server (label : Cpu.Label I)
  | main (e : MainEvent)
  | drain (out : Output) (e : DrainEvent)
  | feed (e : FeedEvent)

end System

namespace Client
variable {I : Type}

def new (sid : I) (cmd : Cmd) : Client I := ⟨sid, cmd, .ready .dial, none, none, none, false⟩

def request (c : Client I) : Rpc → Request I
  | .dial => .dial c.sid
  | .ninepForward => .ninepForward c.sid
  | .start => .start c.sid c.cmd
  | .stdout => .output .stdout c.sid
  | .stderr => .output .stderr c.sid
  | .wait => .wait c.sid

/-- The last part of `setup_stdio`. -/
def setupStdin (c : Client I) : Client I := { c with stdin := some Stdin.setup, main := .started }

/-- `wait` stops the reader and joins the tasks whatever the call returned. -/
def stop (c : Client I) (ret : Except ClientError Unit) : Client I :=
  { c with stopped := true, main := .joining 0 ret }

/-- What `start` and `wait` do with the answer to a call. -/
def afterReply (c : Client I) : Rpc → Except Error Answer → Client I
  | .wait, .ok (.code code) =>
    c.stop (if code = 0 then .ok () else .error (.nonZeroExitCode code))
  | .wait, .error e => c.stop (.error (.inner e.message))
  | _, .error e => { c with main := .failed (.inner e.message) }
  | .dial, .ok _ => { c with main := .ready (if c.cmd.ninep then .ninepForward else .start) }
  | .ninepForward, .ok _ => { c with main := .ready .start }
  | .start, .ok _ => { c with main := .ready .stdout }
  | .stdout, .ok (.stream j) =>
    let c := { c with stdout := some ⟨j, .next, []⟩ }
    if c.cmd.tty then c.setupStdin else { c with main := .ready .stderr }
  | .stderr, .ok (.stream j) => { c with stderr := some ⟨j, .next, []⟩ }.setupStdin
  | _, .ok _ => { c with main := .failed (.inner "") }

/-- Which of the handles that `wait` joins have finished. -/
def handles (c : Client I) : List Bool :=
  c.stdout.toList.map CopyStream.finished ++ c.stderr.toList.map CopyStream.finished ++
    c.stdin.toList.map (fun stdin => stdin.reader.finished)

def stream (c : Client I) : Output → Option CopyStream
  | .stdout => c.stdout
  | .stderr => c.stderr

def setStream (c : Client I) (out : Output) (stream : CopyStream) : Client I :=
  match out with
  | .stdout => { c with stdout := some stream }
  | .stderr => { c with stderr := some stream }

end Client

section
variable {I : Type}

theorem stream_setStream (c : Client I) (out out' : Output) (cs : CopyStream) :
    (c.setStream out cs).stream out' = if out' = out then some cs else c.stream out' := by
  cases out <;> cases out' <;> rfl

@[simp] theorem setStream_main (c : Client I) (out : Output) (cs : CopyStream) :
    (c.setStream out cs).main = c.main := by
  cases out <;> rfl

@[simp] theorem setStream_sid (c : Client I) (out : Output) (cs : CopyStream) :
    (c.setStream out cs).sid = c.sid := by
  cases out <;> rfl

@[simp] theorem setStream_request (c : Client I) (out : Output) (cs : CopyStream) (rpc : Rpc) :
    (c.setStream out cs).request rpc = c.request rpc := by
  cases out <;> cases rpc <;> rfl

end

namespace System
variable {I : Type} [DecidableEq I]

def new (sid : I) (cmd : Cmd) : System I := ⟨Server.new, Client.new sid cmd⟩

def stepMain (s : System I) : MainEvent → Option (System I)
  | .invoke =>
    match s.client.main with
    | .ready rpc =>
      let call : Call I := ⟨s.client.request rpc, .called⟩
      some ⟨{ s.server with calls := s.server.calls ++ [call] },
        { s.client with main := .calling rpc s.server.calls.length }⟩
    | _ => none
  | .reply =>
    match s.client.main with
    | .calling rpc k =>
      match s.server.calls[k]? with
      | some ⟨_, .done ret⟩ => some { s with client := s.client.afterReply rpc ret }
      | _ => none
    | _ => none
  | .rpcFailed message =>
    match s.client.main with
    | .calling .wait _ => some { s with client := s.client.stop (.error (.inner message)) }
    | .calling _ _ => some { s with client := { s.client with main := .failed (.inner message) } }
    | _ => none
  | .wait =>
    match s.client.main with
    | .started => some { s with client := { s.client with main := .ready .wait } }
    | _ => none
  | .join =>
    match s.client.main with
    | .joining n ret =>
      match s.client.handles[n]? with
      | some true => some { s with client := { s.client with main := .joining (n + 1) ret } }
      | some false => none
      | none => some { s with client := { s.client with main := .returned ret } }
    | _ => none

/-- One turn of `copy_stream` for a stream of the server task `t`. -/
def stepDrain (s : System I) (out : Output) (c : CopyStream) (t : Copy) :
    DrainEvent → Option (System I)
  | .next =>
    match c.phase, t.wire with
    | .next, bytes :: _ =>
      (s.server.step (.task c.task .consume)).map (fun server =>
        ⟨server, s.client.setStream out { c with phase := .writing bytes }⟩)
    | _, _ => none
  | .endOfStream =>
    match c.phase with
    | .next =>
      if (Task.copy t true).finished ∧ t.queue = [] ∧ t.wire = [] then
        some { s with client := s.client.setStream out { c with phase := .done (.ok ()) } }
      else none
    | _ => none
  | .streamFailed =>
    -- `ByteVecStream` turns an error of the stream into its end
    match c.phase with
    | .next => some { s with client := s.client.setStream out { c with phase := .done (.ok ()) } }
    | _ => none
  | .wrote len =>
    match c.phase with
    | .writing rest =>
      if 0 < len ∧ len ≤ rest.length then
        some { s with
          client := s.client.setStream out
            { c with phase := .writing (rest.drop len), dst := c.dst ++ rest.take len } }
      else none
    | _ => none
  | .writeFailed e =>
    match c.phase with
    | .writing _ =>
      some { s with client := s.client.setStream out { c with phase := .done (.error (.ioErr e)) } }
    | _ => none
  | .flushed =>
    match c.phase with
    | .writing [] => some { s with client := s.client.setStream out { c with phase := .next } }
    | _ => none

def setStdin (s : System I) (stdin : Stdin I) : System I :=
  { s with client := { s.client with stdin := some stdin } }

/-- The `stdin` call `k` on the server gets the next event of its stream. -/
def feedServer (s : System I) (k : ℕ) (e : StdinEvent) (stdin : Stdin I) : Option (System I) :=
  (s.server.step (.stdin k e)).map (fun server => { s with server := server }.setStdin stdin)

/-- The reader of the local stdin, the task of `RpcClient::stdin`, and `P9cpuService::stdin`. -/
def stepFeed (s : System I) (stdin : Stdin I) : FeedEvent → Option (System I)
  | .read buf =>
    match stdin.reader with
    | .reading =>
      if 0 < buf.length ∧ buf.length ≤ 128 then
        some (s.setStdin { stdin with reader := .sending buf, chunks := stdin.chunks ++ [buf] })
      else none
    | _ => none
  | .eof =>
    match stdin.reader with
    | .reading => some (s.setStdin { stdin with reader := .closing })
    | _ => none
  | .stop =>
    match stdin.reader with
    | .reading => if s.client.stopped then some (s.setStdin { stdin with reader := .closing }) else none
    | _ => none
  | .readFailed e =>
    match stdin.reader with
    | .reading => some (s.setStdin { stdin with reader := .done (.error (.ioErr e)) })
    | _ => none
  | .sent =>
    match stdin.reader, stdin.rpc with
    | .sending _, .done _ => none
    | .sending buf, _ =>
      if stdin.queue = [] then
        some (s.setStdin { stdin with reader := .reading, queue := [buf] })
      else none
    | _, _ => none
  | .sendClosed =>
    match stdin.reader, stdin.rpc with
    | .sending _, .done _ => some (s.setStdin { stdin with reader := .done (.error .channelClosed) })
    | _, _ => none
  | .join =>
    match stdin.reader, stdin.rpc with
    | .closing, .done ret => some (s.setStdin { stdin with reader := .done ret })
    | _, _ => none
  | .first =>
    match stdin.rpc, stdin.queue with
    | .first, buf :: queue =>
      some (s.setStdin { stdin with
        rpc := .calling
        queue := queue
        wire := [⟨some s.client.sid, buf⟩] })
    | _, _ => none
  | .noChunks =>
    match stdin.rpc, stdin.queue with
    | .first, [] =>
      if stdin.reader.holdsTx then none else some (s.setStdin { stdin with rpc := .done (.ok ()) })
    | _, _ => none
  | .forward =>
    match stdin.rpc, stdin.queue with
    | .calling, buf :: queue =>
      some (s.setStdin { stdin with queue := queue, wire := stdin.wire ++ [⟨none, buf⟩] })
    | _, _ => none
  | .endRequests =>
    match stdin.rpc, stdin.queue with
    | .calling, [] =>
      if stdin.reader.holdsTx then none else some (s.setStdin { stdin with closed := true })
    | _, _ => none
  | .serve =>
    match stdin.service, stdin.wire with
    | none, ⟨some sid, data⟩ :: wire =>
      let server := { s.server with calls := s.server.calls ++ [⟨.stdin sid, .called⟩] }
      some ({ s with server := server }.setStdin { stdin with
        wire := wire
        service := some (s.server.calls.length, some data) })
    | _, _ => none
  | .refuse =>
    match stdin.rpc, stdin.service, stdin.wire with
    | .calling, none, ⟨none, _⟩ :: _ =>
      some (s.setStdin { stdin with rpc := .done (.error (.inner "no session id.")) })
    | .calling, none, [] =>
      if stdin.closed then
        some (s.setStdin { stdin with rpc := .done (.error (.inner "no session id.")) })
      else none
    | _, _, _ => none
  | .item =>
    match stdin.service, stdin.wire with
    | some (k, some data), _ => s.feedServer k (.item data) { stdin with service := some (k, none) }
    | some (k, none), req :: wire => s.feedServer k (.item req.data) { stdin with wire := wire }
    | _, _ => none
  | .endOfStream =>
    match stdin.service, stdin.wire with
    | some (k, none), [] => if stdin.closed then s.feedServer k .endOfStream stdin else none
    | _, _ => none
  | .broken =>
    -- an error of the request stream ends the items
    match stdin.service with
    | some (k, none) => s.feedServer k .endOfStream { stdin with wire := [] }
    | _ => none
  | .response =>
    match stdin.rpc, stdin.service with
    | .calling, some (k, _) =>
      match s.server.calls[k]? with
      | some ⟨_, .done (.ok _)⟩ => some (s.setStdin { stdin with rpc := .done (.ok ()) })
      | some ⟨_, .done (.error e)⟩ =>
        some (s.setStdin { stdin with rpc := .done (.error (.inner e.message)) })
      | _ => none
    | _, _ => none
  | .rpcFailed message =>
    match stdin.rpc with
    | .calling => some (s.setStdin { stdin with rpc := .done (.error (.inner message)) })
    | _ => none

/-- The items of the client's own `stdin` call come from the client, and it alone takes the
messages of its streams. -/
def byClient (s : System I) : Cpu.Label I → Bool
  | .stdin k (.item _) | .stdin k .endOfStream =>
    (s.client.stdin.bind Stdin.service).any (fun service => service.1 = k)
  | .task j .consume =>
    s.client.stdout.any (fun c => c.task = j) || s.client.stderr.any (fun c => c.task = j) ||
      match s.client.main with
      | .calling _ k => (s.server.calls[k]?).any (fun call => call.phase.streams = some j)
      | _ => false
  | _ => false

def step (s : System I) : Label I → Option (System I)
  | .server label =>
    if s.byClient label then none
    else (s.server.step label).map (fun server => { s with server := server })
  | .main e => s.stepMain e
  | .drain out e =>
    match s.client.stream out with
    | some c =>
      match s.server.tasks[c.task]? with
      | some (.copy t _) => s.stepDrain out c t e
      | _ => none
    | none => none
  | .feed e =>
    match s.client.stdin with
    | some stdin => s.stepFeed stdin e
    | none => none

theorem server_of_stepMain {s t : System I} {e : MainEvent} (h : s.stepMain e = some t) :
    t.server = s.server ∨ ∃ request, s.server.step (.call request) = some t.server := by
  revert h
  fun_cases System.stepMain s e
  all_goals intro h
  all_goals cases h
  case case1.refl rpc _ call => exact .inr ⟨s.client.request rpc, rfl⟩
  all_goals exact .inl rfl

theorem server_of_stepDrain {s t : System I} {out : Output} {c : CopyStream} {task : Copy}
    {e : DrainEvent} (h : s.stepDrain out c task e = some t) :
    t.server = s.server ∨ s.server.step (.task c.task .consume) = some t.server := by
  revert h
  fun_cases System.stepDrain s out c task e
  case case1 =>
    intro h
    obtain ⟨server, hserver, rfl⟩ := Option.map_eq_some_iff.mp h
    exact .inr hserver
  all_goals intro h
  all_goals cases h
  all_goals exact .inl rfl

/-- The tasks for the stdin change no other part of the client, and of the server at most the
`stdin` calls. -/
theorem stepFeed_eq {s t : System I} {stdin : Stdin I} {e : FeedEvent}
    (h : s.stepFeed stdin e = some t) : ∃ stdin' server,
      t = ⟨server, { s.client with stdin := some stdin' }⟩ ∧ (server = s.server ∨
        ∃ l, s.server.step l = some server ∧
          ((∃ k e, l = .stdin k e) ∨ ∃ sid, l = .call (.stdin sid))) := by
  have hfeed : ∀ (k : ℕ) (e : StdinEvent) (stdin : Stdin I), s.feedServer k e stdin = some t →
      ∃ stdin' server, t = ⟨server, { s.client with stdin := some stdin' }⟩ ∧
        (server = s.server ∨ ∃ l, s.server.step l = some server ∧
          ((∃ k e, l = .stdin k e) ∨ ∃ sid, l = .call (.stdin sid))) := by
    intro k e stdin h
    obtain ⟨server, hserver, rfl⟩ := Option.map_eq_some_iff.mp h
    exact ⟨_, _, rfl, .inr ⟨_, hserver, .inl ⟨k, e, rfl⟩⟩⟩
  revert h
  fun_cases System.stepFeed s stdin e
  all_goals intro h
  all_goals try exact hfeed _ _ _ h
  all_goals cases h
  case case29.refl => exact ⟨_, _, rfl, .inr ⟨_, rfl, .inr ⟨_, rfl⟩⟩⟩
  all_goals exact ⟨_, _, rfl, .inl rfl⟩

/-- A step of the system leaves the server alone, is a step of the server that the label names,
or one that the client makes it take. -/
theorem server_of_step {s t : System I} {label : Label I} (h : s.step label = some t) :
    t.server = s.server ∨ ∃ l, s.server.step l = some t.server ∧ (label = .server l ∨
      (∃ request, l = .call request) ∨ (∃ j, l = .task j .consume) ∨ ∃ k e, l = .stdin k e) := by
  revert h
  fun_cases System.step s label
  all_goals intro h
  case case2 label _ =>
    obtain ⟨server, hserver, rfl⟩ := Option.map_eq_some_iff.mp h
    exact .inr ⟨label, hserver, .inl rfl⟩
  case case3 =>
    rcases server_of_stepMain h with hsame | ⟨request, hcall⟩
    · exact .inl hsame
    · exact .inr ⟨_, hcall, .inr (.inl ⟨request, rfl⟩)⟩
  case case4 c _ _ _ _ =>
    rcases server_of_stepDrain h with hsame | hconsume
    · exact .inl hsame
    · exact .inr ⟨_, hconsume, .inr (.inr (.inl ⟨c.task, rfl⟩))⟩
  case case7 =>
    obtain ⟨stdin', server, rfl, hsame | ⟨l, hl, ⟨k, e, rfl⟩ | ⟨sid, rfl⟩⟩⟩ := stepFeed_eq h
    · exact .inl hsame
    · exact .inr ⟨_, hl, .inr (.inr (.inr ⟨k, e, rfl⟩))⟩
    · exact .inr ⟨_, hl, .inr (.inl ⟨_, rfl⟩)⟩
  all_goals cases h

theorem sid_of_step {s t : System I} {label : Label I} (h : s.step label = some t) :
    t.client.sid = s.client.sid := by
  have hreply : ∀ rpc ret, (s.client.afterReply rpc ret).sid = s.client.sid := by
    intro rpc ret
    fun_cases Client.afterReply s.client rpc ret
    all_goals rfl
  revert h
  fun_cases System.step s label
  all_goals intro h
  case case2 =>
    obtain ⟨server, -, rfl⟩ := Option.map_eq_some_iff.mp h
    rfl
  case case3 e =>
    revert h
    fun_cases System.stepMain s e
    all_goals intro h
    all_goals cases h
    case case3.refl => exact hreply _ _
    all_goals rfl
  case case4 e c _ task rxOpen _ =>
    revert h
    fun_cases System.stepDrain s _ c task e
    case case1 =>
      intro h
      obtain ⟨server, -, rfl⟩ := Option.map_eq_some_iff.mp h
      exact setStream_sid _ _ _
    all_goals intro h
    all_goals cases h
    all_goals exact setStream_sid _ _ _
  case case7 =>
    obtain ⟨stdin', server, rfl, -⟩ := stepFeed_eq h
    rfl
  all_goals cases h

/-- What every step of the server keeps, a run of the system keeps. -/
theorem runs_server {P : Server I → Prop}
    (hstep : ∀ s l t, P s → s.step l = some t → P t) {s t : System I} {labels : List (Label I)}
    (hr : Core.runs System.step s labels = some t) (hs : P s.server) : P t.server := by
  refine Core.runs_invariant (I := fun s : System I => P s.server) (fun s l t hs h => ?_) hr hs
  rcases server_of_step h with heq | ⟨l, hl, -⟩
  · rw [heq]
    exact hs
  · exact hstep _ l _ hs hl

end System
end P9cpu.Cpu
