import Mathlib.Logic.Function.Basic
import P9cpu.Core.Run
import P9cpu.Cpu.Cmd
import P9cpu.Cpu.Error

/-! `server::Server` with any number of calls on it, the children it launches and the tasks
it spawns. A call stops at each `.await` that can wait for another party; the lock guards it
holds there are read off its phase. -/
namespace P9cpu.Cpu
open Ninep (IoError)

/-! Calls. Calls, children and tasks are named by their place in the lists of the state. -/

inductive Output
  | stdout
  | stderr
deriving DecidableEq

inductive Request (I : Type)
  | dial (sid : I)
  | ninepForward (sid : I)
  | start (sid : I) (cmd : Cmd)
  | stdin (sid : I)
  | output (out : Output) (sid : I)
  | wait (sid : I)
deriving DecidableEq

def Request.sid {I : Type} : Request I → I
  | .dial sid | .ninepForward sid | .start sid _ | .stdin sid | .output _ sid | .wait sid => sid

inductive Answer
  | unit
  /-- the `ReceiverStream` fed by a task -/
  | stream (task : ℕ)
  | code (code : ℤ)
deriving DecidableEq

structure PendingSession where
  ninep : Option (UInt16 × ℕ)

/-- The local variables of `start` once its listener is bound. -/
structure Launch where
  cmd : Cmd
  port : UInt16
  handles : List ℕ

/-- The three `.await`s that send the command. -/
inductive Sending
  | size
  | buf
  | shutdown

inductive Phase
  | called
  /-- `start` has the pending entry and waits for `sessions.write()` -/
  | starting (ninep : Option (UInt16 × ℕ))
  | binding (ninep : Option (UInt16 × ℕ))
  | launching (l : Launch)
  /-- `listener.accept().await`; the child is spawned -/
  | accepting (l : Launch) (child : ℕ)
  | sending (l : Launch) (child peer : ℕ) (next : Sending)
  /-- `stdin` waits for the lock on the write end -/
  | lockingStdin (child : ℕ)
  | streaming (child : ℕ)
  | writing (child : ℕ) (rest : List UInt8)
  /-- `stdout` and `stderr` have spawned their copy task -/
  | opened (task : ℕ)
  | pushing (child task : ℕ)
  /-- `wait` waits for the lock on the child -/
  | lockingChild (child : ℕ)
  | waiting (child : ℕ)
  | exited (ret : Except Error ℤ)
  | lockingHandles (child : ℕ) (ret : Except Error ℤ)
  /-- the handles before `next` are joined -/
  | joining (child next : ℕ) (ret : Except Error ℤ)
  | removing (ret : Except Error ℤ)
  | done (ret : Except Error Answer)
  /-- the future was dropped -/
  | dropped
  | panicked

structure Call (I : Type) where
  request : Request I
  phase : Phase

/-- The guard of `sessions.write()` in `start` lives to the end of the function. -/
def Phase.holdsSessions : Phase → Bool
  | .binding _ | .launching _ | .accepting _ _ | .sending _ _ _ _ => true
  | _ => false

def Phase.listener : Phase → Option UInt16
  | .launching l | .accepting l _ | .sending l _ _ _ => some l.port
  | _ => none

def Phase.holdsStdin (child : ℕ) : Phase → Bool
  | .streaming c | .writing c _ => c = child
  | _ => false

def Phase.holdsChild (child : ℕ) : Phase → Bool
  | .waiting c => c = child
  | _ => false

def Phase.holdsHandles (child : ℕ) : Phase → Bool
  | .joining c _ _ => c = child
  | _ => false

/-- The task whose stream a call has to give to its caller, or has given. -/
def Phase.streams : Phase → Option ℕ
  | .opened j | .pushing _ j | .done (.ok (.stream j)) => some j
  | _ => none

def Phase.returned : Phase → Bool
  | .done _ | .dropped | .panicked => true
  | _ => false

/-! Children. -/

/-- The connection from a child to the listener of a `start` call. -/
inductive Link
  | none
  /-- in the backlog of the listener of a call -/
  | queued (call : ℕ)
  | accepted (call : ℕ)
  | delivered (cmd : Cmd)
  | closed
deriving DecidableEq

/-- Where `launcher::connect` is in a child. -/
inductive ChildPhase
  | unsharing
  | connecting
  | reading
  /-- from the mounts to `execvp` -/
  | mounting (cmd : Cmd)
  | running
  /-- `status.code()` -/
  | exited (code : Option ℤ)
deriving DecidableEq

/-- A pipe of which the server reads. -/
structure Pipe where
  /-- everything ever written to it -/
  written : List UInt8
  data : List UInt8
  /-- the child or a descendant has a write end -/
  writers : Bool

/-- A `JoinHandle` in the handles of a session, and whether its result was taken. -/
structure Handle where
  task : ℕ
  joined : Bool
deriving DecidableEq

/-- The `Session` of a child under the id it was inserted for. Its other fields are shared
pointers to what the child below has. -/
structure Session (I : Type) where
  sid : I
  handles : List Handle

structure Child (I : Type) where
  port : UInt16
  tty : Bool
  phase : ChildPhase
  link : Link
  /-- everything written to its stdin -/
  stdin : List UInt8
  stdout : Pipe
  stderr : Pipe
  session : Option (Session I)

def Child.pipe {I : Type} (child : Child I) : Output → Pipe
  | .stdout => child.stdout
  | .stderr => child.stderr

def Child.setPipe {I : Type} (child : Child I) (out : Output) (p : Pipe) : Child I :=
  match out with
  | .stdout => { child with stdout := p }
  | .stderr => { child with stderr := p }

def Child.spawned {I : Type} (l : Launch) : Child I where
  port := l.port
  tty := l.cmd.tty
  phase := .unsharing
  link := .none
  stdin := []
  stdout := ⟨[], [], true⟩
  stderr := ⟨[], [], true⟩
  session := none

/-- The errors of `launcher::connect`. -/
inductive LaunchError
  | unshare | connectToPort
  | readUds | protoDecode | unexpectedBytes | shutdownSocket
  | mountRoot | mountTmp | mountLocal | createDir | convertCString | setSid
  | setControllingTerminal | setUid | setGid | exec

/-- Where `connect` is when it fails with the error. The reads wait as long as the connection
is in the backlog. -/
def LaunchError.at {I : Type} (child : Child I) : LaunchError → Bool
  | .unshare => child.phase = .unsharing
  | .connectToPort => child.phase = .connecting
  | .readUds | .protoDecode | .unexpectedBytes | .shutdownSocket =>
    child.phase = .reading && (match child.link with | .queued _ => false | _ => true)
  | _ => match child.phase with | .mounting _ => true | _ => false

/-! Tasks. -/

/-- Where `copy_to` is. -/
inductive CopyPhase
  /-- waits for the lock on the read end -/
  | locking
  | reading
  | sending (buf : List UInt8)
  | done (ret : Except Error Unit)

structure Copy where
  out : Output
  child : ℕ
  /-- the call that spawned the task -/
  call : ℕ
  phase : CopyPhase
  /-- the queue of `mpsc::channel(10)` -/
  queue : List (List UInt8)
  /-- the messages of the gRPC stream that its client has not taken -/
  wire : List (List UInt8)
  /-- the messages that the client has taken -/
  taken : List (List UInt8)

inductive Task
  | copy (t : Copy) (rxOpen : Bool)
  /-- the task of `ninep_forward` -/
  | forward (ret : Option (Except Error Unit))

def Task.finished : Task → Bool
  | .copy t _ => match t.phase with | .done _ => true | _ => false
  | .forward ret => ret.isSome

def Task.closeRx : Task → Task
  | .copy t _ => .copy t false
  | .forward ret => .forward ret

def Task.holdsOutput (child : ℕ) (out : Output) : Task → Bool
  | .copy t _ =>
    match t.phase with
    | .reading | .sending _ => t.child = child && t.out = out
    | _ => false
  | .forward _ => false

/-! The server. -/

structure Server (I : Type) where
  pending : I → Option PendingSession
  sessions : I → Option ℕ
  calls : List (Call I)
  children : List (Child I)
  tasks : List Task

def Server.new {I : Type} : Server I := ⟨fun _ => none, fun _ => none, [], [], []⟩

inductive StartEvent
  | takePending
  | lockSessions
  | bound (port : UInt16)
  | bindFailed (e : IoError)
  | spawned
  | stdioFailed (e : Error)
  | spawnFailed (e : IoError)
  | accepted (peer : ℕ)
  | acceptFailed (e : IoError)
  | sent
  | sendFailed (e : IoError)

inductive StdinEvent
  | getSession
  | lock
  | item (item : List UInt8)
  | endOfStream
  | wrote (len : ℕ)
  | writeFailed (e : IoError)

inductive OutputEvent
  | getSession
  | getHandles
  | push

inductive WaitEvent
  | getChild
  | lockChild
  | reaped
  | waitFailed (e : IoError)
  | getHandles
  | lockHandles
  | join
  | remove

inductive ChildEvent
  | unshared
  | connected (call : ℕ)
  | received
  | execed
  | failed (e : LaunchError)
  | exited (code : ℤ)
  | killed
  | printed (out : Output) (buf : List UInt8)
  | closed (out : Output)

inductive TaskEvent
  | lock
  | read (len : ℕ)
  | eof
  | readFailed (e : IoError)
  | sent
  | sendClosed
  /-- the gRPC stream takes the next item of the channel -/
  | take
  /-- the client takes the next message of the gRPC stream -/
  | consume
  | dropStream
  | forwardDone (ret : Except Error Unit)

/-- Every choice of the scheduler, of the callers and of the host. -/
inductive Label (I : Type)
  | call (request : Request I)
  | drop (call : ℕ)
  | dial (call : ℕ)
  | ninepForward (call : ℕ) (bound : Except IoError UInt16)
  | start (call : ℕ) (e : StartEvent)
  | stdin (call : ℕ) (e : StdinEvent)
  | output (call : ℕ) (e : OutputEvent)
  | wait (call : ℕ) (e : WaitEvent)
  | child (child : ℕ) (e : ChildEvent)
  | task (task : ℕ) (e : TaskEvent)

def channelCapacity : ℕ := 10

namespace Server
variable {I : Type} [DecidableEq I]

def setPhase (s : Server I) (k : ℕ) (p : Phase) : Server I :=
  { s with calls := s.calls.modify k (fun call => { call with phase := p }) }

def modifyChild (s : Server I) (c : ℕ) (f : Child I → Child I) : Server I :=
  { s with children := s.children.modify c f }

def setTask (s : Server I) (j : ℕ) (t : Task) : Server I :=
  { s with tasks := s.tasks.set j t }

/-- No guard of `sessions.write()` is alive. -/
def unlocked (s : Server I) : Bool := s.calls.all (fun call => !call.phase.holdsSessions)

def listening (s : Server I) (port : UInt16) : Bool :=
  s.calls.any (fun call => call.phase.listener = some port)

/-- The listener of a call is dropped with what is in its backlog. -/
def closeListener (s : Server I) (k : ℕ) : Server I :=
  { s with
    children := s.children.map (fun child =>
      if child.link = .queued k then { child with link := .closed } else child) }

def setLink (s : Server I) (c : ℕ) (link : Link) : Server I :=
  s.modifyChild c (fun child => { child with link := link })

/-- Drop the receiver of the channel of a copy task. -/
def closeRx (s : Server I) (j : ℕ) : Server I :=
  { s with tasks := s.tasks.modify j Task.closeRx }

/-- Drop what the future of a call owns in a phase. -/
def release (s : Server I) (k : ℕ) : Phase → Server I
  | .launching _ | .accepting _ _ => s.closeListener k
  | .sending _ _ peer _ => (s.setLink peer .closed).closeListener k
  | .opened j | .pushing _ j => s.closeRx j
  | _ => s

def succeed (s : Server I) (k : ℕ) (answer : Answer) : Server I :=
  s.setPhase k (.done (.ok answer))

/-- Return early with an error from a phase. -/
def fail (s : Server I) (k : ℕ) (p : Phase) (e : Error) : Server I :=
  (s.release k p).setPhase k (.done (.error e))

/-- `get_session`; `none` while it waits for `sessions.read()`. -/
def getSession (s : Server I) (sid : I) : Option (Except Error ℕ) :=
  if s.unlocked then
    match s.sessions sid with
    | none => some (.error .sessionNotExist)
    | some c => some (.ok c)
  else none

def dial (s : Server I) (sid : I) : Except Error Answer × Server I :=
  match s.pending sid with
  | some _ => (.error .duplicateId, s)
  | none => (.ok .unit, { s with pending := Function.update s.pending sid (some ⟨none⟩) })

def ninepForward (s : Server I) (sid : I) (bound : Except IoError UInt16) :
    Except Error Answer × Server I :=
  match s.pending sid with
  | none => (.error .sessionNotExist, s)
  | some _ =>
    match bound with
    | .error e => (.error (.bindFail e), s)
    | .ok port =>
      let ninep := some (port, s.tasks.length)
      (.ok (.stream s.tasks.length),
        { s with
          pending := Function.update s.pending sid (some ⟨ninep⟩)
          tasks := s.tasks ++ [Task.forward none] })

/-- The command that is sent, with the 9p port in its fstab. -/
def prepare (cmd : Cmd) (ninepPort : Option UInt16) : Except Error Cmd :=
  if cmd.ninep then
    match ninepPort with
    | none => .error .no9pPort
    | some port => .ok { cmd with fstab := fillNinep cmd.tmpMnt port cmd.fstab }
  else .ok cmd

/-- The errors of the pty and of the pipes: `pipe2` has no variant of its own. -/
def stdioError (tty : Bool) : Error → Bool
  | .openPtyFail _ | .ioErr _ => true
  | .fdCloneFail _ => tty
  | _ => false

/-- `command.spawn()` -/
def spawnChild (s : Server I) (l : Launch) : Server I :=
  { s with children := s.children ++ [Child.spawned l] }

/-- Spawn the task that copies an output of a child for call `k`. -/
def spawnCopy (s : Server I) (k : ℕ) (out : Output) (c : ℕ) : Server I :=
  { s with tasks := s.tasks ++ [Task.copy ⟨out, c, k, .locking, [], [], []⟩ true] }

/-- The last part of `start`: drop the connection and the listener, insert the session. -/
def insertSession (s : Server I) (k : ℕ) (sid : I) (l : Launch) (c peer : ℕ) : Server I :=
  let s := (s.setLink peer (.delivered l.cmd)).closeListener k
  let s := s.modifyChild c (fun child =>
    { child with session := some ⟨sid, l.handles.map (fun j => ⟨j, false⟩)⟩ })
  { s with sessions := Function.update s.sessions sid (some c) }

def stepStart (s : Server I) (k : ℕ) (sid : I) (cmd : Cmd) (p : Phase) :
    StartEvent → Option (Server I)
  | .takePending =>
    match p with
    | .called =>
      match s.pending sid with
      | none => some (s.fail k p .sessionNotExist)
      | some session =>
        some ({ s with pending := Function.update s.pending sid none }.setPhase k
          (.starting session.ninep))
    | _ => none
  | .lockSessions =>
    match p with
    | .starting ninep =>
      if s.unlocked then
        if (s.sessions sid).isSome then some (s.fail k p .duplicateId)
        else some (s.setPhase k (.binding ninep))
      else none
    | _ => none
  | .bindFailed e =>
    match p with
    | .binding _ => some (s.fail k p (.bindFail e))
    | _ => none
  | .bound port =>
    match p with
    | .binding ninep =>
      -- port 0 was asked for, so the kernel gives one that nothing listens on
      if s.listening port then none
      else
        match prepare cmd (ninep.map Prod.fst) with
        | .error e => some (s.fail k p e)
        | .ok cmd => some (s.setPhase k (.launching ⟨cmd, port, (ninep.map Prod.snd).toList⟩))
    | _ => none
  | .stdioFailed e =>
    match p with
    | .launching l => if stdioError l.cmd.tty e then some (s.fail k p e) else none
    | _ => none
  | .spawnFailed e =>
    match p with
    | .launching _ => some (s.fail k p (.spawnFail e))
    | _ => none
  | .spawned =>
    match p with
    | .launching l =>
      some ((s.spawnChild l).setPhase k (.accepting l s.children.length))
    | _ => none
  | .acceptFailed e =>
    match p with
    | .accepting _ _ => some (s.fail k p (.ioErr e))
    | _ => none
  | .accepted peer =>
    match p, s.children[peer]? with
    | .accepting l c, some child =>
      if child.link = .queued k then
        some ((s.setLink peer (.accepted k)).setPhase k (.sending l c peer .size))
      else none
    | _, _ => none
  | .sent =>
    match p with
    | .sending l c peer .size => some (s.setPhase k (.sending l c peer .buf))
    | .sending l c peer .buf => some (s.setPhase k (.sending l c peer .shutdown))
    | .sending l c peer .shutdown => some ((s.insertSession k sid l c peer).succeed k .unit)
    | _ => none
  | .sendFailed e =>
    match p with
    | .sending _ _ _ _ => some (s.fail k p (.ioErr e))
    | _ => none

def stepStdin (s : Server I) (k : ℕ) (sid : I) (p : Phase) : StdinEvent → Option (Server I)
  | .getSession =>
    match p, s.getSession sid with
    | .called, some (.error e) => some (s.fail k p e)
    | .called, some (.ok c) => some (s.setPhase k (.lockingStdin c))
    | _, _ => none
  | .lock =>
    match p with
    | .lockingStdin c =>
      if s.calls.any (fun call => call.phase.holdsStdin c) then none
      else some (s.setPhase k (.streaming c))
    | _ => none
  | .item item =>
    match p with
    | .streaming c =>
      -- `write_all` of nothing returns at once
      some (s.setPhase k (if item = [] then .streaming c else .writing c item))
    | _ => none
  | .endOfStream =>
    match p with
    | .streaming _ => some (s.succeed k .unit)
    | _ => none
  | .wrote len =>
    match p with
    | .writing c rest =>
      if 0 < len ∧ len ≤ rest.length then
        some ((s.modifyChild c (fun child =>
          { child with stdin := child.stdin ++ rest.take len })).setPhase k
          (if rest.drop len = [] then .streaming c else .writing c (rest.drop len)))
      else none
    | _ => none
  | .writeFailed e =>
    match p with
    | .writing _ _ => some (s.fail k p (.ioErr e))
    | _ => none

/-- Append a handle to the handles of the session of a child. -/
def pushHandle (s : Server I) (c j : ℕ) : Server I :=
  s.modifyChild c (fun child =>
    { child with
      session := child.session.map (fun session =>
        { session with handles := session.handles ++ [⟨j, false⟩] }) })

def stepOutput (s : Server I) (k : ℕ) (out : Output) (sid : I) (p : Phase) :
    OutputEvent → Option (Server I)
  | .getSession =>
    match p, s.getSession sid with
    | .called, some (.error e) => some (s.fail k p e)
    | .called, some (.ok c) =>
      some ((s.spawnCopy k out c).setPhase k (.opened s.tasks.length))
    | _, _ => none
  | .getHandles =>
    match p, s.getSession sid with
    | .opened _, some (.error e) => some (s.fail k p e)
    | .opened j, some (.ok c) => some (s.setPhase k (.pushing c j))
    | _, _ => none
  | .push =>
    match p with
    | .pushing c j =>
      if s.calls.any (fun call => call.phase.holdsHandles c) then none
      else some ((s.pushHandle c j).succeed k (.stream j))
    | _ => none

def handles (s : Server I) (c : ℕ) : List Handle :=
  ((s.children[c]?).bind Child.session).elim [] Session.handles

/-- Mark the result of a handle as taken. -/
def takeHandle (s : Server I) (c i : ℕ) : Server I :=
  s.modifyChild c (fun child =>
    { child with
      session := child.session.map (fun session =>
        { session with handles := session.handles.modify i (fun h => { h with joined := true }) }) })

/-- What `wait` keeps of the exit status of the child. -/
def exitResult : ChildPhase → Option (Except Error ℤ)
  | .exited (some code) => some (.ok code)
  | .exited none => some (.error .noReturnCode)
  | _ => none

def stepWait (s : Server I) (k : ℕ) (sid : I) (p : Phase) : WaitEvent → Option (Server I)
  | .getChild =>
    match p, s.getSession sid with
    | .called, some (.error e) => some (s.fail k p e)
    | .called, some (.ok c) => some (s.setPhase k (.lockingChild c))
    | _, _ => none
  | .lockChild =>
    match p with
    | .lockingChild c =>
      if s.calls.any (fun call => call.phase.holdsChild c) then none
      else some (s.setPhase k (.waiting c))
    | _ => none
  | .reaped =>
    match p with
    | .waiting c =>
      match (s.children[c]?).bind (fun child => exitResult child.phase) with
      | some ret => some (s.setPhase k (.exited ret))
      | none => none
    | _ => none
  | .waitFailed e =>
    match p with
    | .waiting _ => some (s.setPhase k (.exited (.error (.commandError e))))
    | _ => none
  | .getHandles =>
    match p, s.getSession sid with
    | .exited _, some (.error e) => some (s.fail k p e)
    | .exited ret, some (.ok c) => some (s.setPhase k (.lockingHandles c ret))
    | _, _ => none
  | .lockHandles =>
    match p with
    | .lockingHandles c ret =>
      if s.calls.any (fun call => call.phase.holdsHandles c) then none
      else some (s.setPhase k (.joining c 0 ret))
    | _ => none
  | .join =>
    match p with
    | .joining c i ret =>
      match (s.handles c)[i]? with
      | none => some (s.setPhase k (.removing ret))
      | some h =>
        -- a `JoinHandle` panics when it is polled after it returned its result
        if h.joined then some (s.setPhase k .panicked)
        else if (s.tasks[h.task]?).any Task.finished then
          some ((s.takeHandle c i).setPhase k (.joining c (i + 1) ret))
        else none
    | _ => none
  | .remove =>
    match p with
    | .removing ret =>
      if s.unlocked then
        some ({ s with sessions := Function.update s.sessions sid none }.setPhase k
          (.done (ret.map Answer.code)))
      else none
    | _ => none

def stepChild (s : Server I) (c : ℕ) (child : Child I) : ChildEvent → Option (Server I)
  | .unshared =>
    if child.phase = .unsharing then
      some (s.modifyChild c (fun child => { child with phase := .connecting }))
    else none
  | .connected k =>
    match s.calls[k]? with
    | some call =>
      if child.phase = .connecting ∧ call.phase.listener = some child.port then
        some (s.modifyChild c (fun child => { child with phase := .reading, link := .queued k }))
      else none
    | none => none
  | .received =>
    match child.phase, child.link with
    | .reading, .delivered cmd =>
      some (s.modifyChild c (fun child => { child with phase := .mounting cmd }))
    | _, _ => none
  | .execed =>
    match child.phase with
    | .mounting _ => some (s.modifyChild c (fun child => { child with phase := .running }))
    | _ => none
  | .failed e =>
    if e.at child then
      some (s.modifyChild c (fun child => { child with phase := .exited (some 1) }))
    else none
  | .exited code =>
    if child.phase = .running then
      some (s.modifyChild c (fun child => { child with phase := .exited (some code) }))
    else none
  | .killed =>
    match child.phase with
    | .exited _ => none
    | _ => some (s.modifyChild c (fun child => { child with phase := .exited none }))
  | .printed out buf =>
    let p := child.pipe out
    if p.writers then
      some (s.modifyChild c (fun child =>
        child.setPipe out { p with written := p.written ++ buf, data := p.data ++ buf }))
    else none
  | .closed out =>
    let p := child.pipe out
    some (s.modifyChild c (fun child => child.setPipe out { p with writers := false }))

/-- One turn of `copy_to` with its channel. -/
def stepCopy (s : Server I) (j : ℕ) (t : Copy) (rxOpen : Bool) : TaskEvent → Option (Server I)
  | .lock =>
    match t.phase with
    | .locking =>
      if s.tasks.any (fun task => task.holdsOutput t.child t.out) then none
      else
        match t.out, (s.children[t.child]?).map Child.tty with
        -- a session with a pty has no stderr
        | .stderr, some true => some (s.setTask j (.copy { t with phase := .done (.ok ()) } rxOpen))
        | _, _ => some (s.setTask j (.copy { t with phase := .reading } rxOpen))
    | _ => none
  | .read len =>
    match t.phase, s.children[t.child]? with
    | .reading, some child =>
      let p := child.pipe t.out
      if 0 < len ∧ len ≤ 128 ∧ len ≤ p.data.length then
        some ((s.modifyChild t.child (fun child =>
          child.setPipe t.out { p with data := p.data.drop len })).setTask j
          (.copy { t with phase := .sending (p.data.take len) } rxOpen))
      else none
    | _, _ => none
  | .eof =>
    match t.phase, s.children[t.child]? with
    | .reading, some child =>
      let p := child.pipe t.out
      if p.data = [] ∧ p.writers = false then
        some (s.setTask j (.copy { t with phase := .done (.ok ()) } rxOpen))
      else none
    | _, _ => none
  | .readFailed e =>
    match t.phase with
    | .reading => some (s.setTask j (.copy { t with phase := .done (.error (.ioErr e)) } rxOpen))
    | _ => none
  | .sent =>
    match t.phase with
    | .sending buf =>
      if rxOpen ∧ t.queue.length < channelCapacity then
        some (s.setTask j (.copy { t with phase := .reading, queue := t.queue ++ [buf] } rxOpen))
      else none
    | _ => none
  | .sendClosed =>
    match t.phase with
    | .sending _ =>
      if rxOpen then none
      else some (s.setTask j (.copy { t with phase := .done (.error .channelClosed) } rxOpen))
    | _ => none
  | .take =>
    match t.queue with
    | [] => none
    | buf :: queue =>
      if rxOpen then
        some (s.setTask j (.copy { t with queue := queue, wire := t.wire ++ [buf] } rxOpen))
      else none
  | .consume =>
    match t.wire with
    | [] => none
    | buf :: wire =>
      some (s.setTask j (.copy { t with wire := wire, taken := t.taken ++ [buf] } rxOpen))
  | .dropStream => some (s.setTask j (.copy t false))
  | .forwardDone _ => none

def step (s : Server I) : Label I → Option (Server I)
  | .call request => some { s with calls := s.calls ++ [⟨request, .called⟩] }
  | .drop k =>
    match s.calls[k]? with
    | some call =>
      if call.phase.returned then none
      else some ((s.release k call.phase).setPhase k .dropped)
    | none => none
  | .dial k =>
    match s.calls[k]? with
    | some ⟨.dial sid, .called⟩ => let (ret, s) := s.dial sid; some (s.setPhase k (.done ret))
    | _ => none
  | .ninepForward k bound =>
    match s.calls[k]? with
    | some ⟨.ninepForward sid, .called⟩ =>
      let (ret, s) := s.ninepForward sid bound; some (s.setPhase k (.done ret))
    | _ => none
  | .start k e =>
    match s.calls[k]? with
    | some ⟨.start sid cmd, phase⟩ => s.stepStart k sid cmd phase e
    | _ => none
  | .stdin k e =>
    match s.calls[k]? with
    | some ⟨.stdin sid, phase⟩ => s.stepStdin k sid phase e
    | _ => none
  | .output k e =>
    match s.calls[k]? with
    | some ⟨.output out sid, phase⟩ => s.stepOutput k out sid phase e
    | _ => none
  | .wait k e =>
    match s.calls[k]? with
    | some ⟨.wait sid, phase⟩ => s.stepWait k sid phase e
    | _ => none
  | .child c e =>
    match s.children[c]? with
    | some child => s.stepChild c child e
    | none => none
  | .task j e =>
    match s.tasks[j]? with
    | some (.copy t rxOpen) => s.stepCopy j t rxOpen e
    | some (.forward none) =>
      match e with
      | .forwardDone ret => some (s.setTask j (.forward (some ret)))
      | _ => none
    | _ => none

end Server
end P9cpu.Cpu
