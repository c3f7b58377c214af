import P9cpu.Core.Prog
import P9cpu.Core.Run
import P9cpu.Ninep.Serialize

/-! The server side of 9P: the filesystem interface, one request, and one connection whose
requests run as tasks of their own. -/
namespace P9cpu.Ninep
open Core

/-- The identity of a `Filesystem::Fid` object. -/
abbrev ObjId := ℕ

/-- A fid of the client with the object that is associated with it. -/
structure Fid where
  fid : UInt32
  aux : ObjId
deriving DecidableEq

/-- `HashMap<u32, Fid>`. -/
structure FidTable where
  get : UInt32 → Option Fid

namespace FidTable

def new : FidTable := ⟨fun _ => none⟩

def remove (t : FidTable) (fid : UInt32) : FidTable :=
  ⟨fun f => if f = fid then none else t.get f⟩

def insert (t : FidTable) (newfid : Fid) : FidTable :=
  ⟨fun f => if f = newfid.fid then some newfid else t.get f⟩

@[simp] theorem get_new (f : UInt32) : new.get f = none := rfl

@[simp] theorem get_remove (t : FidTable) (fid f : UInt32) :
    (t.remove fid).get f = if f = fid then none else t.get f := rfl

@[simp] theorem get_insert (t : FidTable) (newfid : Fid) (f : UInt32) :
    (t.insert newfid).get f = if f = newfid.fid then some newfid else t.get f := rfl

end FidTable

/-- An asynchronous handler, which may return early with an error. -/
abbrev Handler (Op : Type) (Res : Op → Type) (α : Type) := ExceptT Error (Prog Op Res) α

section
open Errno

/-- `EOPNOTSUPP` is the default of every method but `rversion`. -/
structure Filesystem (Op : Type) (Res : Op → Type) where
  rstatfs (fid : Fid) : Handler Op Res Fcall := throw (.no EOPNOTSUPP)
  rlopen (fid : Fid) (flags : UInt32) : Handler Op Res Fcall := throw (.no EOPNOTSUPP)
  rlcreate (fid : Fid) (name : String) (flags mode gid : UInt32) : Handler Op Res Fcall :=
    throw (.no EOPNOTSUPP)
  rsymlink (fid : Fid) (name sym : String) (gid : UInt32) : Handler Op Res Fcall :=
    throw (.no EOPNOTSUPP)
  rmknod (dfid : Fid) (name : String) (mode major minor gid : UInt32) : Handler Op Res Fcall :=
    throw (.no EOPNOTSUPP)
  rrename (fid dfid : Fid) (name : String) : Handler Op Res Fcall := throw (.no EOPNOTSUPP)
  rreadlink (fid : Fid) : Handler Op Res Fcall := throw (.no EOPNOTSUPP)
  rgetattr (fid : Fid) (reqMask : GetattrMask) : Handler Op Res Fcall := throw (.no EOPNOTSUPP)
  rsetattr (fid : Fid) (valid : SetattrMask) (stat : SetAttr) : Handler Op Res Fcall :=
    throw (.no EOPNOTSUPP)
  rxattrwalk (fid newfid : Fid) (name : String) : Handler Op Res Fcall := throw (.no EOPNOTSUPP)
  rxattrcreate (fid : Fid) (name : String) (attrSize : UInt64) (flags : UInt32) :
    Handler Op Res Fcall := throw (.no EOPNOTSUPP)
  rreaddir (fid : Fid) (offset : UInt64) (count : UInt32) : Handler Op Res Fcall :=
    throw (.no EOPNOTSUPP)
  rfsync (fid : Fid) : Handler Op Res Fcall := throw (.no EOPNOTSUPP)
  rlock (fid : Fid) (lock : Flock) : Handler Op Res Fcall := throw (.no EOPNOTSUPP)
  rgetlock (fid : Fid) (lock : Getlock) : Handler Op Res Fcall := throw (.no EOPNOTSUPP)
  rlink (dfid fid : Fid) (name : String) : Handler Op Res Fcall := throw (.no EOPNOTSUPP)
  rmkdir (dfid : Fid) (name : String) (mode gid : UInt32) : Handler Op Res Fcall :=
    throw (.no EOPNOTSUPP)
  rrenameat (olddir : Fid) (oldname : String) (newdir : Fid) (newname : String) :
    Handler Op Res Fcall := throw (.no EOPNOTSUPP)
  runlinkat (dirfid : Fid) (name : String) (flags : UInt32) : Handler Op Res Fcall :=
    throw (.no EOPNOTSUPP)
  rauth (afid : Fid) (uname aname : String) (nUname : UInt32) : Handler Op Res Fcall :=
    throw (.no EOPNOTSUPP)
  rattach (fid : Fid) (afid : Option Fid) (uname aname : String) (nUname : UInt32) :
    Handler Op Res Fcall := throw (.no EOPNOTSUPP)
  rflush (old : Option Fcall) : Handler Op Res Fcall := throw (.no EOPNOTSUPP)
  rwalk (fid new : Fid) (wnames : List String) : Handler Op Res Fcall := throw (.no EOPNOTSUPP)
  rread (fid : Fid) (offset : UInt64) (count : UInt32) : Handler Op Res Fcall :=
    throw (.no EOPNOTSUPP)
  rwrite (fid : Fid) (offset : UInt64) (data : Data) : Handler Op Res Fcall :=
    throw (.no EOPNOTSUPP)
  rclunk (fid : Fid) : Handler Op Res Fcall := throw (.no EOPNOTSUPP)
  rremove (fid : Fid) : Handler Op Res Fcall := throw (.no EOPNOTSUPP)
  rversion (msize : UInt32) (ver : String) : Handler Op Res Fcall :=
    return .rversion msize (if ver = P92000L then ver else VERSION_UNKNOWN)

/-- How `dispatch_once` ends without a response. -/
inductive Abort
  | error (e : Error)
  | panic
deriving DecidableEq

def getFid (fids : FidTable) (fid : UInt32) : Except Abort Fid :=
  match fids.get fid with
  | some f => .ok f
  | none => .error (.error (.no EBADF))

/-- `Option::unwrap`. -/
def unwrap (newfid : Option Fid) : Except Abort Fid :=
  match newfid with
  | some f => .ok f
  | none => .error .panic

variable {Op : Type} {Res : Op → Type}

/-- The `match` of `dispatch_once`: the handler of a request, with its fids looked up. -/
def route (fs : Filesystem Op Res) (fids : FidTable) (newfid : Option Fid) :
    Fcall → Except Abort (Handler Op Res Fcall)
  | .tstatfs fid => do return fs.rstatfs (← getFid fids fid)
  | .tlopen fid flags => do return fs.rlopen (← getFid fids fid) flags
  | .tlcreate fid name flags mode gid =>
    do return fs.rlcreate (← getFid fids fid) name flags mode gid
  | .tsymlink fid name symtgt gid => do return fs.rsymlink (← getFid fids fid) name symtgt gid
  | .tmknod dfid name mode major minor gid =>
    do return fs.rmknod (← getFid fids dfid) name mode major minor gid
  | .trename fid dfid name => do return fs.rrename (← getFid fids fid) (← getFid fids dfid) name
  | .treadlink fid => do return fs.rreadlink (← getFid fids fid)
  | .tgetattr fid reqMask => do return fs.rgetattr (← getFid fids fid) reqMask
  | .tsetattr fid valid stat => do return fs.rsetattr (← getFid fids fid) valid stat
  | .txattrwalk fid _ name =>
    do return fs.rxattrwalk (← getFid fids fid) (← unwrap newfid) name
  | .txattrcreate fid name attrSize flags =>
    do return fs.rxattrcreate (← getFid fids fid) name attrSize flags
  | .treaddir fid offset count => do return fs.rreaddir (← getFid fids fid) offset count
  | .tfsync fid => do return fs.rfsync (← getFid fids fid)
  | .tlock fid flock => do return fs.rlock (← getFid fids fid) flock
  | .tgetlock fid flock => do return fs.rgetlock (← getFid fids fid) flock
  | .tlink dfid fid name => do return fs.rlink (← getFid fids dfid) (← getFid fids fid) name
  | .tmkdir dfid name mode gid => do return fs.rmkdir (← getFid fids dfid) name mode gid
  | .trenameat olddirfid oldname newdirfid newname =>
    do return fs.rrenameat (← getFid fids olddirfid) oldname (← getFid fids newdirfid) newname
  | .tunlinkat dirfd name flags => do return fs.runlinkat (← getFid fids dirfd) name flags
  | .tauth _ uname aname nUname => do return fs.rauth (← unwrap newfid) uname aname nUname
  | .tattach _ _ uname aname nUname =>
    do return fs.rattach (← unwrap newfid) none uname aname nUname
  | .tversion msize version => .ok (fs.rversion msize version)
  | .tflush _ => .ok (fs.rflush none)
  | .twalk fid _ wnames => do return fs.rwalk (← getFid fids fid) (← unwrap newfid) wnames
  | .tread fid offset count => do return fs.rread (← getFid fids fid) offset count
  | .twrite fid offset data => do return fs.rwrite (← getFid fids fid) offset data
  | .tclunk fid => do return fs.rclunk (← getFid fids fid)
  | .tremove fid => do return fs.rremove (← getFid fids fid)
  | _ => .error (.error (.no EOPNOTSUPP))

end

/-- The new fid of a request, with the object made for it. -/
def newFid (body : Fcall) (aux : ObjId) : Option Fid := body.newfid.map (fun f => ⟨f, aux⟩)

section
variable {Op : Type} {Res : Op → Type}

theorem bind_eq_ok {ε α β : Type} {x : Except ε α} {f : α → Except ε β} {b : β} :
    (x >>= f) = .ok b ↔ ∃ a, x = .ok a ∧ f a = .ok b := by
  cases x with
  | ok a => exact ⟨fun h => ⟨a, rfl, h⟩, fun ⟨_, ha, h⟩ => by cases ha; exact h⟩
  | error e => exact ⟨fun h => (nomatch h), fun ⟨_, ha, _⟩ => (nomatch ha)⟩

theorem getFid_ne_panic (fids : FidTable) (fid : UInt32) : getFid fids fid ≠ .error .panic := by
  unfold getFid
  split <;> simp

/-- Every `newfid.unwrap()` is reached with a new fid. -/
theorem route_ne_panic (fs : Filesystem Op Res) (fids : FidTable) (body : Fcall) (aux : ObjId) :
    route fs fids (newFid body aux) body ≠ .error .panic := by
  have hget : ∀ fid a, getFid fids fid = .error a → a ≠ .panic := by
    rintro fid a h rfl
    exact getFid_ne_panic fids fid h
  intro h
  cases body <;>
    simp [route, newFid, Fcall.newfid, unwrap, bind, Except.bind, pure, Except.pure] at h <;>
    grind

end

/-! One request after the other. -/

/-- A server between two requests: its fid table, the next fresh object and the rest. -/
structure Server (σ : Type) where
  fids : FidTable
  nextAux : ObjId
  world : σ
  fresh : ∀ f b, fids.get f = some b → b.aux < nextAux

/-- What a handler's operations do when nothing runs between them. -/
structure Backend (Op : Type) (Res : Op → Type) where
  State : Type
  /-- `Default::default()` for the object of a new fid -/
  create : ObjId → State → State
  exec : (o : Op) → State → Res o × State

/-- The updates of the table after the handler succeeded. -/
def updateFids (fids : FidTable) (body : Fcall) (newfid : Option Fid) : FidTable :=
  let fids :=
    match body with
    | .tclunk fid => fids.remove fid
    | _ => fids
  match newfid with
  | some newfid => fids.insert newfid
  | none => fids

theorem fresh_updateFids {fids : FidTable} {aux : ObjId}
    (h : ∀ f b, fids.get f = some b → b.aux < aux) (body : Fcall) (f : UInt32) (b : Fid)
    (hb : (updateFids fids body (newFid body aux)).get f = some b) : b.aux < aux + 1 := by
  cases body <;> simp [updateFids, newFid, Fcall.newfid] at hb <;> grind

section
variable {Op : Type} {Res : Op → Type}

def dispatchOnce (fs : Filesystem Op Res) (b : Backend Op Res) (msg : Msg)
    (s : Server b.State) : Except Abort Fcall × Server b.State :=
  let newfid := newFid msg.body s.nextAux
  let world := if newfid.isSome then b.create s.nextAux s.world else s.world
  let fresh := fun f b hb => Nat.lt_succ_of_lt (s.fresh f b hb)
  match route fs s.fids newfid msg.body with
  | .error a => (.error a, ⟨s.fids, s.nextAux + 1, world, fresh⟩)
  | .ok handler =>
    match handler.run.run b.exec world with
    | (.error e, world) => (.error (.error e), ⟨s.fids, s.nextAux + 1, world, fresh⟩)
    | (.ok response, world) =>
      (.ok response, ⟨updateFids s.fids msg.body newfid, s.nextAux + 1, world,
        fresh_updateFids s.fresh msg.body⟩)

variable {fs : Filesystem Op Res} {b : Backend Op Res} {msg : Msg} {s : Server b.State}

/-- What the handler of a request starts from. -/
def Server.created (b : Backend Op Res) (body : Fcall) (s : Server b.State) : b.State :=
  if (newFid body s.nextAux).isSome then b.create s.nextAux s.world else s.world

theorem dispatchOnce_ok {handler : Handler Op Res Fcall} {response : Fcall} {world : b.State}
    (hroute : route fs s.fids (newFid msg.body s.nextAux) msg.body = .ok handler)
    (hrun : handler.run.run b.exec (s.created b msg.body) = (.ok response, world)) :
    (dispatchOnce fs b msg s).1 = .ok response ∧
      (dispatchOnce fs b msg s).2.fids =
        updateFids s.fids msg.body (newFid msg.body s.nextAux) ∧
      (dispatchOnce fs b msg s).2.world = world := by
  unfold Server.created at hrun
  simp only [dispatchOnce, hroute, hrun, and_self]

theorem dispatchOnce_error {handler : Handler Op Res Fcall} {e : Error} {world : b.State}
    (hroute : route fs s.fids (newFid msg.body s.nextAux) msg.body = .ok handler)
    (hrun : handler.run.run b.exec (s.created b msg.body) = (.error e, world)) :
    (dispatchOnce fs b msg s).1 = .error (.error e) ∧
      (dispatchOnce fs b msg s).2.fids = s.fids ∧
      (dispatchOnce fs b msg s).2.world = world := by
  unfold Server.created at hrun
  simp only [dispatchOnce, hroute, hrun, and_self]

theorem dispatchOnce_refused {a : Abort}
    (hroute : route fs s.fids (newFid msg.body s.nextAux) msg.body = .error a) :
    (dispatchOnce fs b msg s).1 = .error a ∧ (dispatchOnce fs b msg s).2.fids = s.fids ∧
      (dispatchOnce fs b msg s).2.world = s.created b msg.body := by
  simp only [dispatchOnce, hroute, Server.created, and_self]

end

/-! One connection. -/

/-- What tasks share and what happens beside them. -/
structure World (Op : Type) (Res : Op → Type) where
  State : Type
  Event : Type
  create : ObjId → State → State
  /-- `none` while the operation has to wait -/
  exec : (o : Op) → State → Option (Res o × State)
  tick : Event → State → Option State

/-- Where the task of a request is. -/
inductive Phase (Op : Type) (Res : Op → Type)
  | received
  /-- runs its handler and holds the read lock of the table -/
  | handling (newfid : Option Fid) (p : Prog Op Res (Except Error Fcall))
  | clunking (fid : UInt32) (newfid : Option Fid) (response : Fcall)
  | inserting (newfid : Fid) (response : Fcall)
  | replying (response : Fcall)
  | done
  | panicked

structure Task (Op : Type) (Res : Op → Type) where
  msg : Msg
  /-- the object for the new fid of this request -/
  aux : ObjId
  phase : Phase Op Res

/-- `max_frame_len` of `LengthDelimitedCodec`. -/
def maxFrameLen : ℕ := 8 * 1024 * 1024

section
variable {Op : Type} {Res : Op → Type}

def Phase.isHandling : Phase Op Res → Bool
  | .handling .. => true
  | _ => false

/-- The task will not take another step. -/
def Phase.ended : Phase Op Res → Bool
  | .done | .panicked => true
  | _ => false

structure Conn (W : World Op Res) where
  fids : FidTable
  nextAux : ObjId
  world : W.State
  reading : Bool
  tasks : List (Task Op Res)
  /-- the replies handed to the writer, with the task that sent them -/
  written : List (ℕ × Msg)

inductive Label (W : World Op Res)
  | recv (frame : List UInt8)
  /-- the stream ends, or the framing codec gives an error -/
  | hangup
  | lookup (i : ℕ)
  | run (i : ℕ)
  | finish (i : ℕ)
  | clunk (i : ℕ)
  | insert (i : ℕ)
  | send (i : ℕ)
  | world (e : W.Event)

namespace Conn

variable {W : World Op Res}

def setPhase (s : Conn W) (i : ℕ) (phase : Phase Op Res) : Conn W :=
  { s with tasks := s.tasks.modify i (fun t => { t with phase := phase }) }

/-- The write lock of the table can be had. -/
def unlocked (s : Conn W) : Bool := s.tasks.all (fun t => !t.phase.isHandling)

/-- `tokio::spawn` of the task of a request. -/
def spawn (s : Conn W) (msg : Msg) : Conn W :=
  { s with nextAux := s.nextAux + 1, tasks := s.tasks ++ [⟨msg, s.nextAux, .received⟩] }

end Conn

/-- The `Rlerror` that `dispatch` makes of an error. -/
def rlerrorOf (e : Error) : Fcall := .rlerror e.errno.code

/-- After the `Tclunk` branch of `dispatch_once`. -/
def afterClunk (newfid : Option Fid) (response : Fcall) : Phase Op Res :=
  match newfid with
  | some newfid => .inserting newfid response
  | none => .replying response

/-- After the block that holds the read lock. -/
def afterHandler (body : Fcall) (newfid : Option Fid) (response : Fcall) : Phase Op Res :=
  match body with
  | .tclunk fid => .clunking fid newfid response
  | _ => afterClunk newfid response

def step (fs : Filesystem Op Res) {W : World Op Res} (s : Conn W) : Label W → Option (Conn W)
  | .recv frame =>
    if s.reading then
      match readMsg frame with
      | .ok (msg, _) => some (s.spawn msg)
      | .error _ => some { s with reading := false }
    else none
  | .hangup => if s.reading then some { s with reading := false } else none
  | .lookup i =>
    match s.tasks[i]? with
    | some ⟨msg, aux, .received⟩ =>
      let newfid := newFid msg.body aux
      let s := { s with world := if newfid.isSome then W.create aux s.world else s.world }
      match route fs s.fids newfid msg.body with
      | .ok handler => some (s.setPhase i (.handling newfid handler.run))
      | .error (.error e) => some (s.setPhase i (.replying (rlerrorOf e)))
      | .error .panic => some (s.setPhase i .panicked)
    | _ => none
  | .run i =>
    match s.tasks[i]? with
    | some ⟨_, _, .handling newfid (.op o k)⟩ =>
      match W.exec o s.world with
      | some (r, world) => some ({ s with world := world }.setPhase i (.handling newfid (k r)))
      | none => none
    | _ => none
  | .finish i =>
    match s.tasks[i]? with
    | some ⟨_, _, .handling _ (.ret (.error e))⟩ => some (s.setPhase i (.replying (rlerrorOf e)))
    | some ⟨msg, _, .handling newfid (.ret (.ok response))⟩ =>
      some (s.setPhase i (afterHandler msg.body newfid response))
    | _ => none
  | .clunk i =>
    match s.tasks[i]? with
    | some ⟨_, _, .clunking fid newfid response⟩ =>
      if s.unlocked then
        some ({ s with fids := s.fids.remove fid }.setPhase i (afterClunk newfid response))
      else none
    | _ => none
  | .insert i =>
    match s.tasks[i]? with
    | some ⟨_, _, .inserting newfid response⟩ =>
      if s.unlocked then
        some ({ s with fids := s.fids.insert newfid }.setPhase i (.replying response))
      else none
    | _ => none
  | .send i =>
    match s.tasks[i]? with
    | some ⟨msg, _, .replying response⟩ =>
      if response.msgType.isR then
        let response : Msg := ⟨msg.tag, response⟩
        match writeMsg ([] : List UInt8) response with
        | .ok (_, frame) =>
          -- `send(..).await.unwrap()`: the codec refuses a longer frame
          if maxFrameLen < frame.length then some (s.setPhase i .panicked)
          else some ({ s with written := s.written ++ [(i, response)] }.setPhase i .done)
        | .error _ => some (s.setPhase i .panicked)
      else some (s.setPhase i .done)
    | _ => none
  | .world e => (W.tick e s.world).map (fun world => { s with world := world })

end
end P9cpu.Ninep
