import Mathlib.Data.List.Basic

/-! 9P2000.L messages: data types, message type numbers, and the fids a message names. -/
namespace P9cpu.Ninep

def P92000L : String := "9P2000.L"
def VERSION_UNKNOWN : String := "unknown"

/-- Special value which `Tattach` with no auth uses as `afid`. -/
def NOFID : UInt32 := 0xffffffff

/-- A `bitflags!` type over the integer type `W`: only declared bits can be set. -/
structure Flags {W : Type} [AndOp W] (all : W) where
  bits : W
  valid : bits &&& all = bits
deriving DecidableEq

namespace Flags

variable {W : Type} [AndOp W] {all : W}

@[ext] theorem ext {a b : Flags all} (h : a.bits = b.bits) : a = b := by
  cases a; cases b; cases h; rfl

/-- `self.contains(other)`, with the bits of `other`. -/
def contains [DecidableEq W] (f : Flags all) (bits : W) : Bool := f.bits &&& bits = bits

/-- `self.intersects(other)`, with the bits of `other`. -/
def intersects [DecidableEq W] [OfNat W 0] (f : Flags all) (bits : W) : Bool :=
  f.bits &&& bits ≠ 0

variable [hassoc : Std.Associative (α := W) (· &&& ·)]
  [hidem : Std.IdempotentOp (α := W) (· &&& ·)]

def fromBitsTruncate (bits : W) : Flags all where
  bits := bits &&& all
  valid := (hassoc.assoc bits all all).trans (congrArg (bits &&& ·) (hidem.idempotent all))

@[simp] theorem fromBitsTruncate_bits (f : Flags all) : fromBitsTruncate f.bits = f :=
  ext f.valid

end Flags

/-- `RDLOCK` 0, `WRLOCK` 1, `UNLOCK` 2. -/
abbrev LockType := Flags (3 : UInt8)

/-- `BLOCK` 1, `RECLAIM` 2. -/
abbrev LockFlag := Flags (3 : UInt32)

/-- `SUCCESS` 0, `BLOCKED` 1, `ERROR` 2, `GRACE` 3. -/
abbrev LockStatus := Flags (3 : UInt8)

abbrev QidType := Flags (0xff : UInt8)

def QidType.FILE : QidType := ⟨0x00, rfl⟩
def QidType.SYMLINK : UInt8 := 0x02
def QidType.DIR : UInt8 := 0x80

def QidType.insert (t : QidType) (bits : UInt8) : QidType :=
  Flags.fromBitsTruncate (t.bits ||| bits)

abbrev GetattrMask := Flags (0x3fff : UInt64)

abbrev SetattrMask := Flags (0x1ff : UInt32)

namespace SetattrMask

def MODE : UInt32 := 0x001
def UID : UInt32 := 0x002
def GID : UInt32 := 0x004
def SIZE : UInt32 := 0x008
def ATIME : UInt32 := 0x010
def MTIME : UInt32 := 0x020
def CTIME : UInt32 := 0x040
def ATIME_SET : UInt32 := 0x080
def MTIME_SET : UInt32 := 0x100

end SetattrMask

structure Qid where
  typ : QidType
  version : UInt32
  path : UInt64
deriving DecidableEq

/-- Bytes of an encoded `Qid`: type, version and path. -/
def Qid.size (_ : Qid) : UInt32 := 1 + 4 + 8

structure Statfs where
  typ : UInt32
  bsize : UInt32
  blocks : UInt64
  bfree : UInt64
  bavail : UInt64
  files : UInt64
  ffree : UInt64
  fsid : UInt64
  namelen : UInt32
deriving DecidableEq

structure Time where
  sec : UInt64
  nsec : UInt64
deriving DecidableEq

structure Stat where
  mode : UInt32
  uid : UInt32
  gid : UInt32
  nlink : UInt64
  rdev : UInt64
  size : UInt64
  blksize : UInt64
  blocks : UInt64
  atime : Time
  mtime : Time
  ctime : Time
deriving DecidableEq

structure SetAttr where
  mode : UInt32
  uid : UInt32
  gid : UInt32
  size : UInt64
  atime : Time
  mtime : Time
deriving DecidableEq

structure DirEntry where
  qid : Qid
  offset : UInt64
  typ : UInt8
  name : String
deriving DecidableEq

/-- The sum is taken in `usize`; only the result is cut to 32 bits. -/
def DirEntry.size (e : DirEntry) : UInt32 :=
  UInt32.ofNat (e.qid.size.toNat + 8 + 1 + 2 + e.name.utf8ByteSize)

structure DirEntryData where
  data : List DirEntry
deriving DecidableEq

namespace DirEntryData

def new : DirEntryData := ⟨[]⟩

/-- The running sum is a `u32`, which wraps in a release build. -/
def size (d : DirEntryData) : UInt32 := d.data.foldl (fun a e => a + e.size) 0

def push (d : DirEntryData) (entry : DirEntry) : DirEntryData := ⟨d.data ++ [entry]⟩

end DirEntryData

/-- The payload of `Rread` and `Twrite`. -/
structure Data where
  bytes : List UInt8
deriving DecidableEq

structure Flock where
  typ : LockType
  flags : LockFlag
  start : UInt64
  length : UInt64
  procId : UInt32
  clientId : String
deriving DecidableEq

structure Getlock where
  typ : LockType
  start : UInt64
  length : UInt64
  procId : UInt32
  clientId : String
deriving DecidableEq

inductive MsgType
  | tlerror | rlerror | tstatfs | rstatfs | tlopen | rlopen | tlcreate | rlcreate
  | tsymlink | rsymlink | tmknod | rmknod | trename | rrename | treadlink | rreadlink
  | tgetattr | rgetattr | tsetattr | rsetattr | txattrwalk | rxattrwalk
  | txattrcreate | rxattrcreate | treaddir | rreaddir | tfsync | rfsync | tlock | rlock
  | tgetlock | rgetlock | tlink | rlink | tmkdir | rmkdir | trenameat | rrenameat
  | tunlinkat | runlinkat | tversion | rversion | tauth | rauth | tattach | rattach
  | tflush | rflush | twalk | rwalk | tread | rread | twrite | rwrite
  | tclunk | rclunk | tremove | rremove
deriving DecidableEq

namespace MsgType

/-- The discriminants of the enum. -/
def toU8 : MsgType → UInt8
  | .tlerror => 6
  | .rlerror => 7
  | .tstatfs => 8
  | .rstatfs => 9
  | .tlopen => 12
  | .rlopen => 13
  | .tlcreate => 14
  | .rlcreate => 15
  | .tsymlink => 16
  | .rsymlink => 17
  | .tmknod => 18
  | .rmknod => 19
  | .trename => 20
  | .rrename => 21
  | .treadlink => 22
  | .rreadlink => 23
  | .tgetattr => 24
  | .rgetattr => 25
  | .tsetattr => 26
  | .rsetattr => 27
  | .txattrwalk => 30
  | .rxattrwalk => 31
  | .txattrcreate => 32
  | .rxattrcreate => 33
  | .treaddir => 40
  | .rreaddir => 41
  | .tfsync => 50
  | .rfsync => 51
  | .tlock => 52
  | .rlock => 53
  | .tgetlock => 54
  | .rgetlock => 55
  | .tlink => 70
  | .rlink => 71
  | .tmkdir => 72
  | .rmkdir => 73
  | .trenameat => 74
  | .rrenameat => 75
  | .tunlinkat => 76
  | .runlinkat => 77
  | .tversion => 100
  | .rversion => 101
  | .tauth => 102
  | .rauth => 103
  | .tattach => 104
  | .rattach => 105
  | .tflush => 108
  | .rflush => 109
  | .twalk => 110
  | .rwalk => 111
  | .tread => 116
  | .rread => 117
  | .twrite => 118
  | .rwrite => 119
  | .tclunk => 120
  | .rclunk => 121
  | .tremove => 122
  | .rremove => 123

/-- All message types, in the order of the enum. -/
def all : List MsgType :=
  [.tlerror, .rlerror, .tstatfs, .rstatfs, .tlopen, .rlopen, .tlcreate, .rlcreate,
    .tsymlink, .rsymlink, .tmknod, .rmknod, .trename, .rrename, .treadlink, .rreadlink,
    .tgetattr, .rgetattr, .tsetattr, .rsetattr, .txattrwalk, .rxattrwalk,
    .txattrcreate, .rxattrcreate, .treaddir, .rreaddir, .tfsync, .rfsync, .tlock, .rlock,
    .tgetlock, .rgetlock, .tlink, .rlink, .tmkdir, .rmkdir, .trenameat, .rrenameat,
    .tunlinkat, .runlinkat, .tversion, .rversion, .tauth, .rauth, .tattach, .rattach,
    .tflush, .rflush, .twalk, .rwalk, .tread, .rread, .twrite, .rwrite,
    .tclunk, .rclunk, .tremove, .rremove]

/-- `MsgType::from_u8`, the inverse of the discriminants. -/
def fromU8 (n : UInt8) : Option MsgType := all.find? (fun t => t.toU8 = n)

@[simp] theorem fromU8_toU8 (t : MsgType) : fromU8 t.toU8 = some t := by
  cases t <;> decide

def isR : MsgType → Bool
  | .rlerror | .rstatfs | .rlopen | .rlcreate | .rsymlink | .rmknod | .rrename | .rreadlink
  | .rgetattr | .rsetattr | .rxattrwalk | .rxattrcreate | .rreaddir | .rfsync | .rlock
  | .rgetlock | .rlink | .rmkdir | .rrenameat | .runlinkat | .rversion | .rauth | .rattach
  | .rflush | .rwalk | .rread | .rwrite | .rclunk | .rremove => true
  | _ => false

end MsgType

inductive Fcall
  -- 9P2000.L
  | rlerror (ecode : UInt32)
  | tstatfs (fid : UInt32)
  | rstatfs (statfs : Statfs)
  | tlopen (fid flags : UInt32)
  | rlopen (qid : Qid) (iounit : UInt32)
  | tlcreate (fid : UInt32) (name : String) (flags mode gid : UInt32)
  | rlcreate (qid : Qid) (iounit : UInt32)
  | tsymlink (fid : UInt32) (name symtgt : String) (gid : UInt32)
  | rsymlink (qid : Qid)
  | tmknod (dfid : UInt32) (name : String) (mode major minor gid : UInt32)
  | rmknod (qid : Qid)
  | trename (fid dfid : UInt32) (name : String)
  | rrename
  | treadlink (fid : UInt32)
  | rreadlink (target : String)
  | tgetattr (fid : UInt32) (reqMask : GetattrMask)
  | rgetattr (valid : GetattrMask) (qid : Qid) (stat : Stat)
  | tsetattr (fid : UInt32) (valid : SetattrMask) (stat : SetAttr)
  | rsetattr
  | txattrwalk (fid newfid : UInt32) (name : String)
  | rxattrwalk (size : UInt64)
  | txattrcreate (fid : UInt32) (name : String) (attrSize : UInt64) (flags : UInt32)
  | rxattrcreate
  | treaddir (fid : UInt32) (offset : UInt64) (count : UInt32)
  | rreaddir (data : DirEntryData)
  | tfsync (fid : UInt32)
  | rfsync
  | tlock (fid : UInt32) (flock : Flock)
  | rlock (status : LockStatus)
  | tgetlock (fid : UInt32) (flock : Getlock)
  | rgetlock (flock : Getlock)
  | tlink (dfid fid : UInt32) (name : String)
  | rlink
  | tmkdir (dfid : UInt32) (name : String) (mode gid : UInt32)
  | rmkdir (qid : Qid)
  | trenameat (olddirfid : UInt32) (oldname : String) (newdirfid : UInt32) (newname : String)
  | rrenameat
  | tunlinkat (dirfd : UInt32) (name : String) (flags : UInt32)
  | runlinkat
  -- 9P2000.u
  | tauth (afid : UInt32) (uname aname : String) (nUname : UInt32)
  | rauth (aqid : Qid)
  | tattach (fid afid : UInt32) (uname aname : String) (nUname : UInt32)
  | rattach (qid : Qid)
  -- 9P2000
  | tversion (msize : UInt32) (version : String)
  | rversion (msize : UInt32) (version : String)
  | tflush (oldtag : UInt16)
  | rflush
  | twalk (fid newfid : UInt32) (wnames : List String)
  | rwalk (wqids : List Qid)
  | tread (fid : UInt32) (offset : UInt64) (count : UInt32)
  | rread (data : Data)
  | twrite (fid : UInt32) (offset : UInt64) (data : Data)
  | rwrite (count : UInt32)
  | tclunk (fid : UInt32)
  | rclunk
  | tremove (fid : UInt32)
  | rremove
deriving DecidableEq

namespace Fcall

/-- `MsgType::from(&Fcall)`. -/
def msgType : Fcall → MsgType
  | .rlerror .. => .rlerror
  | .tstatfs .. => .tstatfs
  | .rstatfs .. => .rstatfs
  | .tlopen .. => .tlopen
  | .rlopen .. => .rlopen
  | .tlcreate .. => .tlcreate
  | .rlcreate .. => .rlcreate
  | .tsymlink .. => .tsymlink
  | .rsymlink .. => .rsymlink
  | .tmknod .. => .tmknod
  | .rmknod .. => .rmknod
  | .trename .. => .trename
  | .rrename => .rrename
  | .treadlink .. => .treadlink
  | .rreadlink .. => .rreadlink
  | .tgetattr .. => .tgetattr
  | .rgetattr .. => .rgetattr
  | .tsetattr .. => .tsetattr
  | .rsetattr => .rsetattr
  | .txattrwalk .. => .txattrwalk
  | .rxattrwalk .. => .rxattrwalk
  | .txattrcreate .. => .txattrcreate
  | .rxattrcreate => .rxattrcreate
  | .treaddir .. => .treaddir
  | .rreaddir .. => .rreaddir
  | .tfsync .. => .tfsync
  | .rfsync => .rfsync
  | .tlock .. => .tlock
  | .rlock .. => .rlock
  | .tgetlock .. => .tgetlock
  | .rgetlock .. => .rgetlock
  | .tlink .. => .tlink
  | .rlink => .rlink
  | .tmkdir .. => .tmkdir
  | .rmkdir .. => .rmkdir
  | .trenameat .. => .trenameat
  | .rrenameat => .rrenameat
  | .tunlinkat .. => .tunlinkat
  | .runlinkat => .runlinkat
  | .tauth .. => .tauth
  | .rauth .. => .rauth
  | .tattach .. => .tattach
  | .rattach .. => .rattach
  | .tversion .. => .tversion
  | .rversion .. => .rversion
  | .tflush .. => .tflush
  | .rflush => .rflush
  | .twalk .. => .twalk
  | .rwalk .. => .rwalk
  | .tread .. => .tread
  | .rread .. => .rread
  | .twrite .. => .twrite
  | .rwrite .. => .rwrite
  | .tclunk .. => .tclunk
  | .rclunk => .rclunk
  | .tremove .. => .tremove
  | .rremove => .rremove

/-- The fids which a message contains. -/
def fids : Fcall → List UInt32
  | .tstatfs fid => [fid]
  | .tlopen fid _ => [fid]
  | .tlcreate fid .. => [fid]
  | .tsymlink fid .. => [fid]
  | .tmknod dfid .. => [dfid]
  | .trename fid dfid _ => [fid, dfid]
  | .treadlink fid => [fid]
  | .tgetattr fid _ => [fid]
  | .tsetattr fid .. => [fid]
  | .txattrwalk fid .. => [fid]
  | .txattrcreate fid .. => [fid]
  | .treaddir fid .. => [fid]
  | .tfsync fid => [fid]
  | .tlock fid _ => [fid]
  | .tgetlock fid _ => [fid]
  | .tlink dfid fid _ => [dfid, fid]
  | .tmkdir dfid .. => [dfid]
  | .trenameat olddirfid _ newdirfid _ => [olddirfid, newdirfid]
  | .tunlinkat dirfd .. => [dirfd]
  | .tattach _ afid .. => if afid ≠ NOFID then [afid] else []
  | .twalk fid .. => [fid]
  | .tread fid .. => [fid]
  | .twrite fid .. => [fid]
  | .tclunk fid => [fid]
  | .tremove fid => [fid]
  | _ => []

/-- The new fid which a message contains. -/
def newfid : Fcall → Option UInt32
  | .txattrwalk _ newfid _ => some newfid
  | .tauth afid .. => some afid
  | .tattach fid .. => some fid
  | .twalk _ newfid _ => some newfid
  | _ => none

end Fcall

/-- Envelope for 9P messages. -/
structure Msg where
  tag : UInt16
  body : Fcall
deriving DecidableEq

end P9cpu.Ninep
