import P9cpu.Ninep.Path
import P9cpu.Ninep.Srv
import Mathlib.Logic.Function.Basic

/-! The filesystem server of a Unix host: its handlers as programs over the objects of its
fids and over the calls it makes to the host. -/
namespace P9cpu.Ninep
open Core

/-! The host. -/

inductive FileType
  | file | dir | symlink | other
deriving DecidableEq

def FileType.isDir (t : FileType) : Bool := t = .dir
def FileType.isSymlink (t : FileType) : Bool := t = .symlink

/-- `std::fs::Metadata` on Unix. -/
structure Metadata where
  dev : UInt64
  ino : UInt64
  fileType : FileType
  mode : UInt32
  uid : UInt32
  gid : UInt32
  nlink : UInt64
  rdev : UInt64
  size : UInt64
  blksize : UInt64
  blocks : UInt64
  atime : Int64
  atimeNsec : Int64
  mtime : Int64
  mtimeNsec : Int64
  ctime : Int64
  ctimeNsec : Int64
deriving DecidableEq

/-- `filetime::FileTime`. -/
structure FileTime where
  seconds : Int64
  nanos : UInt32
deriving DecidableEq

namespace FileTime

def fromUnixTime (seconds : Int64) (nanos : UInt32) : FileTime := ⟨seconds, nanos⟩

def fromLastAccessTime (attr : Metadata) : FileTime :=
  ⟨attr.atime, UInt32.ofNat attr.atimeNsec.toUInt64.toNat⟩

def fromLastModificationTime (attr : Metadata) : FileTime :=
  ⟨attr.mtime, UInt32.ofNat attr.mtimeNsec.toUInt64.toNat⟩

end FileTime

/-- `nix::sys::statvfs::Statvfs`. -/
structure Statvfs where
  blockSize : UInt64
  blocks : UInt64
  blocksFree : UInt64
  blocksAvailable : UInt64
  files : UInt64
  filesFree : UInt64
  filesystemId : UInt64
  nameMax : UInt64
deriving DecidableEq

/-- The identity of a `tokio::fs::File` object. -/
abbrev FileId := ℕ

/-- An entry of an open directory stream. -/
structure HostDirEntry where
  stream : ℕ
  fileName : List UInt8
deriving DecidableEq

inductive HostOp
  | symlinkMetadata (path : PathBuf)
  | metadata (path : PathBuf)
  | setPermissions (path : PathBuf) (mode : UInt32)
  | chown (path : PathBuf) (uid gid : Option UInt32)
  /-- `OpenOptions::new().write(true).create(false).open(..)` -/
  | openWrite (path : PathBuf)
  | setLen (file : FileId) (size : UInt64)
  | setFileTimes (path : PathBuf) (atime mtime : FileTime)
  | readLink (path : PathBuf)
  | readDir (path : PathBuf)
  | entryMetadata (entry : HostDirEntry)
  | open (path : PathBuf) (oflags omode : UInt32)
  | seek (file : FileId) (offset : UInt64)
  | read (file : FileId) (count : ℕ)
  | write (file : FileId) (data : List UInt8)
  | syncAll (file : FileId)
  | createDir (path : PathBuf)
  | rename (src dst : PathBuf)
  | removeDir (path : PathBuf)
  | removeFile (path : PathBuf)
  | statvfs (path : PathBuf)

/-- What each call returns; calls through `nix` fail with an errno. -/
abbrev HostRes : HostOp → Type
  | .symlinkMetadata _ | .metadata _ | .entryMetadata _ => Except IoError Metadata
  | .chown .. => Except Errno Unit
  | .open .. => Except Errno FileId
  | .openWrite _ => Except IoError FileId
  | .readLink _ => Except IoError PathBuf
  | .readDir _ => Except IoError (List (Except IoError HostDirEntry))
  | .seek .. => Except IoError UInt64
  | .read _ count => Except IoError { bytes : List UInt8 // bytes.length ≤ count }
  | .write _ data => Except IoError { n : ℕ // n ≤ data.length }
  | .statvfs _ => Except Errno Statvfs
  | .setPermissions .. | .setLen .. | .setFileTimes .. | .syncAll _ | .createDir _ | .rename ..
  | .removeDir _ | .removeFile _ => Except IoError Unit

/-! Programs over fid objects and the host. -/

/-- `realpath` is an `RwLock` and `file` is a `Mutex`; a read of `realpath` keeps the lock
until it is given back. -/
inductive UnpfsOp
  | realpathRead (obj : ObjId)
  | realpathUnread (obj : ObjId)
  | realpathWrite (obj : ObjId) (path : PathBuf)
  | fileLock (obj : ObjId)
  | fileSet (obj : ObjId) (file : FileId)
  | fileUnlock (obj : ObjId)
  | host (o : HostOp)

abbrev UnpfsRes : UnpfsOp → Type
  | .realpathRead _ => PathBuf
  | .fileLock _ => Option FileId
  | .host o => HostRes o
  | _ => Unit

abbrev UnpfsProg (α : Type) := Prog UnpfsOp UnpfsRes α
abbrev UnpfsHandler (α : Type) := Handler UnpfsOp UnpfsRes α

def op (o : UnpfsOp) : UnpfsProg (UnpfsRes o) := Prog.call o

/-- `?` on an `std::io::Result`. -/
def liftIo {α : Type} (p : UnpfsProg (Except IoError α)) : UnpfsHandler α :=
  ExceptT.mk (Except.mapError Error.io <$> p)

/-- `?` on a `nix::Result`. -/
def liftNix {α : Type} (p : UnpfsProg (Except Errno α)) : UnpfsHandler α :=
  ExceptT.mk (Except.mapError Error.no <$> p)

/-- The `Result` of an awaited call, for a `match` on it. -/
def attempt {α : Type} (h : UnpfsHandler α) : UnpfsHandler (Except Error α) :=
  ExceptT.mk (Except.ok <$> h.run)

/-- The block that clones the path under the read lock. -/
def realpath (fid : Fid) : UnpfsHandler PathBuf := do
  let path ← op (.realpathRead fid.aux)
  op (.realpathUnread fid.aux)
  return path

/-- A block that holds the read lock to its end, also when it returns early. -/
def withRealpath {α : Type} (fid : Fid) (body : PathBuf → UnpfsHandler α) : UnpfsHandler α :=
  ExceptT.mk do
    let path ← op (.realpathRead fid.aux)
    let r ← (body path).run
    op (.realpathUnread fid.aux)
    return r

def setRealpath (fid : Fid) (path : PathBuf) : UnpfsHandler Unit :=
  op (.realpathWrite fid.aux path)

def setFile (fid : Fid) (file : FileId) : UnpfsHandler Unit := do
  let _ ← op (.fileLock fid.aux)
  op (.fileSet fid.aux file)
  op (.fileUnlock fid.aux)

def INVALID_FID : IoError := .custom .invalidInput "Invalid fid"

/-- A block that holds the lock of the open file to its end, also when it returns early. -/
def withFile {α : Type} (fid : Fid) (body : FileId → UnpfsHandler α) : UnpfsHandler α :=
  ExceptT.mk do
    let file ← op (.fileLock fid.aux)
    let r ← (match file with
      | some file => body file
      | none => throw (Error.io INVALID_FID)).run
    op (.fileUnlock fid.aux)
    return r

/-! Conversions. -/

def QidType.ofFileType (typ : FileType) : QidType :=
  let qidType := QidType.FILE
  let qidType := if typ.isDir then QidType.insert qidType QidType.DIR else qidType
  if typ.isSymlink then QidType.insert qidType QidType.SYMLINK else qidType

def qidFromAttr (attr : Metadata) : Qid := ⟨QidType.ofFileType attr.fileType, 0, attr.ino⟩

def Stat.ofMetadata (attr : Metadata) : Stat where
  mode := attr.mode
  uid := attr.uid
  gid := attr.gid
  nlink := attr.nlink
  rdev := attr.rdev
  size := attr.size
  blksize := attr.blksize
  blocks := attr.blocks
  atime := ⟨attr.atime.toUInt64, attr.atimeNsec.toUInt64⟩
  mtime := ⟨attr.mtime.toUInt64, attr.mtimeNsec.toUInt64⟩
  ctime := ⟨attr.ctime.toUInt64, attr.ctimeNsec.toUInt64⟩

def Statfs.ofStatvfs (buf : Statvfs) : Statfs where
  typ := 0
  bsize := buf.blockSize.toUInt32
  blocks := buf.blocks
  bfree := buf.blocksFree
  bavail := buf.blocksAvailable
  files := buf.files
  ffree := buf.filesFree
  fsid := buf.filesystemId
  namelen := buf.nameMax.toUInt32

def getQid (path : PathBuf) : UnpfsHandler Qid := do
  let attr ← liftIo (op (.host (.symlinkMetadata path)))
  return qidFromAttr attr

def getDirentFrom (path : PathBuf) (offset : UInt64) : UnpfsHandler DirEntry := do
  let qid ← getQid path
  return ⟨qid, offset, 0, path.toStringLossy⟩

def getDirent (entry : HostDirEntry) (offset : UInt64) : UnpfsHandler DirEntry := do
  let attr ← liftIo (op (.host (.entryMetadata entry)))
  return ⟨qidFromAttr attr, offset, 0, fromUtf8Lossy entry.fileName⟩

/-! Handlers. -/

/-- `O_WRONLY | O_RDONLY | O_RDWR | O_CREAT | O_TRUNC` -/
def UNIX_FLAGS : UInt32 := 0o1 ||| 0o0 ||| 0o2 ||| 0o100 ||| 0o1000

/-- `OFlag::from_bits_truncate` of the flags that are let through. -/
def oflagsOf (flags : UInt32) : UInt32 := flags &&& UNIX_FLAGS

/-- `Mode::from_bits_truncate`. -/
def omodeOf (mode : UInt32) : UInt32 := mode &&& 0o7777

namespace Unpfs

def rattach (realroot : PathBuf) (fid : Fid) (_afid : Option Fid) (_uname _aname : String)
    (_nUname : UInt32) : UnpfsHandler Fcall := do
  setRealpath fid realroot
  return .rattach (← getQid realroot)

/-- The loop over `wnames` from index `i` on; the name whose lookup fails stays pushed. -/
def walkLoop : List String → ℕ → PathBuf → List Qid → UnpfsHandler (PathBuf × List Qid)
  | [], _, path, wqids => return (path, wqids)
  | name :: wnames, i, path, wqids => do
    let path := path.push name
    match ← attempt (getQid path) with
    | .ok qid => walkLoop wnames (i + 1) path (wqids ++ [qid])
    | .error e => if i = 0 then throw e else return (path, wqids)

def rwalk (fid newfid : Fid) (wnames : List String) : UnpfsHandler Fcall := do
  let path ← realpath fid
  let (path, wqids) ← walkLoop wnames 0 path []
  setRealpath newfid path
  return .rwalk wqids

def rgetattr (fid : Fid) (reqMask : GetattrMask) : UnpfsHandler Fcall := do
  let attr ← withRealpath fid (fun path => liftIo (op (.host (.symlinkMetadata path))))
  return .rgetattr reqMask (qidFromAttr attr) (Stat.ofMetadata attr)

/-! The four blocks of `rsetattr`. -/

def setMode (filepath : PathBuf) (valid : SetattrMask) (stat : SetAttr) : UnpfsHandler Unit :=
  if valid.contains SetattrMask.MODE then
    liftIo (op (.host (.setPermissions filepath stat.mode)))
  else return

def setOwner (filepath : PathBuf) (valid : SetattrMask) (stat : SetAttr) : UnpfsHandler Unit :=
  if valid.intersects (SetattrMask.UID ||| SetattrMask.GID) then
    let uid := if valid.contains SetattrMask.UID then some stat.uid else none
    let gid := if valid.contains SetattrMask.GID then some stat.gid else none
    liftNix (op (.host (.chown filepath uid gid)))
  else return

def setSize (filepath : PathBuf) (valid : SetattrMask) (stat : SetAttr) : UnpfsHandler Unit :=
  if valid.contains SetattrMask.SIZE then do
    let file ← liftIo (op (.host (.openWrite filepath)))
    liftIo (op (.host (.setLen file stat.size)))
  else return

def setTimes (filepath : PathBuf) (valid : SetattrMask) (stat : SetAttr) : UnpfsHandler Unit :=
  if valid.intersects (SetattrMask.ATIME_SET ||| SetattrMask.MTIME_SET) then do
    let attr ← liftIo (op (.host (.metadata filepath)))
    let atime :=
      if valid.contains SetattrMask.ATIME_SET then
        FileTime.fromUnixTime stat.atime.sec.toInt64 stat.atime.nsec.toUInt32
      else FileTime.fromLastAccessTime attr
    let mtime :=
      if valid.contains SetattrMask.MTIME_SET then
        FileTime.fromUnixTime stat.mtime.sec.toInt64 stat.mtime.nsec.toUInt32
      else FileTime.fromLastModificationTime attr
    -- `let _ =`: the result is dropped
    let _ ← op (.host (.setFileTimes filepath atime mtime))
    return
  else return

def rsetattr (fid : Fid) (valid : SetattrMask) (stat : SetAttr) : UnpfsHandler Fcall := do
  let filepath ← realpath fid
  setMode filepath valid stat
  setOwner filepath valid stat
  setSize filepath valid stat
  setTimes filepath valid stat
  return .rsetattr

def rreadlink (fid : Fid) : UnpfsHandler Fcall := do
  let link ← withRealpath fid (fun path => liftIo (op (.host (.readLink path))))
  return .rreadlink link.toStringLossy

/-- The two entries that a listing starts with, and the entries that are skipped. -/
def readdirStart (off : UInt64) : UnpfsHandler (DirEntryData × ℕ) := do
  let dirents := DirEntryData.new
  if off = 0 then
    let dirents := dirents.push (← getDirentFrom (.ofString ".") 0)
    let dirents := dirents.push (← getDirentFrom (.ofString "..") 1)
    return (dirents, off.toNat)
  else return (dirents, (off - 1).toNat)

/-- The loop over the stream of entries; `i` starts at the offset. -/
def readdirLoop (count : UInt32) :
    List (Except IoError HostDirEntry) → ℕ → DirEntryData → UnpfsHandler DirEntryData
  | [], _, dirents => return dirents
  | entry :: entries, i, dirents => do
    let entry ← liftIo (pure entry)
    let dirent ← getDirent entry (UInt64.ofNat (2 + i))
    if count < dirents.size + dirent.size then return dirents
    else readdirLoop count entries (i + 1) (dirents.push dirent)

def rreaddir (fid : Fid) (off : UInt64) (count : UInt32) : UnpfsHandler Fcall := do
  let (dirents, offset) ← readdirStart off
  let entries ← withRealpath fid (fun path => liftIo (op (.host (.readDir path))))
  let dirents ← readdirLoop count (entries.drop offset) offset dirents
  return .rreaddir dirents

def rlopen (fid : Fid) (flags : UInt32) : UnpfsHandler Fcall := do
  let path ← realpath fid
  let qid ← getQid path
  if !qid.typ.contains QidType.DIR then
    let fd ← liftNix (op (.host (.open path (oflagsOf flags) (omodeOf 0))))
    setFile fid fd
  return .rlopen qid 0

def rlcreate (fid : Fid) (name : String) (flags mode _gid : UInt32) : UnpfsHandler Fcall := do
  let path := (← realpath fid).join name
  let fd ← liftNix (op (.host (.open path (oflagsOf flags) (omodeOf mode))))
  let qid ← getQid path
  setRealpath fid path
  setFile fid fd
  return .rlcreate qid 0

def rread (fid : Fid) (offset : UInt64) (count : UInt32) : UnpfsHandler Fcall := do
  let buf ← withFile fid (fun file => do
    let _ ← liftIo (op (.host (.seek file offset)))
    let bytes ← liftIo (op (.host (.read file count.toNat)))
    return bytes.val)
  return .rread ⟨buf⟩

def rwrite (fid : Fid) (offset : UInt64) (data : Data) : UnpfsHandler Fcall := do
  let count ← withFile fid (fun file => do
    let _ ← liftIo (op (.host (.seek file offset)))
    let n ← liftIo (op (.host (.write file data.bytes)))
    return UInt32.ofNat n.val)
  return .rwrite count

def rmkdir (dfid : Fid) (name : String) (_mode _gid : UInt32) : UnpfsHandler Fcall := do
  let path := (← realpath dfid).join name
  liftIo (op (.host (.createDir path)))
  return .rmkdir (← getQid path)

def rrenameat (olddir : Fid) (oldname : String) (newdir : Fid) (newname : String) :
    UnpfsHandler Fcall := do
  let oldpath := (← realpath olddir).join oldname
  let newpath := (← realpath newdir).join newname
  liftIo (op (.host (.rename oldpath newpath)))
  return .rrenameat

def runlinkat (dirfid : Fid) (name : String) (_flags : UInt32) : UnpfsHandler Fcall := do
  let path := (← realpath dirfid).join name
  let attr ← liftIo (op (.host (.symlinkMetadata path)))
  if attr.fileType.isDir then liftIo (op (.host (.removeDir path)))
  else liftIo (op (.host (.removeFile path)))
  return .runlinkat

def rfsync (fid : Fid) : UnpfsHandler Fcall := do
  withFile fid (fun file => liftIo (op (.host (.syncAll file))))
  return .rfsync

def rclunk (_ : Fid) : UnpfsHandler Fcall := return .rclunk

def rstatfs (fid : Fid) : UnpfsHandler Fcall := do
  let path ← realpath fid
  let fs ← liftNix (op (.host (.statvfs path)))
  return .rstatfs (.ofStatvfs fs)

end Unpfs

/-- `impl Filesystem for Unpfs`. -/
def Unpfs (realroot : PathBuf) : Filesystem UnpfsOp UnpfsRes where
  rattach := Unpfs.rattach realroot
  rwalk := Unpfs.rwalk
  rgetattr := Unpfs.rgetattr
  rsetattr := Unpfs.rsetattr
  rreadlink := Unpfs.rreadlink
  rreaddir := Unpfs.rreaddir
  rlopen := Unpfs.rlopen
  rlcreate := Unpfs.rlcreate
  rread := Unpfs.rread
  rwrite := Unpfs.rwrite
  rmkdir := Unpfs.rmkdir
  rrenameat := Unpfs.rrenameat
  runlinkat := Unpfs.runlinkat
  rfsync := Unpfs.rfsync
  rclunk := Unpfs.rclunk
  rstatfs := Unpfs.rstatfs

end P9cpu.Ninep
