import P9cpu.Ninep.Lexical
import P9cpu.Ninep.Unpfs

/-! What the handlers of the host filesystem touch: the paths that they hand to the host, and
the objects of fids that they read and write. -/
namespace P9cpu.Ninep
open Core Prog

/-- The handler that `Unpfs` has for a request, with its fids looked up. -/
inductive Routed (realroot : PathBuf) (fids : FidTable) (aux : ObjId) :
    Fcall → UnpfsHandler Fcall → Prop
  | rstatfs {fid b} (hb : fids.get fid = some b) :
      Routed realroot fids aux (.tstatfs fid) (Unpfs.rstatfs b)
  | rlopen {fid b} (flags : UInt32) (hb : fids.get fid = some b) :
      Routed realroot fids aux (.tlopen fid flags) (Unpfs.rlopen b flags)
  | rlcreate {fid b} (name : String) (flags mode gid : UInt32) (hb : fids.get fid = some b) :
      Routed realroot fids aux (.tlcreate fid name flags mode gid)
        (Unpfs.rlcreate b name flags mode gid)
  | rreadlink {fid b} (hb : fids.get fid = some b) :
      Routed realroot fids aux (.treadlink fid) (Unpfs.rreadlink b)
  | rgetattr {fid b} (reqMask : GetattrMask) (hb : fids.get fid = some b) :
      Routed realroot fids aux (.tgetattr fid reqMask) (Unpfs.rgetattr b reqMask)
  | rsetattr {fid b} (valid : SetattrMask) (stat : SetAttr) (hb : fids.get fid = some b) :
      Routed realroot fids aux (.tsetattr fid valid stat) (Unpfs.rsetattr b valid stat)
  | rreaddir {fid b} (offset : UInt64) (count : UInt32) (hb : fids.get fid = some b) :
      Routed realroot fids aux (.treaddir fid offset count) (Unpfs.rreaddir b offset count)
  | rfsync {fid b} (hb : fids.get fid = some b) :
      Routed realroot fids aux (.tfsync fid) (Unpfs.rfsync b)
  | rmkdir {dfid b} (name : String) (mode gid : UInt32) (hb : fids.get dfid = some b) :
      Routed realroot fids aux (.tmkdir dfid name mode gid) (Unpfs.rmkdir b name mode gid)
  | rrenameat {olddirfid newdirfid b c} (oldname newname : String)
      (hb : fids.get olddirfid = some b) (hc : fids.get newdirfid = some c) :
      Routed realroot fids aux (.trenameat olddirfid oldname newdirfid newname)
        (Unpfs.rrenameat b oldname c newname)
  | runlinkat {dirfd b} (name : String) (flags : UInt32) (hb : fids.get dirfd = some b) :
      Routed realroot fids aux (.tunlinkat dirfd name flags) (Unpfs.runlinkat b name flags)
  | rattach (fid afid : UInt32) (uname aname : String) (nUname : UInt32) :
      Routed realroot fids aux (.tattach fid afid uname aname nUname)
        (Unpfs.rattach realroot ⟨fid, aux⟩ none uname aname nUname)
  | rwalk {fid b} (newfid : UInt32) (wnames : List String) (hb : fids.get fid = some b) :
      Routed realroot fids aux (.twalk fid newfid wnames) (Unpfs.rwalk b ⟨newfid, aux⟩ wnames)
  | rread {fid b} (offset : UInt64) (count : UInt32) (hb : fids.get fid = some b) :
      Routed realroot fids aux (.tread fid offset count) (Unpfs.rread b offset count)
  | rwrite {fid b} (offset : UInt64) (data : Data) (hb : fids.get fid = some b) :
      Routed realroot fids aux (.twrite fid offset data) (Unpfs.rwrite b offset data)
  | rclunk {fid b} (hb : fids.get fid = some b) :
      Routed realroot fids aux (.tclunk fid) (Unpfs.rclunk b)
  | rversion (msize : UInt32) (version : String) :
      Routed realroot fids aux (.tversion msize version)
        (return .rversion msize (if version = P92000L then version else VERSION_UNKNOWN))
  /-- what `Unpfs` does not implement -/
  | unsupported (body : Fcall) :
      Routed realroot fids aux body (throw (.no Errno.EOPNOTSUPP))

theorem getFid_eq_ok {fids : FidTable} {fid : UInt32} {b : Fid} :
    getFid fids fid = .ok b ↔ fids.get fid = some b := by
  unfold getFid
  cases fids.get fid with
  | none => simp
  | some c => simp

theorem routed_of_route {realroot : PathBuf} {fids : FidTable} {aux : ObjId} {body : Fcall}
    {handler : UnpfsHandler Fcall}
    (h : route (Unpfs realroot) fids (newFid body aux) body = .ok handler) :
    Routed realroot fids aux body handler := by
  cases body
  all_goals
    simp only [route, newFid, Fcall.newfid, unwrap, Option.map_some, bind_eq_ok, getFid_eq_ok, pure,
      Except.pure, Except.ok.injEq, exists_eq_left', reduceCtorEq] at h
  case trenameat olddirfid oldname newdirfid newname =>
    obtain ⟨b, hb, c, hc, rfl⟩ := h
    exact .rrenameat oldname newname hb hc
  case trename | tlink =>
    obtain ⟨b, hb, c, hc, rfl⟩ := h
    exact .unsupported _
  case tversion msize version =>
    subst h
    exact .rversion msize version
  case tattach fid afid uname aname nUname =>
    subst h
    exact .rattach fid afid uname aname nUname
  case tflush | tauth =>
    subst h
    exact .unsupported _
  all_goals obtain ⟨b, hb, rfl⟩ := h
  case tstatfs => exact .rstatfs hb
  case tlopen flags => exact .rlopen flags hb
  case tlcreate name flags mode gid => exact .rlcreate name flags mode gid hb
  case treadlink => exact .rreadlink hb
  case tgetattr reqMask => exact .rgetattr reqMask hb
  case tsetattr valid stat => exact .rsetattr valid stat hb
  case treaddir offset count => exact .rreaddir offset count hb
  case tfsync => exact .rfsync hb
  case tmkdir name mode gid => exact .rmkdir name mode gid hb
  case tunlinkat name flags => exact .runlinkat name flags hb
  case twalk newfid wnames => exact .rwalk newfid wnames hb
  case tread offset count => exact .rread offset count hb
  case twrite offset data => exact .rwrite offset data hb
  case tclunk => exact .rclunk hb
  all_goals exact .unsupported _

/-- The paths in a call to the host. -/
def HostOp.paths : HostOp → List PathBuf
  | .symlinkMetadata path | .metadata path | .setPermissions path _ | .chown path .. => [path]
  | .openWrite path | .setFileTimes path .. | .readLink path | .readDir path => [path]
  | .open path .. | .createDir path | .removeDir path | .removeFile path | .statvfs path => [path]
  | .rename src dst => [src, dst]
  | .setLen .. | .entryMetadata _ | .seek .. | .read .. | .write .. | .syncAll _ => []

/-- The names in a request that its handler appends to the path of a fid, one list for each
path that it builds. -/
def Fcall.appended : Fcall → List (List String)
  | .twalk _ _ wnames => [wnames]
  | .tlcreate _ name .. | .tmkdir _ name .. | .tunlinkat _ name _ => [[name]]
  | .trenameat _ oldname _ newname => [[oldname], [newname]]
  | _ => []

/-- Every path that the names lead to, on the way or at the end. -/
def Appends (From Good : PathBuf → Prop) (names : List String) : Prop :=
  ∀ path, From path → ∀ k, Good (path.pushAll (names.take k))

theorem Appends.push {From Good : PathBuf → Prop} {name : String} (h : Appends From Good [name])
    {path : PathBuf} (hpath : From path) : Good (path.push name) := h path hpath 1

/-- The object that the handler of a request may write to. -/
def changes (fids : FidTable) (aux : ObjId) : Fcall → Option ObjId
  | .tlopen fid _ | .tlcreate fid .. => (fids.get fid).map Fid.aux
  | .twalk .. | .tattach .. => some aux
  | _ => none

/-- `P` allows to look at the objects in `Reads`, whose paths are in `From`, and to call the host
with good paths. -/
structure Footprint (P : UnpfsOp → Prop) (C : (o : UnpfsOp) → UnpfsRes o → Prop)
    (Reads : ObjId → Prop) (From Good : PathBuf → Prop) : Prop where
  realpathRead : ∀ a, Reads a → P (.realpathRead a)
  realpathUnread : ∀ a, P (.realpathUnread a)
  fileLock : ∀ a, P (.fileLock a)
  fileUnlock : ∀ a, P (.fileUnlock a)
  realpath : ∀ a path, C (.realpathRead a) path → From path
  good : ∀ path, From path → Good path
  host : ∀ o : HostOp, (∀ path ∈ o.paths, Good path) → P (.host o)
  /-- `rreaddir` looks these up in the directory that the server was started in -/
  dots : ∀ name ∈ [".", ".."], P (.host (.symlinkMetadata (.ofString name)))

section
variable {P : UnpfsOp → Prop} {C : (o : UnpfsOp) → UnpfsRes o → Prop}
  {Reads : ObjId → Prop} {From Good : PathBuf → Prop} {α β : Type} {Q : α → Prop}

theorem uses_liftIo {p : UnpfsProg (Except IoError α)}
    (h : p.Performs P C (fun r => ∀ a, r = .ok a → Q a)) : Uses P C Q (liftIo p) := by
  unfold Uses liftIo
  rw [ExceptT.run_mk, performs_map]
  refine h.mono fun r hr => ?_
  cases r with
  | ok a => simpa [Except.mapError] using hr
  | error e => simp [Except.mapError]

theorem uses_liftNix {p : UnpfsProg (Except Errno α)}
    (h : p.Performs P C (fun r => ∀ a, r = .ok a → Q a)) : Uses P C Q (liftNix p) := by
  unfold Uses liftNix
  rw [ExceptT.run_mk, performs_map]
  refine h.mono fun r hr => ?_
  cases r with
  | ok a => simpa [Except.mapError] using hr
  | error e => simp [Except.mapError]

theorem uses_attempt {h : UnpfsHandler α} (hh : Uses P C Q h) :
    Uses P C (fun _ => True) (attempt h) := by
  unfold Uses attempt
  rw [ExceptT.run_mk, performs_map]
  exact Performs.mono hh fun _ _ _ _ => True.intro

theorem uses_setRealpath {fid : Fid} {path : PathBuf} (h : P (.realpathWrite fid.aux path)) :
    Uses P C (fun _ => True) (setRealpath fid path) :=
  ⟨h, fun _ _ _ _ => True.intro⟩

namespace Footprint

variable (H : Footprint P C Reads From Good)
include H

theorem uses_realpath {fid : Fid} (hread : Reads fid.aux) :
    Uses P C From (Ninep.realpath fid) := by
  refine ⟨H.realpathRead fid.aux hread, fun path hpath => ?_⟩
  refine ⟨H.realpathUnread fid.aux, fun _ _ => ?_⟩
  rintro a ha
  cases ha
  exact H.realpath fid.aux path hpath

theorem uses_withRealpath {fid : Fid} (hread : Reads fid.aux) {body : PathBuf → UnpfsHandler α}
    (h : ∀ path, From path → Uses P C (fun _ => True) (body path)) :
    Uses P C (fun _ => True) (withRealpath fid body) := by
  simp only [Uses, withRealpath, ExceptT.run_mk, performs_bind]
  refine ⟨H.realpathRead fid.aux hread, fun path hpath => ?_⟩
  rw [performs_ret]
  refine Performs.mono (h path (H.realpath fid.aux path hpath)) fun r _ => ?_
  exact ⟨H.realpathUnread fid.aux, fun _ _ _ _ => True.intro⟩

theorem uses_withFile {fid : Fid} {body : FileId → UnpfsHandler α}
    (h : ∀ file, Uses P C (fun _ => True) (body file)) :
    Uses P C (fun _ => True) (withFile fid body) := by
  simp only [Uses, withFile, ExceptT.run_mk, performs_bind]
  refine ⟨H.fileLock fid.aux, fun file _ => ?_⟩
  rw [performs_ret]
  have hunlock := H.fileUnlock fid.aux
  cases file with
  | some file =>
    exact Performs.mono (h file) fun r _ => ⟨hunlock, fun _ _ _ _ => True.intro⟩
  | none =>
    have hthrow : Uses P C (fun _ => True) (throw (Error.io INVALID_FID) : UnpfsHandler α) :=
      uses_throw _
    exact Performs.mono hthrow fun r _ => ⟨hunlock, fun _ _ _ _ => True.intro⟩

theorem uses_setFile {fid : Fid} {file : FileId} (h : P (.fileSet fid.aux file)) :
    Uses P C (fun _ => True) (setFile fid file) := by
  refine ⟨H.fileLock fid.aux, fun _ _ => ⟨h, fun _ _ => ?_⟩⟩
  exact ⟨H.fileUnlock fid.aux, fun _ _ _ _ => True.intro⟩

theorem uses_getQid {path : PathBuf} (h : Good path) : Uses P C (fun _ => True) (getQid path) := by
  refine uses_bind (Q := fun _ => True) ?_ fun attr _ => (uses_pure _).mpr True.intro
  exact uses_liftIo ⟨H.host _ (by simpa [HostOp.paths] using h), fun _ _ _ _ => True.intro⟩

theorem host_one {o : HostOp} {path : PathBuf} (ho : o.paths = [path]) (h : Good path) :
    P (.host o) := by
  apply H.host
  rw [ho]
  simpa using h

theorem host_none {o : HostOp} (ho : o.paths = []) : P (.host o) := by
  apply H.host
  rw [ho]
  simp

/-! Handlers. -/

theorem uses_walkLoop (wnames : List String) (i : ℕ) {path : PathBuf}
    (hpath : ∀ k, Good (path.pushAll (wnames.take k))) (wqids : List Qid) :
    Uses P C (fun x => Good x.1) (Unpfs.walkLoop wnames i path wqids) := by
  induction wnames generalizing i path wqids with
  | nil => exact (uses_pure _).mpr (hpath 0)
  | cons name wnames ih =>
    rw [Unpfs.walkLoop]
    have hpush : Good (path.push name) := hpath 1
    refine uses_bind (uses_attempt (H.uses_getQid hpush)) fun r _ => ?_
    cases r with
    | ok qid => exact ih (i + 1) (fun k => hpath (k + 1)) _
    | error e =>
      dsimp only
      split_ifs
      · exact uses_throw _
      · exact (uses_pure _).mpr hpush

theorem uses_rwalk {fid : Fid} (hread : Reads fid.aux) (newfid : Fid) {wnames : List String}
    (hnames : Appends From Good wnames)
    (hwrite : ∀ path, Good path → P (.realpathWrite newfid.aux path)) :
    Uses P C (fun _ => True) (Unpfs.rwalk fid newfid wnames) := by
  unfold Unpfs.rwalk
  refine uses_bind (H.uses_realpath hread) fun path hpath => ?_
  refine uses_bind (H.uses_walkLoop wnames 0 (hnames path hpath) []) fun x hx => ?_
  exact uses_bind (uses_setRealpath (hwrite x.1 hx)) fun _ _ => (uses_pure _).mpr True.intro

theorem uses_rattach {realroot : PathBuf} (hroot : Good realroot) (fid : Fid)
    (hwrite : P (.realpathWrite fid.aux realroot)) (afid : Option Fid) (uname aname : String)
    (nUname : UInt32) :
    Uses P C (fun _ => True) (Unpfs.rattach realroot fid afid uname aname nUname) := by
  unfold Unpfs.rattach
  refine uses_bind (uses_setRealpath hwrite) fun _ _ => ?_
  exact uses_bind (H.uses_getQid hroot) fun _ _ => (uses_pure _).mpr True.intro

theorem uses_rgetattr {fid : Fid} (hread : Reads fid.aux) (reqMask : GetattrMask) :
    Uses P C (fun _ => True) (Unpfs.rgetattr fid reqMask) := by
  unfold Unpfs.rgetattr
  refine uses_bind (H.uses_withRealpath hread fun path hpath => ?_) fun _ _ => ?_
  · exact uses_liftIo ⟨H.host_one rfl (H.good path hpath), fun _ _ _ _ => True.intro⟩
  · exact (uses_pure _).mpr True.intro

theorem uses_setMode {path : PathBuf} (hpath : Good path) (valid : SetattrMask) (stat : SetAttr) :
    Uses P C (fun _ => True) (Unpfs.setMode path valid stat) := by
  unfold Unpfs.setMode
  split_ifs
  · exact uses_liftIo ⟨H.host_one rfl hpath, fun _ _ _ _ => True.intro⟩
  · exact (uses_pure _).mpr True.intro

theorem uses_setOwner {path : PathBuf} (hpath : Good path) (valid : SetattrMask) (stat : SetAttr) :
    Uses P C (fun _ => True) (Unpfs.setOwner path valid stat) := by
  unfold Unpfs.setOwner
  by_cases h : valid.intersects (SetattrMask.UID ||| SetattrMask.GID) = true
  · rw [if_pos h]
    exact uses_liftNix ⟨H.host_one rfl hpath, fun _ _ _ _ => True.intro⟩
  · rw [if_neg h]
    exact (uses_pure _).mpr True.intro

theorem uses_setSize {path : PathBuf} (hpath : Good path) (valid : SetattrMask) (stat : SetAttr) :
    Uses P C (fun _ => True) (Unpfs.setSize path valid stat) := by
  unfold Unpfs.setSize
  split_ifs
  · refine uses_bind (Q := fun _ => True) ?_ fun file _ => ?_
    · exact uses_liftIo ⟨H.host_one rfl hpath, fun _ _ _ _ => True.intro⟩
    · exact uses_liftIo ⟨H.host_none rfl, fun _ _ _ _ => True.intro⟩
  · exact (uses_pure _).mpr True.intro

theorem uses_setTimes {path : PathBuf} (hpath : Good path) (valid : SetattrMask) (stat : SetAttr) :
    Uses P C (fun _ => True) (Unpfs.setTimes path valid stat) := by
  unfold Unpfs.setTimes
  by_cases h : valid.intersects (SetattrMask.ATIME_SET ||| SetattrMask.MTIME_SET) = true
  · rw [if_pos h]
    refine uses_bind (Q := fun _ => True) ?_ fun attr _ => ?_
    · exact uses_liftIo ⟨H.host_one rfl hpath, fun _ _ _ _ => True.intro⟩
    · exact ⟨H.host_one rfl hpath, fun _ _ _ _ => True.intro⟩
  · rw [if_neg h]
    exact (uses_pure _).mpr True.intro

theorem uses_rsetattr {fid : Fid} (hread : Reads fid.aux) (valid : SetattrMask) (stat : SetAttr) :
    Uses P C (fun _ => True) (Unpfs.rsetattr fid valid stat) := by
  unfold Unpfs.rsetattr
  refine uses_bind (H.uses_realpath hread) fun path hpath => ?_
  refine uses_bind (H.uses_setMode (H.good _ hpath) valid stat) fun _ _ => ?_
  refine uses_bind (H.uses_setOwner (H.good _ hpath) valid stat) fun _ _ => ?_
  refine uses_bind (H.uses_setSize (H.good _ hpath) valid stat) fun _ _ => ?_
  refine uses_bind (H.uses_setTimes (H.good _ hpath) valid stat) fun _ _ => ?_
  exact (uses_pure _).mpr True.intro

theorem uses_rreadlink {fid : Fid} (hread : Reads fid.aux) :
    Uses P C (fun _ => True) (Unpfs.rreadlink fid) := by
  unfold Unpfs.rreadlink
  refine uses_bind (H.uses_withRealpath hread fun path hpath => ?_) fun _ _ => ?_
  · exact uses_liftIo ⟨H.host_one rfl (H.good path hpath), fun _ _ _ _ => True.intro⟩
  · exact (uses_pure _).mpr True.intro

theorem uses_getDirent (entry : HostDirEntry) (offset : UInt64) :
    Uses P C (fun _ => True) (getDirent entry offset) := by
  unfold getDirent
  refine uses_bind (Q := fun _ => True) ?_ fun _ _ => (uses_pure _).mpr True.intro
  exact uses_liftIo ⟨H.host_none rfl, fun _ _ _ _ => True.intro⟩

theorem uses_getDirentFrom {name : String} (hname : name ∈ [".", ".."]) (offset : UInt64) :
    Uses P C (fun _ => True) (getDirentFrom (.ofString name) offset) := by
  unfold getDirentFrom getQid
  refine uses_bind (Q := fun _ => True) ?_ fun _ _ => (uses_pure _).mpr True.intro
  refine uses_bind (Q := fun _ => True) ?_ fun _ _ => (uses_pure _).mpr True.intro
  exact uses_liftIo ⟨H.dots name hname, fun _ _ _ _ => True.intro⟩

theorem uses_readdirStart (off : UInt64) : Uses P C (fun _ => True) (Unpfs.readdirStart off) := by
  unfold Unpfs.readdirStart
  dsimp only
  split_ifs
  · refine uses_bind (H.uses_getDirentFrom (by simp) 0) fun _ _ => ?_
    exact uses_bind (H.uses_getDirentFrom (by simp) 1) fun _ _ => (uses_pure _).mpr True.intro
  · exact (uses_pure _).mpr True.intro

theorem uses_readdirLoop (count : UInt32) (entries : List (Except IoError HostDirEntry)) (i : ℕ)
    (dirents : DirEntryData) :
    Uses P C (fun _ => True) (Unpfs.readdirLoop count entries i dirents) := by
  induction entries generalizing i dirents with
  | nil => exact (uses_pure _).mpr True.intro
  | cons entry entries ih =>
    rw [Unpfs.readdirLoop]
    refine uses_bind (Q := fun _ => True) (uses_liftIo fun _ _ => True.intro) fun entry _ => ?_
    refine uses_bind (H.uses_getDirent entry _) fun dirent _ => ?_
    split_ifs
    · exact (uses_pure _).mpr True.intro
    · exact ih (i + 1) _

theorem uses_rreaddir {fid : Fid} (hread : Reads fid.aux) (off : UInt64) (count : UInt32) :
    Uses P C (fun _ => True) (Unpfs.rreaddir fid off count) := by
  unfold Unpfs.rreaddir
  refine uses_bind (H.uses_readdirStart off) fun x _ => ?_
  refine uses_bind (H.uses_withRealpath hread fun path hpath => ?_) fun entries _ => ?_
  · exact uses_liftIo ⟨H.host_one rfl (H.good path hpath), fun _ _ _ _ => True.intro⟩
  · exact uses_bind (H.uses_readdirLoop count _ _ _) fun _ _ => (uses_pure _).mpr True.intro

theorem uses_rlopen {fid : Fid} (hread : Reads fid.aux) (flags : UInt32)
    (hset : ∀ file, P (.fileSet fid.aux file)) :
    Uses P C (fun _ => True) (Unpfs.rlopen fid flags) := by
  unfold Unpfs.rlopen
  refine uses_bind (H.uses_realpath hread) fun path hpath => ?_
  refine uses_bind (H.uses_getQid (H.good path hpath)) fun qid _ => ?_
  split_ifs
  · refine uses_bind (Q := fun _ => True) ?_ fun fd _ => ?_
    · exact uses_liftNix ⟨H.host_one rfl (H.good path hpath), fun _ _ _ _ => True.intro⟩
    · exact uses_bind (H.uses_setFile (hset fd)) fun _ _ => (uses_pure _).mpr True.intro
  · exact (uses_pure _).mpr True.intro

theorem uses_rlcreate {fid : Fid} (hread : Reads fid.aux) {name : String} (flags mode gid : UInt32)
    (hname : Appends From Good [name])
    (hwrite : ∀ path, Good path → P (.realpathWrite fid.aux path))
    (hset : ∀ file, P (.fileSet fid.aux file)) :
    Uses P C (fun _ => True) (Unpfs.rlcreate fid name flags mode gid) := by
  unfold Unpfs.rlcreate
  refine uses_bind (H.uses_realpath hread) fun path hpath => ?_
  have hjoin : Good (path.join name) := hname.push hpath
  refine uses_bind (Q := fun _ => True) ?_ fun fd _ => ?_
  · exact uses_liftNix ⟨H.host_one rfl hjoin, fun _ _ _ _ => True.intro⟩
  · refine uses_bind (H.uses_getQid hjoin) fun qid _ => ?_
    refine uses_bind (uses_setRealpath (hwrite _ hjoin)) fun _ _ => ?_
    exact uses_bind (H.uses_setFile (hset fd)) fun _ _ => (uses_pure _).mpr True.intro

theorem uses_rread (fid : Fid) (offset : UInt64) (count : UInt32) :
    Uses P C (fun _ => True) (Unpfs.rread fid offset count) := by
  unfold Unpfs.rread
  refine uses_bind (H.uses_withFile fun file => ?_) fun _ _ => (uses_pure _).mpr True.intro
  refine uses_bind (Q := fun _ => True) ?_ fun _ _ => ?_
  · exact uses_liftIo ⟨H.host_none rfl, fun _ _ _ _ => True.intro⟩
  · refine uses_bind (Q := fun _ => True) ?_ fun _ _ => (uses_pure _).mpr True.intro
    exact uses_liftIo ⟨H.host_none rfl, fun _ _ _ _ => True.intro⟩

theorem uses_rwrite (fid : Fid) (offset : UInt64) (data : Data) :
    Uses P C (fun _ => True) (Unpfs.rwrite fid offset data) := by
  unfold Unpfs.rwrite
  refine uses_bind (H.uses_withFile fun file => ?_) fun _ _ => (uses_pure _).mpr True.intro
  refine uses_bind (Q := fun _ => True) ?_ fun _ _ => ?_
  · exact uses_liftIo ⟨H.host_none rfl, fun _ _ _ _ => True.intro⟩
  · refine uses_bind (Q := fun _ => True) ?_ fun _ _ => (uses_pure _).mpr True.intro
    exact uses_liftIo ⟨H.host_none rfl, fun _ _ _ _ => True.intro⟩

theorem uses_rmkdir {dfid : Fid} (hread : Reads dfid.aux) {name : String} (mode gid : UInt32)
    (hname : Appends From Good [name]) :
    Uses P C (fun _ => True) (Unpfs.rmkdir dfid name mode gid) := by
  unfold Unpfs.rmkdir
  refine uses_bind (H.uses_realpath hread) fun path hpath => ?_
  have hjoin : Good (path.join name) := hname.push hpath
  refine uses_bind (Q := fun _ => True) ?_ fun _ _ => ?_
  · exact uses_liftIo ⟨H.host_one rfl hjoin, fun _ _ _ _ => True.intro⟩
  · exact uses_bind (H.uses_getQid hjoin) fun _ _ => (uses_pure _).mpr True.intro

theorem uses_rrenameat {olddir newdir : Fid} (hread : Reads olddir.aux)
    (hnewdir : Reads newdir.aux) {oldname newname : String}
    (hold : Appends From Good [oldname]) (hnew : Appends From Good [newname]) :
    Uses P C (fun _ => True) (Unpfs.rrenameat olddir oldname newdir newname) := by
  unfold Unpfs.rrenameat
  refine uses_bind (H.uses_realpath hread) fun src hsrc => ?_
  refine uses_bind (H.uses_realpath hnewdir) fun dst hdst => ?_
  refine uses_bind (Q := fun _ => True) ?_ fun _ _ => (uses_pure _).mpr True.intro
  refine uses_liftIo ⟨H.host _ ?_, fun _ _ _ _ => True.intro⟩
  intro path hpath
  rcases List.mem_pair.mp hpath with rfl | rfl
  · exact hold.push hsrc
  · exact hnew.push hdst

theorem uses_runlinkat {dirfid : Fid} (hread : Reads dirfid.aux) {name : String} (flags : UInt32)
    (hname : Appends From Good [name]) :
    Uses P C (fun _ => True) (Unpfs.runlinkat dirfid name flags) := by
  unfold Unpfs.runlinkat
  refine uses_bind (H.uses_realpath hread) fun path hpath => ?_
  have hjoin : Good (path.join name) := hname.push hpath
  refine uses_bind (Q := fun _ => True) ?_ fun attr _ => ?_
  · exact uses_liftIo ⟨H.host_one rfl hjoin, fun _ _ _ _ => True.intro⟩
  · split_ifs
    · refine uses_bind (Q := fun _ => True) ?_ fun _ _ => (uses_pure _).mpr True.intro
      exact uses_liftIo ⟨H.host_one rfl hjoin, fun _ _ _ _ => True.intro⟩
    · refine uses_bind (Q := fun _ => True) ?_ fun _ _ => (uses_pure _).mpr True.intro
      exact uses_liftIo ⟨H.host_one rfl hjoin, fun _ _ _ _ => True.intro⟩

theorem uses_rfsync (fid : Fid) : Uses P C (fun _ => True) (Unpfs.rfsync fid) := by
  unfold Unpfs.rfsync
  refine uses_bind (H.uses_withFile fun file => ?_) fun _ _ => ?_
  · exact uses_liftIo ⟨H.host_none rfl, fun _ _ _ _ => True.intro⟩
  · exact (uses_pure _).mpr True.intro

theorem uses_rstatfs {fid : Fid} (hread : Reads fid.aux) :
    Uses P C (fun _ => True) (Unpfs.rstatfs fid) := by
  unfold Unpfs.rstatfs
  refine uses_bind (H.uses_realpath hread) fun path hpath => ?_
  refine uses_bind (Q := fun _ => True) ?_ fun _ _ => (uses_pure _).mpr True.intro
  exact uses_liftNix ⟨H.host_one rfl (H.good path hpath), fun _ _ _ _ => True.intro⟩

/-- The handler of a request touches no more than the request allows. -/
theorem uses_route {realroot : PathBuf} (hroot : Good realroot) {fids : FidTable} {aux : ObjId}
    {body : Fcall} {handler : UnpfsHandler Fcall}
    (hread : ∀ f b, fids.get f = some b → Reads b.aux)
    (hnames : ∀ names ∈ body.appended, Appends From Good names)
    (hwrite : ∀ a, changes fids aux body = some a →
      (∀ path, Good path → P (.realpathWrite a path)) ∧ ∀ file, P (.fileSet a file))
    (hroute : route (Unpfs realroot) fids (newFid body aux) body = .ok handler) :
    Uses P C (fun _ => True) handler := by
  cases routed_of_route hroute with
  | rstatfs hb => exact H.uses_rstatfs (hread _ _ hb)
  | rlopen flags hb => exact H.uses_rlopen (hread _ _ hb) flags (hwrite _ (by simp [changes, hb])).2
  | rlcreate name flags mode gid hb =>
    obtain ⟨hpath, hfile⟩ := hwrite _ (show changes fids aux (.tlcreate ..) = _ by
      rw [changes, hb, Option.map_some])
    have hname : Appends From Good [name] := hnames [name] (by simp [Fcall.appended])
    exact H.uses_rlcreate (hread _ _ hb) flags mode gid hname hpath hfile
  | rreadlink hb => exact H.uses_rreadlink (hread _ _ hb)
  | rgetattr reqMask hb => exact H.uses_rgetattr (hread _ _ hb) reqMask
  | rsetattr valid stat hb => exact H.uses_rsetattr (hread _ _ hb) valid stat
  | rreaddir offset count hb => exact H.uses_rreaddir (hread _ _ hb) offset count
  | rfsync hb => exact H.uses_rfsync _
  | rmkdir name mode gid hb =>
    exact H.uses_rmkdir (hread _ _ hb) mode gid (hnames [name] (by simp [Fcall.appended]))
  | rrenameat oldname newname hb hc =>
    have hold : Appends From Good [oldname] := hnames [oldname] (by simp [Fcall.appended])
    have hnew : Appends From Good [newname] := hnames [newname] (by simp [Fcall.appended])
    exact H.uses_rrenameat (hread _ _ hb) (hread _ _ hc) hold hnew
  | runlinkat name flags hb =>
    exact H.uses_runlinkat (hread _ _ hb) flags (hnames [name] (by simp [Fcall.appended]))
  | rattach fid afid uname aname nUname =>
    exact H.uses_rattach hroot _ ((hwrite aux rfl).1 realroot hroot) none uname aname nUname
  | rwalk newfid wnames hb =>
    have hwnames : Appends From Good wnames := hnames wnames (by simp [Fcall.appended])
    exact H.uses_rwalk (hread _ _ hb) _ hwnames (hwrite aux rfl).1
  | rread offset count hb => exact H.uses_rread _ offset count
  | rwrite offset data hb => exact H.uses_rwrite _ offset data
  | rclunk hb => exact (uses_pure _).mpr True.intro
  | rversion msize version => exact (uses_pure _).mpr True.intro
  | unsupported => exact uses_throw _

end Footprint
end
end P9cpu.Ninep
