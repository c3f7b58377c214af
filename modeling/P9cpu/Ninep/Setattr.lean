import P9cpu.Ninep.Rename

/-! Changes of attributes: what a `Tsetattr` leaves in a file, whichever calls fail. -/
namespace P9cpu.Ninep
open Core
open SetattrMask

/-- A moment as a file system keeps it. -/
abbrev Instant := { t : FileTime // t.nanos.toNat < 1000000000 }

/-- A file: its attributes and, in their place, its times. -/
structure HostFile where
  attr : Metadata
  atime : Instant
  mtime : Instant

def HostFile.metadata (f : HostFile) : Metadata :=
  { f.attr with
    atime := f.atime.1.seconds, atimeNsec := Int64.ofNat f.atime.1.nanos.toNat
    mtime := f.mtime.1.seconds, mtimeNsec := Int64.ofNat f.mtime.1.nanos.toNat }

/-- The time as messages have it. -/
def FileTime.time (t : FileTime) : Time := ⟨t.seconds.toUInt64, t.nanos.toUInt64⟩

/-- The calls that fail, whatever they are asked. -/
structure Failures where
  setPermissions : Option Errno
  chown : Option Errno
  openWrite : Option Errno
  setLen : Option Errno
  metadata : Option Errno
  setFileTimes : Option Errno

def Failures.of (p : Failures) : HostOp → Option Errno
  | .setPermissions .. => p.setPermissions
  | .chown .. => p.chown
  | .openWrite _ => p.openWrite
  | .setLen .. => p.setLen
  | .metadata _ => p.metadata
  | .setFileTimes .. => p.setFileTimes
  | _ => none

/-- A host with one file, to which every path leads. -/
structure Machine where
  file : HostFile
  now : Instant
  failures : List HostOp

def UTIME_NOW : UInt32 := 0x3fffffff
def UTIME_OMIT : UInt32 := 0x3ffffffe

/-- One time of `utimensat`. -/
def stamp (now old : Instant) (t : FileTime) : Option Instant :=
  if t.nanos = UTIME_NOW then some now
  else if t.nanos = UTIME_OMIT then some old
  else if h : t.nanos.toNat < 1000000000 then some ⟨t, h⟩
  else none

/-- An id of `chown`; -1 stands for none. -/
def chownId (id : Option UInt32) (old : UInt32) : UInt32 :=
  match id with
  | none => old
  | some id => if id = 0xffffffff then old else id

namespace Machine

/-- The mode keeps the type of the file. -/
def chmod (m : Machine) (mode : UInt32) : Machine :=
  { m with file.attr.mode := (m.file.attr.mode &&& ~~~0o7777) ||| (mode &&& 0o7777) }

def chown (m : Machine) (uid gid : Option UInt32) : Machine :=
  { m with
    file.attr.uid := chownId uid m.file.attr.uid
    file.attr.gid := chownId gid m.file.attr.gid }

def truncate (m : Machine) (size : UInt64) : Machine := { m with file.attr.size := size }

def fail (m : Machine) (o : HostOp) : Machine := { m with failures := m.failures ++ [o] }

/-- A call that is not made to fail. Only explicit changes are kept. -/
def call : (o : HostOp) → Machine → HostRes o × Machine
  | .symlinkMetadata _, m => (.ok m.file.metadata, m)
  | .metadata _, m => (.ok m.file.metadata, m)
  | .setPermissions _ mode, m => (.ok (), m.chmod mode)
  | .chown _ uid gid, m => (.ok (), m.chown uid gid)
  | .openWrite _, m => (.ok 0, m)
  | .setLen file size, m =>
    if size.toNat < 2 ^ 63 then (.ok (), m.truncate size)
    else (.error (.custom .invalidInput "out of range integral type conversion attempted"),
      m.fail (.setLen file size))
  | .setFileTimes path atime mtime, m =>
    match stamp m.now m.file.atime atime, stamp m.now m.file.mtime mtime with
    | some a, some t => (.ok (), { m with file.atime := a, file.mtime := t })
    | _, _ => (.error (.ofErrno Errno.EINVAL), m.fail (.setFileTimes path atime mtime))
  | o, m => (failed ENOSYS o, m.fail o)

def exec (p : Failures) (o : HostOp) (m : Machine) : HostRes o × Machine :=
  match p.of o with
  | some e => (failed e o, m.fail o)
  | none => call o m

end Machine

abbrev attrHost (p : Failures) : Host where
  State := Machine
  exec := Machine.exec p
  lstat_state _ _ := rfl

/-- The calls without which a selected attribute is not set. -/
def Needed (valid : SetattrMask) : HostOp → Bool
  | .setPermissions .. => valid.contains MODE
  | .chown .. => valid.contains UID || valid.contains GID
  | .openWrite _ | .setLen .. => valid.contains SIZE
  | .metadata _ | .setFileTimes .. => valid.contains ATIME || valid.contains MTIME
  | _ => false

/-- A time after a request, as the mask documents it. -/
def timeAsked (selected set : Bool) (sent now old : Time) : Time :=
  if selected then if set then sent else now else old

/-- The attributes that a `Tgetattr` reports are changed as the mask says, and no call that this
needs has failed. -/
structure AsMasked (valid : SetattrMask) (stat : SetAttr) (now : Time) (before after : Stat)
    (failures : List HostOp) : Prop where
  mode : if valid.contains MODE then after.mode &&& 0o7777 = stat.mode &&& 0o7777
    else after.mode = before.mode
  uid : after.uid = if valid.contains UID then stat.uid else before.uid
  gid : after.gid = if valid.contains GID then stat.gid else before.gid
  size : after.size = if valid.contains SIZE then stat.size else before.size
  atime : after.atime =
    timeAsked (valid.contains ATIME) (valid.contains ATIME_SET) stat.atime now before.atime
  mtime : after.mtime =
    timeAsked (valid.contains MTIME) (valid.contains MTIME_SET) stat.mtime now before.mtime
  failures : ∀ o ∈ failures, Needed valid o = false

/-- Where the request succeeds, for any file and at any time, it has done what the mask says. -/
def SetsAsMasked (p : Failures) (fid : Fid) (valid : SetattrMask) (stat : SetAttr) : Prop :=
  ∀ (objs : ObjId → UnpfsFid) (file : HostFile) (now : Instant) (s : Host.Objs Machine),
    (attrHost p).runs (Unpfs.rsetattr fid valid stat) ⟨objs, ⟨file, now, []⟩⟩ =
      (.ok .rsetattr, s) →
    AsMasked valid stat now.1.time (Stat.ofMetadata file.metadata)
      (Stat.ofMetadata s.host.file.metadata) s.host.failures

/-! When it does. -/

/-- No call fails whose error is passed on. -/
structure Passes (p : Failures) (valid : SetattrMask) (stat : SetAttr) : Prop where
  mode : valid.contains MODE = true → p.setPermissions = none
  owner : valid.intersects (UID ||| GID) = true → p.chown = none
  size : valid.contains SIZE = true →
    p.openWrite = none ∧ p.setLen = none ∧ stat.size.toNat < 2 ^ 63
  times : valid.intersects (ATIME_SET ||| MTIME_SET) = true → p.metadata = none

/-- A time that `utimensat` takes. -/
def Time.Accepted (t : Time) : Prop :=
  t.nsec.toUInt32 = UTIME_NOW ∨ t.nsec.toUInt32 = UTIME_OMIT ∨
    t.nsec.toUInt32.toNat < 1000000000

/-- `set_file_times` is called and succeeds. -/
structure SetsTimes (p : Failures) (valid : SetattrMask) (stat : SetAttr) : Prop where
  called : valid.intersects (ATIME_SET ||| MTIME_SET) = true
  granted : p.setFileTimes = none
  atime : valid.contains ATIME_SET = true → stat.atime.Accepted
  mtime : valid.contains MTIME_SET = true → stat.mtime.Accepted

/-- The bits of a time go together, and the value is one that a file can have. -/
def Paired (selected set : Bool) (t : Time) : Prop :=
  if selected then set = true ∧ t.nsec.toNat < 1000000000
  else set = true → t.nsec.toUInt32 = UTIME_OMIT

/-- Ids that `chown` does not take as none. -/
structure OwnerGiven (valid : SetattrMask) (stat : SetAttr) : Prop where
  uid : valid.contains UID = true → stat.uid ≠ 0xffffffff
  gid : valid.contains GID = true → stat.gid ≠ 0xffffffff

/-- Selected times come with their values and are set, or none is selected. -/
structure TimesGiven (p : Failures) (valid : SetattrMask) (stat : SetAttr) : Prop where
  set : SetsTimes p valid stat →
    Paired (valid.contains ATIME) (valid.contains ATIME_SET) stat.atime ∧
      Paired (valid.contains MTIME) (valid.contains MTIME_SET) stat.mtime
  unset : ¬ SetsTimes p valid stat →
    valid.contains ATIME = false ∧ valid.contains MTIME = false

/-! Times of files and of messages. -/

theorem ofNat_toUInt64 (n : UInt32) : (Int64.ofNat n.toNat).toUInt64 = n.toUInt64 := by
  have hlt := n.toNat_lt
  have hsame : (Int64.ofNat n.toNat).toUInt64 = UInt64.ofNat n.toNat := rfl
  rw [hsame, ← UInt64.toNat_inj, UInt64.toNat_ofNat', UInt32.toNat_toUInt64]
  exact Nat.mod_eq_of_lt (by omega)

theorem nanos_ofNat (n : UInt32) : UInt32.ofNat (Int64.ofNat n.toNat).toUInt64.toNat = n := by
  rw [ofNat_toUInt64, UInt32.toNat_toUInt64, UInt32.ofNat_toNat]

namespace HostFile

variable (f : HostFile)

theorem lastAccess_metadata : FileTime.fromLastAccessTime f.metadata = f.atime.1 := by
  unfold FileTime.fromLastAccessTime metadata
  dsimp only
  rw [nanos_ofNat]

theorem lastModification_metadata : FileTime.fromLastModificationTime f.metadata = f.mtime.1 := by
  unfold FileTime.fromLastModificationTime metadata
  dsimp only
  rw [nanos_ofNat]

@[simp] theorem ofMetadata_atime : (Stat.ofMetadata f.metadata).atime = f.atime.1.time := by
  unfold Stat.ofMetadata metadata FileTime.time
  dsimp only
  rw [ofNat_toUInt64]

@[simp] theorem ofMetadata_mtime : (Stat.ofMetadata f.metadata).mtime = f.mtime.1.time := by
  unfold Stat.ofMetadata metadata FileTime.time
  dsimp only
  rw [ofNat_toUInt64]

end HostFile

theorem chmod_bits (old mode : UInt32) :
    ((old &&& ~~~0o7777) ||| (mode &&& 0o7777)) &&& 0o7777 = mode &&& 0o7777 := by
  apply UInt32.toBitVec_inj.mp
  simp only [UInt32.toBitVec_and, UInt32.toBitVec_or, UInt32.toBitVec_not]
  rw [BitVec.and_or_distrib_right, BitVec.and_assoc, BitVec.and_assoc]
  simp

/-- A flag that is contained is met by every mask with it. -/
theorem intersects_of_contains {f : SetattrMask} {bit mask : UInt32} (hbit : bit ≠ 0)
    (hmask : mask &&& bit = bit) (h : f.contains bit = true) : f.intersects mask = true := by
  have hcontains : f.bits &&& bit = bit := of_decide_eq_true h
  apply decide_eq_true
  intro hzero
  apply hbit
  calc
    bit = f.bits &&& (mask &&& bit) := by rw [hmask, hcontains]
    _ = 0 := by rw [← UInt32.and_assoc, hzero, UInt32.zero_and]

/-- The time that the handler gives: the one that was sent, or the one that the file has. -/
def timeGiven (set : Bool) (sent : Time) (old : FileTime) : FileTime :=
  if set then FileTime.fromUnixTime sent.sec.toInt64 sent.nsec.toUInt32 else old

theorem time_fromUnixTime (t : Time) :
    (FileTime.fromUnixTime t.sec.toInt64 t.nsec.toUInt32).time = t ↔ t.nsec.toNat < 2 ^ 32 := by
  have hlt := t.nsec.toNat_lt
  have hnsec : t.nsec.toUInt32.toUInt64 = t.nsec ↔ t.nsec.toNat < 2 ^ 32 := by
    rw [← UInt64.toNat_inj, UInt32.toNat_toUInt64, UInt64.toNat_toUInt32]
    constructor
    · intro h
      omega
    · intro h
      omega
  obtain ⟨sec, nsec⟩ := t
  unfold FileTime.fromUnixTime FileTime.time
  simpa using hnsec

section
variable {now old : Instant} {t : FileTime}

theorem stamp_now (h : t.nanos = UTIME_NOW) : stamp now old t = some now := if_pos h

theorem stamp_omit (h : t.nanos = UTIME_OMIT) : stamp now old t = some old := by
  unfold stamp
  rw [if_neg (by rw [h]; decide), if_pos h]

theorem stamp_proper (h : t.nanos.toNat < 1000000000) : stamp now old t = some ⟨t, h⟩ := by
  have hnow : t.nanos ≠ UTIME_NOW := by
    intro heq
    rw [heq] at h
    exact absurd h (by decide)
  have homit : t.nanos ≠ UTIME_OMIT := by
    intro heq
    rw [heq] at h
    exact absurd h (by decide)
  unfold stamp
  rw [if_neg hnow, if_neg homit, dif_pos h]

end

theorem stamp_instant (now old t : Instant) : stamp now old t.1 = some t := stamp_proper t.2

theorem stamp_isSome (now old : Instant) (t : Time) :
    (stamp now old (FileTime.fromUnixTime t.sec.toInt64 t.nsec.toUInt32)).isSome = true ↔
      t.Accepted := by
  unfold stamp Time.Accepted FileTime.fromUnixTime
  dsimp only
  split_ifs with hnow homit hlt
  · exact iff_of_true rfl (.inl hnow)
  · exact iff_of_true rfl (.inr (.inl homit))
  · exact iff_of_true rfl (.inr (.inr hlt))
  · exact iff_of_false (by simp) (by simp only [hnow, homit, hlt, or_self, not_false_eq_true])

theorem stamp_timeGiven (now old : Instant) {set : Bool} {t : Time}
    (haccepted : set = true → t.Accepted) :
    ∃ new, stamp now old (timeGiven set t old.1) = some new := by
  cases set with
  | false => exact ⟨old, stamp_instant now old old⟩
  | true => exact Option.isSome_iff_exists.mp ((stamp_isSome now old t).mpr (haccepted rfl))

def epoch : Instant := ⟨⟨0, 0⟩, by decide⟩

def later : Instant := ⟨⟨1, 0⟩, by decide⟩

/-- There are two moments that differ from a third or from each other. -/
theorem exists_instant_ne (t : Time) : ∃ i : Instant, i.1.time ≠ t := by
  by_cases h : epoch.1.time = t
  · exact ⟨later, fun hlater => absurd (h.trans hlater.symm) (by decide)⟩
  · exact ⟨epoch, h⟩

/-- The new time is as the mask says, whatever time it is and whatever the time was. -/
def TimeAsAsked (selected set : Bool) (t : Time) : Prop :=
  ∀ now old new : Instant, stamp now old (timeGiven set t old.1) = some new →
    new.1.time = timeAsked selected set t now.1.time old.1.time

section
variable {selected set : Bool} {t : Time}

/-- `f` gives the new time. -/
theorem timeAsAsked_iff {f : Instant → Instant → Instant}
    (hstamp : ∀ now old : Instant, stamp now old (timeGiven set t old.1) = some (f now old)) :
    TimeAsAsked selected set t ↔
      ∀ now old : Instant, (f now old).1.time = timeAsked selected set t now.1.time old.1.time := by
  constructor
  · intro h now old
    exact h now old _ (hstamp now old)
  · intro h now old new hnew
    rw [hstamp] at hnew
    rw [← Option.some.inj hnew]
    exact h now old

/-- A time without its `SET` bit is kept. -/
theorem paired_unset : TimeAsAsked selected false t ↔ Paired selected false t := by
  have hstamp (now old : Instant) : stamp now old (timeGiven false t old.1) = some old :=
    stamp_instant now old old
  rw [timeAsAsked_iff hstamp]
  cases selected with
  | false => exact iff_of_true (fun _ _ => rfl) fun h => nomatch h
  | true =>
    refine iff_of_false (fun h => ?_) fun h => nomatch h.1
    have hkeeps : epoch.1.time = later.1.time := h later epoch
    exact absurd hkeeps (by decide)

theorem nsec_toUInt32 (t : Time) : t.nsec.toUInt32.toNat = t.nsec.toNat % 2 ^ 32 :=
  UInt64.toNat_toUInt32 _

theorem paired_now (hnow : t.nsec.toUInt32 = UTIME_NOW) :
    TimeAsAsked selected true t ↔ Paired selected true t := by
  have hstamp (now old : Instant) : stamp now old (timeGiven true t old.1) = some now :=
    stamp_now hnow
  rw [timeAsAsked_iff hstamp]
  cases selected with
  | false =>
    refine iff_of_false (fun h => ?_) fun h => ?_
    · have hkeeps : later.1.time = epoch.1.time := h later epoch
      exact absurd hkeeps (by decide)
    · exact absurd (hnow.symm.trans (h rfl)) (by decide)
  | true =>
    refine iff_of_false (fun h => ?_) fun h => ?_
    · obtain ⟨now, hne⟩ := exists_instant_ne t
      exact hne (h now epoch)
    · have hnsec := nsec_toUInt32 t
      have hbig : UTIME_NOW.toNat = 1073741823 := rfl
      have hlt := h.2
      rw [hnow] at hnsec
      omega

theorem paired_omit (homit : t.nsec.toUInt32 = UTIME_OMIT) :
    TimeAsAsked selected true t ↔ Paired selected true t := by
  have hstamp (now old : Instant) : stamp now old (timeGiven true t old.1) = some old :=
    stamp_omit homit
  rw [timeAsAsked_iff hstamp]
  cases selected with
  | false => exact iff_of_true (fun _ _ => rfl) fun _ => homit
  | true =>
    refine iff_of_false (fun h => ?_) fun h => ?_
    · obtain ⟨old, hne⟩ := exists_instant_ne t
      exact hne (h epoch old)
    · have hnsec := nsec_toUInt32 t
      have hbig : UTIME_OMIT.toNat = 1073741822 := rfl
      have hlt := h.2
      rw [homit] at hnsec
      omega

theorem paired_proper (hproper : t.nsec.toUInt32.toNat < 1000000000) :
    TimeAsAsked selected true t ↔ Paired selected true t := by
  have hstamp (now old : Instant) : stamp now old (timeGiven true t old.1) =
      some ⟨FileTime.fromUnixTime t.sec.toInt64 t.nsec.toUInt32, hproper⟩ := stamp_proper hproper
  rw [timeAsAsked_iff hstamp]
  have hsent := time_fromUnixTime t
  have hnsec := nsec_toUInt32 t
  cases selected with
  | false =>
    refine iff_of_false (fun h => ?_) fun h => ?_
    · obtain ⟨old, hne⟩ :=
        exists_instant_ne (FileTime.fromUnixTime t.sec.toInt64 t.nsec.toUInt32).time
      exact hne (h epoch old).symm
    · rw [h rfl] at hproper
      exact absurd hproper (by decide)
  | true =>
    constructor
    · intro h
      have hlt := hsent.mp (h epoch epoch)
      exact ⟨rfl, by omega⟩
    · intro h now old
      have hlt := h.2
      exact hsent.mpr (by omega)

/-- A time that is set is as the mask says, whatever it was and whatever time it is, exactly when
its bits go together. -/
theorem paired_iff (haccepted : set = true → t.Accepted) :
    TimeAsAsked selected set t ↔ Paired selected set t := by
  cases set with
  | false => exact paired_unset
  | true =>
    obtain hnow | homit | hproper := haccepted rfl
    · exact paired_now hnow
    · exact paired_omit homit
    · exact paired_proper hproper

end

/-! The handler, block by block. -/

namespace Machine

variable (p : Failures) (path : PathBuf) (valid : SetattrMask) (stat : SetAttr) (m : Machine)

def setMode : Machine := if valid.contains MODE = true then m.chmod stat.mode else m

def setOwner : Machine :=
  if valid.intersects (UID ||| GID) = true then
    m.chown (if valid.contains UID then some stat.uid else none)
      (if valid.contains GID then some stat.gid else none)
  else m

def setSize : Machine := if valid.contains SIZE = true then m.truncate stat.size else m

def setFileTimes : Machine :=
  (exec p (.setFileTimes path (timeGiven (valid.contains ATIME_SET) stat.atime m.file.atime.1)
    (timeGiven (valid.contains MTIME_SET) stat.mtime m.file.mtime.1)) m).2

def setTimes : Machine :=
  if valid.intersects (ATIME_SET ||| MTIME_SET) = true then m.setFileTimes p path valid stat else m

/-- The blocks before the times. -/
def setAttrs : Machine := ((m.setMode valid stat).setOwner valid stat).setSize valid stat

theorem setMode_eq : m.setMode valid stat = { m with
    file.attr.mode := if valid.contains MODE then
      (m.file.attr.mode &&& ~~~0o7777) ||| (stat.mode &&& 0o7777) else m.file.attr.mode } := by
  unfold setMode chmod
  split_ifs <;> rfl

theorem setSize_eq : m.setSize valid stat = { m with
    file.attr.size := if valid.contains SIZE then stat.size else m.file.attr.size } := by
  unfold setSize truncate
  split_ifs <;> rfl

/-- An owner that is selected is given to `chown`. -/
theorem setOwner_eq : m.setOwner valid stat = { m with
    file.attr.uid := chownId (if valid.contains UID then some stat.uid else none) m.file.attr.uid
    file.attr.gid :=
      chownId (if valid.contains GID then some stat.gid else none) m.file.attr.gid } := by
  have huid : valid.contains UID = true → valid.intersects (UID ||| GID) = true :=
    intersects_of_contains (by decide) (by decide)
  have hgid : valid.contains GID = true → valid.intersects (UID ||| GID) = true :=
    intersects_of_contains (by decide) (by decide)
  unfold setOwner
  by_cases howner : valid.intersects (UID ||| GID) = true
  · rw [if_pos howner]
    rfl
  · rw [if_neg howner, if_neg (fun h => howner (huid h)), if_neg (fun h => howner (hgid h))]
    rfl

theorem setAttrs_eq : m.setAttrs valid stat = { m with file.attr := { m.file.attr with
    mode := if valid.contains MODE then
      (m.file.attr.mode &&& ~~~0o7777) ||| (stat.mode &&& 0o7777) else m.file.attr.mode
    uid := chownId (if valid.contains UID then some stat.uid else none) m.file.attr.uid
    gid := chownId (if valid.contains GID then some stat.gid else none) m.file.attr.gid
    size := if valid.contains SIZE then stat.size else m.file.attr.size } } := by
  unfold setAttrs
  rw [setMode_eq, setOwner_eq, setSize_eq]

end Machine

section
variable {p : Failures} {valid : SetattrMask} {stat : SetAttr}

/-- Under the condition the program returns `a` and changes the machine; otherwise it fails. -/
def Leaves {α : Type} (p : Failures) (h : UnpfsHandler α) (C : Prop) (a : α)
    (f : Machine → Machine) : Prop :=
  ∀ s : Host.Objs Machine, C ∧ (attrHost p).runs h s = (.ok a, { s with host := f s.host }) ∨
    ¬ C ∧ ∃ e u, (attrHost p).runs h s = (.error e, u)

theorem leaves_pure {α : Type} (a : α) : Leaves p (pure a) True a id :=
  fun _ => .inl ⟨True.intro, rfl⟩

theorem Leaves.bind {α : Type} {h : UnpfsHandler Unit} {h' : UnpfsHandler α} {C C' : Prop} {a : α}
    {f f' : Machine → Machine} (hh : Leaves p h C () f) (hh' : Leaves p h' C' a f') :
    Leaves p (h >>= fun _ => h') (C ∧ C') a fun m => f' (f m) := by
  intro s
  rw [Host.runs_bind]
  obtain ⟨hC, hrun⟩ | ⟨hC, e, u, hrun⟩ := hh s
  · rw [hrun]
    dsimp only
    obtain ⟨hC', hrun'⟩ | ⟨hC', e, u, hrun'⟩ := hh' { s with host := f s.host }
    · exact .inl ⟨⟨hC, hC'⟩, hrun'⟩
    · exact .inr ⟨fun h => hC' h.2, e, u, hrun'⟩
  · rw [hrun]
    exact .inr ⟨fun h => hC h.1, e, u, rfl⟩

/-- A block that some bits of the mask ask for. -/
theorem Leaves.ite {b : Bool} {h : UnpfsHandler Unit} {C : Prop} {f : Machine → Machine}
    (hh : Leaves p h C () f) :
    Leaves p (if b = true then h else return) (b = true → C) ()
      fun m => if b = true then f m else m := by
  intro s
  cases b with
  | false => exact .inl ⟨fun h => (nomatch h), rfl⟩
  | true =>
    obtain ⟨hC, hrun⟩ | ⟨hC, e, u, hrun⟩ := hh s
    · exact .inl ⟨fun _ => hC, hrun⟩
    · exact .inr ⟨fun h => hC (h rfl), e, u, hrun⟩

theorem exec_of_none {o : HostOp} (h : p.of o = none) (m : Machine) :
    Machine.exec p o m = Machine.call o m := by
  unfold Machine.exec
  rw [h]

theorem exec_of_some {o : HostOp} {e : Errno} (h : p.of o = some e) (m : Machine) :
    Machine.exec p o m = (failed e o, m.fail o) := by
  unfold Machine.exec
  rw [h]

theorem runs_liftIo {α : Type} {q : UnpfsProg (Except IoError α)} {s u : Host.Objs Machine}
    {r : Except IoError α} (h : q.run (attrHost p).objsExec s = (r, u)) :
    (attrHost p).runs (liftIo q) s = (r.mapError Error.io, u) := by
  unfold Host.runs liftIo
  rw [ExceptT.run_mk, map_eq_pure_bind, Prog.run_bind, h]
  rfl

theorem runs_liftNix {α : Type} {q : UnpfsProg (Except Errno α)} {s u : Host.Objs Machine}
    {r : Except Errno α} (h : q.run (attrHost p).objsExec s = (r, u)) :
    (attrHost p).runs (liftNix q) s = (r.mapError Error.no, u) := by
  unfold Host.runs liftNix
  rw [ExceptT.run_mk, map_eq_pure_bind, Prog.run_bind, h]
  rfl

theorem run_op {o : HostOp} {s : Host.Objs Machine} {r : HostRes o} {m : Machine}
    (h : Machine.exec p o s.host = (r, m)) :
    (op (.host o)).run (attrHost p).objsExec s = (r, { s with host := m }) := by
  have hrun : (op (.host o)).run (attrHost p).objsExec s =
      ((Machine.exec p o s.host).1, { s with host := (Machine.exec p o s.host).2 }) := rfl
  rw [hrun, h]

theorem leaves_setMode (path : PathBuf) :
    Leaves p (Unpfs.setMode path valid stat) (valid.contains MODE = true → p.setPermissions = none)
      () fun m => m.setMode valid stat := by
  apply Leaves.ite
  intro s
  cases hp : p.setPermissions with
  | none =>
    have hexec := exec_of_none (o := .setPermissions path stat.mode) hp s.host
    exact .inl ⟨rfl, runs_liftIo (run_op hexec)⟩
  | some e =>
    have hexec := exec_of_some (o := .setPermissions path stat.mode) hp s.host
    exact .inr ⟨fun h => (nomatch h), _, _, runs_liftIo (run_op hexec)⟩

theorem leaves_setOwner (path : PathBuf) :
    Leaves p (Unpfs.setOwner path valid stat)
      (valid.intersects (UID ||| GID) = true → p.chown = none)
      () fun m => m.setOwner valid stat := by
  apply Leaves.ite
  intro s
  cases hp : p.chown with
  | none =>
    have hexec := exec_of_none (o := .chown path
      (if valid.contains UID then some stat.uid else none)
      (if valid.contains GID then some stat.gid else none)) hp s.host
    exact .inl ⟨rfl, runs_liftNix (run_op hexec)⟩
  | some e =>
    have hexec := exec_of_some (o := .chown path
      (if valid.contains UID then some stat.uid else none)
      (if valid.contains GID then some stat.gid else none)) hp s.host
    exact .inr ⟨fun h => (nomatch h), _, _, runs_liftNix (run_op hexec)⟩

theorem leaves_setSize (path : PathBuf) :
    Leaves p (Unpfs.setSize path valid stat)
      (valid.contains SIZE = true →
        p.openWrite = none ∧ p.setLen = none ∧ stat.size.toNat < 2 ^ 63)
      () fun m => m.setSize valid stat := by
  apply Leaves.ite
  intro s
  rw [Host.runs_bind]
  cases hopen : p.openWrite with
  | some e =>
    rw [runs_liftIo (run_op (exec_of_some (o := .openWrite path) hopen s.host))]
    exact .inr ⟨fun h => (nomatch h.1), _, _, rfl⟩
  | none =>
    rw [runs_liftIo (run_op (exec_of_none (o := .openWrite path) hopen s.host))]
    cases hlen : p.setLen with
    | some e =>
      have hexec := exec_of_some (o := .setLen 0 stat.size) hlen s.host
      exact .inr ⟨fun h => (nomatch h.2.1), _, _, runs_liftIo (run_op hexec)⟩
    | none =>
      have hexec := exec_of_none (o := .setLen 0 stat.size) hlen s.host
      by_cases hsize : stat.size.toNat < 2 ^ 63
      · exact .inl ⟨⟨rfl, rfl, hsize⟩, runs_liftIo (run_op (hexec.trans (if_pos hsize)))⟩
      · exact .inr ⟨fun h => hsize h.2.2, _, _,
          runs_liftIo (run_op (hexec.trans (if_neg hsize)))⟩

theorem leaves_setTimes (p : Failures) (valid : SetattrMask) (stat : SetAttr)
    (path : PathBuf) :
    Leaves p (Unpfs.setTimes path valid stat)
      (valid.intersects (ATIME_SET ||| MTIME_SET) = true → p.metadata = none)
      () fun m => m.setTimes p path valid stat := by
  apply Leaves.ite
  intro s
  rw [Host.runs_bind]
  cases hp : p.metadata with
  | some e =>
    rw [runs_liftIo (run_op (exec_of_some (o := .metadata path) hp s.host))]
    exact .inr ⟨fun h => (nomatch h), _, _, rfl⟩
  | none =>
    rw [runs_liftIo (run_op (exec_of_none (o := .metadata path) hp s.host))]
    refine .inl ⟨rfl, ?_⟩
    have hattr : ∀ f : HostFile, FileTime.fromLastAccessTime f.metadata = f.atime.1 ∧
        FileTime.fromLastModificationTime f.metadata = f.mtime.1 :=
      fun f => ⟨f.lastAccess_metadata, f.lastModification_metadata⟩
    unfold Machine.setFileTimes timeGiven
    rw [← (hattr s.host.file).1, ← (hattr s.host.file).2]
    rfl

theorem passes_iff : Passes p valid stat ↔
    (valid.contains MODE = true → p.setPermissions = none) ∧
    (valid.intersects (UID ||| GID) = true → p.chown = none) ∧
    (valid.contains SIZE = true →
      p.openWrite = none ∧ p.setLen = none ∧ stat.size.toNat < 2 ^ 63) ∧
    (valid.intersects (ATIME_SET ||| MTIME_SET) = true → p.metadata = none) ∧ True :=
  ⟨fun h => ⟨h.mode, h.owner, h.size, h.times, True.intro⟩,
    fun h => ⟨h.1, h.2.1, h.2.2.1, h.2.2.2.1⟩⟩

theorem leaves_rsetattr (path : PathBuf) :
    Leaves p (do
      Unpfs.setMode path valid stat
      Unpfs.setOwner path valid stat
      Unpfs.setSize path valid stat
      Unpfs.setTimes path valid stat
      return Fcall.rsetattr) (Passes p valid stat) .rsetattr
      fun m => (m.setAttrs valid stat).setTimes p path valid stat := by
  have htimes := (leaves_setTimes p valid stat path).bind
    (leaves_pure Fcall.rsetattr)
  rw [passes_iff]
  exact (leaves_setMode path).bind ((leaves_setOwner path).bind ((leaves_setSize path).bind htimes))

theorem rsetattr_cases (p : Failures) (valid : SetattrMask) (stat : SetAttr)
    (fid : Fid) (s : Host.Objs Machine) :
    Passes p valid stat ∧ (attrHost p).runs (Unpfs.rsetattr fid valid stat) s = (.ok .rsetattr,
        { s with host :=
          (s.host.setAttrs valid stat).setTimes p (s.objs fid.aux).realpath valid stat }) ∨
      ¬ Passes p valid stat ∧
        ∃ e u, (attrHost p).runs (Unpfs.rsetattr fid valid stat) s = (.error e, u) :=
  leaves_rsetattr (s.objs fid.aux).realpath s

/-! The file afterwards. -/

theorem stamp_none {now old : Instant} {set : Bool} {t : Time}
    (h : ¬ (set = true → t.Accepted)) : stamp now old (timeGiven set t old.1) = none := by
  cases set with
  | false => exact absurd (fun hset => nomatch hset) h
  | true =>
    apply Option.eq_none_iff_forall_ne_some.mpr
    intro new hnew
    have hsome := (stamp_isSome now old t).mp (Option.isSome_iff_exists.mpr ⟨new, hnew⟩)
    exact h fun _ => hsome

/-- Both times are set, or the call fails or is not made. -/
theorem setTimes_cases (p : Failures) (valid : SetattrMask) (stat : SetAttr)
    (path : PathBuf) (m : Machine) :
    SetsTimes p valid stat ∧ (∃ a t : Instant,
        stamp m.now m.file.atime
          (timeGiven (valid.contains ATIME_SET) stat.atime m.file.atime.1) = some a ∧
        stamp m.now m.file.mtime
          (timeGiven (valid.contains MTIME_SET) stat.mtime m.file.mtime.1) = some t ∧
        m.setTimes p path valid stat = { m with file.atime := a, file.mtime := t }) ∨
      ¬ SetsTimes p valid stat ∧
        (valid.intersects (ATIME_SET ||| MTIME_SET) = false ∧ m.setTimes p path valid stat = m ∨
          ∃ a t, m.setTimes p path valid stat = m.fail (.setFileTimes path a t)) := by
  unfold Machine.setTimes
  by_cases hcalled : valid.intersects (ATIME_SET ||| MTIME_SET) = true
  swap
  · rw [if_neg hcalled]
    exact .inr ⟨fun h => hcalled h.called, .inl ⟨by simpa using hcalled, rfl⟩⟩
  rw [if_pos hcalled]
  unfold Machine.setFileTimes
  cases hp : p.setFileTimes with
  | some e =>
    rw [exec_of_some (o := .setFileTimes path _ _) hp]
    refine .inr ⟨fun h => ?_, .inr ⟨_, _, rfl⟩⟩
    exact nomatch hp.symm.trans h.granted
  | none =>
    rw [exec_of_none (o := .setFileTimes path _ _) hp]
    unfold Machine.call
    dsimp only
    by_cases ha : valid.contains ATIME_SET = true → stat.atime.Accepted
    swap
    · rw [stamp_none ha]
      exact .inr ⟨fun h => ha h.atime, .inr ⟨_, _, rfl⟩⟩
    obtain ⟨a, ha'⟩ := stamp_timeGiven m.now m.file.atime ha
    by_cases ht : valid.contains MTIME_SET = true → stat.mtime.Accepted
    swap
    · rw [ha', stamp_none ht]
      exact .inr ⟨fun h => ht h.mtime, .inr ⟨_, _, rfl⟩⟩
    obtain ⟨t, ht'⟩ := stamp_timeGiven m.now m.file.mtime ht
    rw [ha', ht']
    exact .inl ⟨⟨hcalled, hp, ha, ht⟩, a, t, rfl, rfl, rfl⟩

/-- A machine with the file at the moment, after the request. -/
def Machine.after (p : Failures) (valid : SetattrMask) (stat : SetAttr) (path : PathBuf)
    (file : HostFile) (now : Instant) : Machine :=
  ((⟨file, now, []⟩ : Machine).setAttrs valid stat).setTimes p path valid stat

/-- A request that passes, for any file and at any time. -/
def MasksAll (p : Failures) (valid : SetattrMask) (stat : SetAttr) : Prop :=
  ∀ (path : PathBuf) (file : HostFile) (now : Instant),
    AsMasked valid stat now.1.time (Stat.ofMetadata file.metadata)
      (Stat.ofMetadata (Machine.after p valid stat path file now).file.metadata)
      (Machine.after p valid stat path file now).failures

theorem setsAsMasked_of_passes (hpasses : Passes p valid stat) (fid : Fid) :
    SetsAsMasked p fid valid stat ↔ MasksAll p valid stat := by
  constructor
  · intro h path file now
    have hrun := (rsetattr_cases p valid stat fid
      ⟨fun _ => ⟨path, none⟩, ⟨file, now, []⟩⟩).resolve_right fun hfails => hfails.1 hpasses
    exact h _ file now _ hrun.2
  · intro h objs file now s hrun
    have hrun' := (rsetattr_cases p valid stat fid
      ⟨objs, ⟨file, now, []⟩⟩).resolve_right fun hfails => hfails.1 hpasses
    rw [hrun'.2] at hrun
    injection hrun with _ hs
    subst hs
    exact h _ file now

theorem chownId_ne {selected : Bool} {id old : UInt32} (h : selected = true → id ≠ 0xffffffff) :
    chownId (if selected then some id else none) old = if selected then id else old := by
  cases selected with
  | false => rfl
  | true =>
    unfold chownId
    exact if_neg (h rfl)

def HostFile.blank : HostFile where
  attr := ⟨0, 0, .file, 0, 0, 0, 0, 0, 0, 0, 0, 0, 0, 0, 0, 0, 0⟩
  atime := epoch
  mtime := epoch

theorem after_attr (p : Failures) (valid : SetattrMask) (stat : SetAttr)
    (path : PathBuf) (file : HostFile) (now : Instant) :
    (Machine.after p valid stat path file now).file.attr =
      ((⟨file, now, []⟩ : Machine).setAttrs valid stat).file.attr := by
  unfold Machine.after
  obtain ⟨-, a, t, -, -, heq⟩ | ⟨-, ⟨-, heq⟩ | ⟨a, t, heq⟩⟩ :=
    setTimes_cases p valid stat path
      ((⟨file, now, []⟩ : Machine).setAttrs valid stat)
  · rw [heq]
  · rw [heq]
  · rw [heq]
    rfl

/-- The times afterwards and the calls that failed. -/
theorem after_cases (p : Failures) (valid : SetattrMask) (stat : SetAttr)
    (path : PathBuf) (file : HostFile) (now : Instant) :
    SetsTimes p valid stat ∧
        stamp now file.atime (timeGiven (valid.contains ATIME_SET) stat.atime file.atime.1) =
          some (Machine.after p valid stat path file now).file.atime ∧
        stamp now file.mtime (timeGiven (valid.contains MTIME_SET) stat.mtime file.mtime.1) =
          some (Machine.after p valid stat path file now).file.mtime ∧
        (Machine.after p valid stat path file now).failures = [] ∨
      ¬ SetsTimes p valid stat ∧
        (Machine.after p valid stat path file now).file.atime = file.atime ∧
        (Machine.after p valid stat path file now).file.mtime = file.mtime ∧
        (valid.intersects (ATIME_SET ||| MTIME_SET) = false ∧
            (Machine.after p valid stat path file now).failures = [] ∨
          ∃ a t, (Machine.after p valid stat path file now).failures =
            [.setFileTimes path a t]) := by
  have hcases := setTimes_cases p valid stat path
    ((⟨file, now, []⟩ : Machine).setAttrs valid stat)
  unfold Machine.after
  rw [Machine.setAttrs_eq] at hcases ⊢
  obtain ⟨hsets, a, t, ha, ht, heq⟩ | ⟨hsets, ⟨hcalled, heq⟩ | ⟨a, t, heq⟩⟩ := hcases
  · rw [heq]
    exact .inl ⟨hsets, ha, ht, rfl⟩
  · rw [heq]
    exact .inr ⟨hsets, rfl, rfl, .inl ⟨hcalled, rfl⟩⟩
  · rw [heq]
    exact .inr ⟨hsets, rfl, rfl, .inr ⟨a, t, rfl⟩⟩

/-- Times and failures when the bits of each time go together. -/
theorem times_of_given (htimes : TimesGiven p valid stat) (path : PathBuf) (file : HostFile)
    (now : Instant) :
    (Machine.after p valid stat path file now).file.atime.1.time =
        timeAsked (valid.contains ATIME) (valid.contains ATIME_SET) stat.atime now.1.time
          file.atime.1.time ∧
      (Machine.after p valid stat path file now).file.mtime.1.time =
        timeAsked (valid.contains MTIME) (valid.contains MTIME_SET) stat.mtime now.1.time
          file.mtime.1.time ∧
      ∀ o ∈ (Machine.after p valid stat path file now).failures, Needed valid o = false := by
  obtain ⟨hsets, ha, ht, hnone⟩ | ⟨hsets, ha, ht, hfailures⟩ :=
    after_cases p valid stat path file now
  · obtain ⟨hpaira, hpairt⟩ := htimes.set hsets
    rw [hnone]
    refine ⟨?_, ?_, by simp⟩
    · exact (paired_iff hsets.atime).mpr hpaira now file.atime _ ha
    · exact (paired_iff hsets.mtime).mpr hpairt now file.mtime _ ht
  · obtain ⟨hatime, hmtime⟩ := htimes.unset hsets
    unfold timeAsked
    rw [hatime, hmtime, ha, ht]
    refine ⟨rfl, rfl, fun o ho => ?_⟩
    obtain ⟨-, hnone⟩ | ⟨a, t, hone⟩ := hfailures
    · rw [hnone] at ho
      exact nomatch ho
    · rw [hone] at ho
      obtain rfl := List.mem_singleton.mp ho
      unfold Needed
      rw [hatime, hmtime]
      rfl

theorem masksAll_of_given (howner : OwnerGiven valid stat) (htimes : TimesGiven p valid stat) :
    MasksAll p valid stat := by
  intro path file now
  obtain ⟨hatime, hmtime, hfailures⟩ := times_of_given htimes path file now
  have hattr := after_attr p valid stat path file now
  rw [Machine.setAttrs_eq] at hattr
  constructor
  case mode =>
    change if valid.contains MODE = true then
      (Machine.after p valid stat path file now).file.attr.mode &&& 0o7777 = stat.mode &&& 0o7777
      else (Machine.after p valid stat path file now).file.attr.mode = file.attr.mode
    rw [hattr]
    dsimp only
    split_ifs
    · exact chmod_bits _ _
    · rfl
  case uid =>
    change (Machine.after p valid stat path file now).file.attr.uid = _
    rw [hattr]
    exact chownId_ne howner.uid
  case gid =>
    change (Machine.after p valid stat path file now).file.attr.gid = _
    rw [hattr]
    exact chownId_ne howner.gid
  case size =>
    change (Machine.after p valid stat path file now).file.attr.size = _
    rw [hattr]
    rfl
  case atime => rw [HostFile.ofMetadata_atime, HostFile.ofMetadata_atime, hatime]
  case mtime => rw [HostFile.ofMetadata_mtime, HostFile.ofMetadata_mtime, hmtime]
  case failures => exact hfailures

theorem ownerGiven_of_masksAll (h : MasksAll p valid stat) : OwnerGiven valid stat := by
  have hmasked := h ⟨[]⟩ HostFile.blank epoch
  have hattr := after_attr p valid stat ⟨[]⟩ HostFile.blank epoch
  rw [Machine.setAttrs_eq] at hattr
  constructor
  · intro hselected hnone
    have huid := hmasked.uid
    change (Machine.after p valid stat ⟨[]⟩ HostFile.blank epoch).file.attr.uid = _ at huid
    rw [hattr, if_pos hselected, hnone] at huid
    dsimp only at huid
    rw [if_pos hselected] at huid
    exact absurd huid (by decide)
  · intro hselected hnone
    have hgid := hmasked.gid
    change (Machine.after p valid stat ⟨[]⟩ HostFile.blank epoch).file.attr.gid = _ at hgid
    rw [hattr, if_pos hselected, hnone] at hgid
    dsimp only at hgid
    rw [if_pos hselected] at hgid
    exact absurd hgid (by decide)

theorem paired_of_masksAll (h : MasksAll p valid stat) (hsets : SetsTimes p valid stat) :
    Paired (valid.contains ATIME) (valid.contains ATIME_SET) stat.atime ∧
      Paired (valid.contains MTIME) (valid.contains MTIME_SET) stat.mtime := by
  have hstamps := fun (file : HostFile) (now : Instant) =>
    (after_cases p valid stat ⟨[]⟩ file now).resolve_right
      fun hnot => hnot.1 hsets
  constructor
  · apply (paired_iff hsets.atime).mp
    intro now old new hnew
    have hatime := (h ⟨[]⟩ { HostFile.blank with atime := old } now).atime
    obtain ⟨-, ha, -, -⟩ := hstamps { HostFile.blank with atime := old } now
    rw [HostFile.ofMetadata_atime, HostFile.ofMetadata_atime] at hatime
    rw [Option.some.inj (hnew.symm.trans ha)]
    exact hatime
  · apply (paired_iff hsets.mtime).mp
    intro now old new hnew
    have hmtime := (h ⟨[]⟩ { HostFile.blank with mtime := old } now).mtime
    obtain ⟨-, -, ht, -⟩ := hstamps { HostFile.blank with mtime := old } now
    rw [HostFile.ofMetadata_mtime, HostFile.ofMetadata_mtime] at hmtime
    rw [Option.some.inj (hnew.symm.trans ht)]
    exact hmtime

/-- A time that is not set is selected in vain. -/
theorem unselected_of_masksAll (h : MasksAll p valid stat) (hsets : ¬ SetsTimes p valid stat) :
    valid.contains ATIME = false ∧ valid.contains MTIME = false := by
  have hmasked := h ⟨[]⟩ HostFile.blank later
  obtain ⟨-, ha, ht, hfailures⟩ := (after_cases p valid stat ⟨[]⟩
    HostFile.blank later).resolve_left fun hset => hsets hset.1
  have hcalled : valid.intersects (ATIME_SET ||| MTIME_SET) = true →
      valid.contains ATIME = false ∧ valid.contains MTIME = false := by
    intro hcalled
    obtain ⟨hnot, -⟩ | ⟨a, t, hone⟩ := hfailures
    · exact nomatch hcalled.symm.trans hnot
    · have hneeded := hmasked.failures (.setFileTimes ⟨[]⟩ a t) (by rw [hone]; simp)
      exact Bool.or_eq_false_iff.mp hneeded
  constructor
  · by_contra hselected
    have hselected : valid.contains ATIME = true := by simpa using hselected
    cases hset : valid.contains ATIME_SET with
    | true =>
      have hboth := hcalled (intersects_of_contains (by decide) (by decide) hset)
      exact nomatch hselected.symm.trans hboth.1
    | false =>
      have hatime := hmasked.atime
      rw [HostFile.ofMetadata_atime, ha, hselected, hset] at hatime
      have hnow : epoch.1.time = later.1.time := hatime
      exact absurd hnow (by decide)
  · by_contra hselected
    have hselected : valid.contains MTIME = true := by simpa using hselected
    cases hset : valid.contains MTIME_SET with
    | true =>
      have hboth := hcalled (intersects_of_contains (by decide) (by decide) hset)
      exact nomatch hselected.symm.trans hboth.2
    | false =>
      have hmtime := hmasked.mtime
      rw [HostFile.ofMetadata_mtime, ht, hselected, hset] at hmtime
      have hnow : epoch.1.time = later.1.time := hmtime
      exact absurd hnow (by decide)

end

/-- Every call succeeds. -/
def Failures.never : Failures := ⟨none, none, none, none, none, none⟩

end P9cpu.Ninep
