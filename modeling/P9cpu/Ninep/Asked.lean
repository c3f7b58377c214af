import P9cpu.Ninep.Guards

/-! Who changes the host: a handler changes what its request asks it to change, and the handlers of
all other requests only look. -/
namespace P9cpu.Ninep
open Core Prog

def O_CREAT : UInt32 := 0o100
def O_TRUNC : UInt32 := 0o1000

/-- The call can change the names, the contents or the attributes that others find on the host. -/
def HostOp.Alters : HostOp → Prop
  | .setPermissions .. | .chown .. | .setLen .. | .setFileTimes .. | .write .. => True
  | .createDir _ | .rename .. | .removeDir _ | .removeFile _ => True
  | .open _ oflags _ => oflags &&& (O_CREAT ||| O_TRUNC) ≠ 0
  | .symlinkMetadata _ | .metadata _ | .entryMetadata _ | .readLink _ | .readDir _ | .statvfs _ =>
    False
  | .openWrite _ | .seek .. | .read .. | .syncAll _ => False

/-- What a request asks to be changed, on a path in `Paths` or on a name in the directory there. -/
inductive Asks (Paths : PathBuf → Prop) : Fcall → HostOp → Prop
  | mode (fid : UInt32) (valid : SetattrMask) (stat : SetAttr) (path : PathBuf)
      (h : valid.contains SetattrMask.MODE = true) (hpath : Paths path) :
      Asks Paths (.tsetattr fid valid stat) (.setPermissions path stat.mode)
  | owner (fid : UInt32) (valid : SetattrMask) (stat : SetAttr) (path : PathBuf)
      (h : valid.intersects (SetattrMask.UID ||| SetattrMask.GID) = true) (hpath : Paths path) :
      Asks Paths (.tsetattr fid valid stat) (.chown path
        (if valid.contains SetattrMask.UID then some stat.uid else none)
        (if valid.contains SetattrMask.GID then some stat.gid else none))
  | size (fid : UInt32) (valid : SetattrMask) (stat : SetAttr) (file : FileId)
      (h : valid.contains SetattrMask.SIZE = true) :
      Asks Paths (.tsetattr fid valid stat) (.setLen file stat.size)
  | times (fid : UInt32) (valid : SetattrMask) (stat : SetAttr) (path : PathBuf)
      (atime mtime : FileTime)
      (h : valid.intersects (SetattrMask.ATIME_SET ||| SetattrMask.MTIME_SET) = true)
      (hatime : valid.contains SetattrMask.ATIME_SET = true →
        atime = FileTime.fromUnixTime stat.atime.sec.toInt64 stat.atime.nsec.toUInt32)
      (hmtime : valid.contains SetattrMask.MTIME_SET = true →
        mtime = FileTime.fromUnixTime stat.mtime.sec.toInt64 stat.mtime.nsec.toUInt32)
      (hpath : Paths path) :
      Asks Paths (.tsetattr fid valid stat) (.setFileTimes path atime mtime)
  | opens (fid flags : UInt32) (path : PathBuf) (hpath : Paths path) :
      Asks Paths (.tlopen fid flags) (.open path (oflagsOf flags) (omodeOf 0))
  | creates (fid : UInt32) (name : String) (flags mode gid : UInt32) (path : PathBuf)
      (hpath : Paths path) : Asks Paths (.tlcreate fid name flags mode gid)
        (.open (path.join name) (oflagsOf flags) (omodeOf mode))
  | writes (fid : UInt32) (offset : UInt64) (data : Data) (file : FileId) :
      Asks Paths (.twrite fid offset data) (.write file data.bytes)
  | makes (dfid : UInt32) (name : String) (mode gid : UInt32) (path : PathBuf)
      (hpath : Paths path) : Asks Paths (.tmkdir dfid name mode gid) (.createDir (path.join name))
  | renames (olddirfid newdirfid : UInt32) (oldname newname : String) (oldpath newpath : PathBuf)
      (hold : Paths oldpath) (hnew : Paths newpath) :
      Asks Paths (.trenameat olddirfid oldname newdirfid newname)
        (.rename (oldpath.join oldname) (newpath.join newname))
  | removes (dirfd : UInt32) (name : String) (flags : UInt32) (path : PathBuf)
      (hpath : Paths path) :
      Asks Paths (.tunlinkat dirfd name flags) (.removeFile (path.join name))
  | removesDir (dirfd : UInt32) (name : String) (flags : UInt32) (path : PathBuf)
      (hpath : Paths path) :
      Asks Paths (.tunlinkat dirfd name flags) (.removeDir (path.join name))

theorem Asks.imp {Paths Paths' : PathBuf → Prop} (h : ∀ path, Paths path → Paths' path)
    {body : Fcall} {o : HostOp} (ho : Asks Paths body o) : Asks Paths' body o := by
  cases ho with
  | mode fid valid stat path hvalid hpath => exact .mode fid valid stat path hvalid (h _ hpath)
  | owner fid valid stat path hvalid hpath => exact .owner fid valid stat path hvalid (h _ hpath)
  | size fid valid stat file hvalid => exact .size fid valid stat file hvalid
  | times fid valid stat path atime mtime hvalid hatime hmtime hpath =>
    exact .times fid valid stat path atime mtime hvalid hatime hmtime (h _ hpath)
  | opens fid flags path hpath => exact .opens fid flags path (h _ hpath)
  | creates fid name flags mode gid path hpath =>
    exact .creates fid name flags mode gid path (h _ hpath)
  | writes fid offset data file => exact .writes fid offset data file
  | makes dfid name mode gid path hpath => exact .makes dfid name mode gid path (h _ hpath)
  | renames olddirfid newdirfid oldname newname oldpath newpath hold hnew =>
    exact .renames olddirfid newdirfid oldname newname oldpath newpath (h _ hold) (h _ hnew)
  | removes dirfd name flags path hpath => exact .removes dirfd name flags path (h _ hpath)
  | removesDir dirfd name flags path hpath => exact .removesDir dirfd name flags path (h _ hpath)

/-- The paths that a handler has read, and those that it read before. -/
def learned (paths : List PathBuf) : (o : UnpfsOp) → UnpfsRes o → List PathBuf
  | .realpathRead _, path => path :: paths
  | _, _ => paths

/-- A handler alters what its request asks for, on the paths that it has read. -/
def Permitted (body : Fcall) (paths : List PathBuf) (o : UnpfsOp) (r : UnpfsRes o)
    (paths' : List PathBuf) : Prop :=
  paths' = learned paths o r ∧ ∀ call, o = .host call → call.Alters → Asks (· ∈ paths) body call

abbrev asking : Protocol UnpfsOp UnpfsRes where
  Stage := List PathBuf
  start := []
  next _ := Permitted
  ends _ _ _ := True
  mono _ _ _ _ _ _ h := h

section
variable {body : Fcall} {α β : Type} {paths : List PathBuf} {Q : List PathBuf → α → Prop}

/-! Handlers that only look. -/

/-- An operation that alters nothing on the host. -/
def UnpfsOp.Looks (o : UnpfsOp) : Prop := ∀ call, o = .host call → ¬ call.Alters

abbrev UsesLooks (h : UnpfsHandler α) : Prop :=
  Prog.Uses UnpfsOp.Looks (fun _ _ => True) (fun _ => True) h

theorem looks_host {o : HostOp} (h : ¬ o.Alters) : (UnpfsOp.host o).Looks := by
  rintro call hcall
  cases hcall
  exact h

theorem performs_look {o : HostOp} (h : ¬ o.Alters) :
    (op (.host o)).Performs UnpfsOp.Looks (fun _ _ => True) (fun _ => True) :=
  ⟨looks_host h, fun _ _ => True.intro⟩

theorem looks_pure (a : α) : UsesLooks (pure a : UnpfsHandler α) := (uses_pure a).mpr True.intro

theorem looks_bind {h : UnpfsHandler α} {f : α → UnpfsHandler β} (hh : UsesLooks h)
    (hf : ∀ a, UsesLooks (f a)) : UsesLooks (h >>= f) :=
  uses_bind hh fun a _ => hf a

theorem looks_liftIo {p : UnpfsProg (Except IoError α)}
    (h : p.Performs UnpfsOp.Looks (fun _ _ => True) (fun _ => True)) : UsesLooks (liftIo p) :=
  uses_liftIo (h.mono fun _ _ _ _ => True.intro)

theorem looks_liftNix {p : UnpfsProg (Except Errno α)}
    (h : p.Performs UnpfsOp.Looks (fun _ _ => True) (fun _ => True)) : UsesLooks (liftNix p) :=
  uses_liftNix (h.mono fun _ _ _ _ => True.intro)

/-- The operation on an object of a fid comes first. -/
theorem performs_obj {o : UnpfsOp} {k : UnpfsRes o → UnpfsProg α} {R : α → Prop}
    (ho : ∀ call, o ≠ .host call) (hk : ∀ r, (k r).Performs UnpfsOp.Looks (fun _ _ => True) R) :
    (Prog.op o k).Performs UnpfsOp.Looks (fun _ _ => True) R :=
  ⟨fun call hcall => absurd hcall (ho call), fun r _ => hk r⟩

theorem looks_realpath (fid : Fid) : UsesLooks (realpath fid) := by
  refine performs_obj (by simp) fun path => ?_
  exact performs_obj (by simp) fun _ _ _ => True.intro

theorem looks_setRealpath (fid : Fid) (path : PathBuf) : UsesLooks (setRealpath fid path) :=
  performs_obj (by simp) fun _ _ _ => True.intro

theorem looks_withRealpath (fid : Fid) {act : PathBuf → UnpfsHandler α}
    (h : ∀ path, UsesLooks (act path)) : UsesLooks (withRealpath fid act) := by
  unfold UsesLooks Uses withRealpath
  simp only [ExceptT.run_mk, op, call_bind]
  refine performs_obj (by simp) fun path => ?_
  rw [performs_bind]
  refine Performs.mono (h path) fun r _ => ?_
  exact performs_obj (by simp) fun _ _ _ => True.intro

theorem looks_withFile (fid : Fid) {act : FileId → UnpfsHandler α}
    (h : ∀ file, UsesLooks (act file)) : UsesLooks (withFile fid act) := by
  unfold UsesLooks Uses withFile
  simp only [ExceptT.run_mk, op, call_bind]
  refine performs_obj (by simp) fun file => ?_
  rw [performs_bind]
  cases file with
  | none =>
    have hthrow : UsesLooks (throw (Error.io INVALID_FID) : UnpfsHandler α) := uses_throw _
    refine Performs.mono hthrow fun r _ => ?_
    exact performs_obj (by simp) fun _ _ _ => True.intro
  | some file =>
    refine Performs.mono (h file) fun r _ => ?_
    exact performs_obj (by simp) fun _ _ _ => True.intro

theorem looks_setFile (fid : Fid) (file : FileId) : UsesLooks (setFile fid file) := by
  refine performs_obj (by simp) fun old => ?_
  refine performs_obj (by simp) fun _ => ?_
  exact performs_obj (by simp) fun _ _ _ => True.intro

theorem looks_getQid (path : PathBuf) : UsesLooks (getQid path) := by
  apply looks_bind _ fun _ => looks_pure _
  exact looks_liftIo (performs_look id)

theorem looks_walkLoop (wnames : List String) (i : ℕ) (path : PathBuf) (wqids : List Qid) :
    UsesLooks (Unpfs.walkLoop wnames i path wqids) := by
  induction wnames generalizing i path wqids with
  | nil => exact looks_pure _
  | cons name wnames ih =>
    unfold Unpfs.walkLoop
    apply looks_bind (uses_attempt (looks_getQid _))
    intro r
    cases r with
    | ok qid => exact ih _ _ _
    | error e =>
      dsimp only
      split_ifs
      · exact uses_throw e
      · exact looks_pure _

theorem looks_readdirStart (off : UInt64) : UsesLooks (Unpfs.readdirStart off) := by
  have hdots : ∀ path offset, UsesLooks (getDirentFrom path offset) := fun path offset =>
    looks_bind (looks_getQid path) fun _ => looks_pure _
  unfold Unpfs.readdirStart
  dsimp only
  split_ifs
  · apply looks_bind (hdots _ _)
    intro dirent
    exact looks_bind (hdots _ _) fun _ => looks_pure _
  · exact looks_pure _

theorem looks_readdirLoop (count : UInt32) (entries : List (Except IoError HostDirEntry)) (i : ℕ)
    (dirents : DirEntryData) : UsesLooks (Unpfs.readdirLoop count entries i dirents) := by
  induction entries generalizing i dirents with
  | nil => exact looks_pure _
  | cons entry entries ih =>
    unfold Unpfs.readdirLoop
    apply looks_bind (looks_liftIo (p := pure entry) True.intro)
    intro entry
    have hdirent : UsesLooks (getDirent entry (UInt64.ofNat (2 + i))) := by
      apply looks_bind _ fun _ => looks_pure _
      exact looks_liftIo (performs_look id)
    apply looks_bind hdirent
    intro dirent
    split_ifs
    · exact looks_pure _
    · exact ih _ _

/-! Handlers that keep to what their request asks for. -/

/-- `Q` holds of the paths that the handler has read when it returns. -/
abbrev Abides (body : Fcall) (Q : List PathBuf → α → Prop) (paths : List PathBuf)
    (h : UnpfsHandler α) : Prop :=
  Obeys (Permitted body) (fun _ => True) Q paths h

theorem subset_learned (o : UnpfsOp) (r : UnpfsRes o) : paths ⊆ learned paths o r := by
  unfold learned
  split
  · exact List.subset_cons_self _ _
  · exact List.Subset.refl _

theorem follows_of_looks {p : UnpfsProg α} {R : α → Prop}
    (hp : p.Performs UnpfsOp.Looks (fun _ _ => True) R) :
    p.Follows (Permitted body) (fun paths' _ => paths ⊆ paths') paths := by
  induction p generalizing paths with
  | ret a => exact List.Subset.refl _
  | op o k ih =>
    intro r
    have hlater : (k r).Follows (Permitted body) (fun paths' _ => learned paths o r ⊆ paths')
        (learned paths o r) := ih r (hp.2 r True.intro)
    refine ⟨_, ⟨rfl, fun call hcall halters => absurd halters (hp.1 call hcall)⟩, ?_⟩
    exact hlater.mono fun paths' a hsub => List.Subset.trans (subset_learned o r) hsub

theorem abides_of_looks {h : UnpfsHandler α} (hh : UsesLooks h) :
    Abides body (fun paths' _ => paths ⊆ paths') paths h := by
  have hfollows : h.run.Follows (Permitted body) (fun paths' _ => paths ⊆ paths') paths :=
    follows_of_looks hh
  refine hfollows.mono fun paths' r hr => ?_
  cases r with
  | ok a => exact hr
  | error e => exact True.intro

theorem abides_realpath (fid : Fid) :
    Abides body (fun paths' path => path ∈ paths' ∧ paths ⊆ paths') paths (realpath fid) := by
  intro path
  refine ⟨_, ⟨rfl, by simp⟩, fun _ => ?_⟩
  refine ⟨_, ⟨rfl, by simp⟩, ?_⟩
  exact ⟨List.mem_cons_self, List.subset_cons_self _ _⟩

/-- A call that the request asks for, if it alters anything. -/
theorem follows_host {o : HostOp} (h : o.Alters → Asks (· ∈ paths) body o) :
    (op (.host o)).Follows (Permitted body) (fun paths' _ => paths' = paths) paths := by
  intro r
  refine ⟨paths, ⟨rfl, ?_⟩, rfl⟩
  rintro call hcall halters
  cases hcall
  exact h halters

theorem follows_look {o : HostOp} (h : ¬ o.Alters) :
    (op (.host o)).Follows (Permitted body) (fun paths' _ => paths' = paths) paths :=
  follows_host fun halters => absurd halters h

theorem abides_liftIo {p : UnpfsProg (Except IoError α)}
    (h : p.Follows (Permitted body) (fun paths' _ => paths' = paths) paths) :
    Abides body (fun paths' _ => paths' = paths) paths (liftIo p) := by
  unfold Abides Obeys liftIo
  rw [ExceptT.run_mk, map_eq_pure_bind]
  apply follows_bind h
  intro paths' r hr
  cases r with
  | ok a => exact hr
  | error e => exact True.intro

theorem abides_liftNix {p : UnpfsProg (Except Errno α)}
    (h : p.Follows (Permitted body) (fun paths' _ => paths' = paths) paths) :
    Abides body (fun paths' _ => paths' = paths) paths (liftNix p) := by
  unfold Abides Obeys liftNix
  rw [ExceptT.run_mk, map_eq_pure_bind]
  apply follows_bind h
  intro paths' r hr
  cases r with
  | ok a => exact hr
  | error e => exact True.intro

/-- What comes at the end of a handler. -/
theorem abides_rest {h : UnpfsHandler α} (hh : UsesLooks h) :
    Abides body (fun _ _ => True) paths h := by
  refine (abides_of_looks hh).mono fun paths' r hr => ?_
  cases r <;> exact True.intro

theorem abides_withFile (fid : Fid) {act : FileId → UnpfsHandler α}
    (hact : ∀ file, Abides body (fun _ _ => True) paths (act file)) :
    Abides body (fun _ _ => True) paths (withFile fid act) := by
  have hunlock : ∀ (read : List PathBuf) (r : Except Error α),
      (Prog.op (UnpfsOp.fileUnlock fid.aux) fun _ => (pure r : UnpfsProg (Except Error α))).Follows
        (Permitted body) (fun _ _ => True) read :=
    fun read r _ => ⟨_, ⟨rfl, by simp⟩, True.intro⟩
  have hfollows : (withFile fid act).run.Follows (Permitted body) (fun _ _ => True) paths := by
    unfold withFile
    simp only [ExceptT.run_mk, op, call_bind]
    intro file
    refine ⟨paths, ⟨rfl, by simp⟩, ?_⟩
    cases file with
    | none => exact hunlock paths _
    | some file => exact follows_bind (hact file) fun read r _ => hunlock read r
  refine hfollows.mono fun read r _ => ?_
  cases r <;> exact True.intro

/-- A block of `rsetattr` that looks or asks for what it changes. -/
theorem abides_setMode {fid : UInt32} {path : PathBuf} (hpath : path ∈ paths) (valid : SetattrMask)
    (stat : SetAttr) : Abides (.tsetattr fid valid stat) (fun paths' _ => paths' = paths) paths
      (Unpfs.setMode path valid stat) := by
  unfold Unpfs.setMode
  split_ifs with hvalid
  · apply abides_liftIo
    exact follows_host fun _ => .mode fid valid stat path hvalid hpath
  · exact obeys_pure rfl

theorem abides_setOwner {fid : UInt32} {path : PathBuf} (hpath : path ∈ paths)
    (valid : SetattrMask) (stat : SetAttr) :
    Abides (.tsetattr fid valid stat) (fun paths' _ => paths' = paths) paths
      (Unpfs.setOwner path valid stat) := by
  unfold Unpfs.setOwner
  split
  next hvalid =>
    apply abides_liftNix
    exact follows_host fun _ => .owner fid valid stat path hvalid hpath
  · exact obeys_pure rfl

theorem abides_setSize {fid : UInt32} (path : PathBuf) (valid : SetattrMask) (stat : SetAttr) :
    Abides (.tsetattr fid valid stat) (fun paths' _ => paths' = paths) paths
      (Unpfs.setSize path valid stat) := by
  unfold Unpfs.setSize
  split_ifs with hvalid
  · apply obeys_bind (abides_liftIo (follows_look (o := .openWrite path) id))
    rintro paths' file rfl
    apply abides_liftIo
    exact follows_host fun _ => .size fid valid stat file hvalid
  · exact obeys_pure rfl

theorem abides_setTimes {fid : UInt32} {path : PathBuf} (hpath : path ∈ paths)
    (valid : SetattrMask) (stat : SetAttr) :
    Abides (.tsetattr fid valid stat) (fun paths' _ => paths' = paths) paths
      (Unpfs.setTimes path valid stat) := by
  unfold Unpfs.setTimes
  split
  next hvalid =>
    apply obeys_bind (abides_liftIo (follows_look (o := .metadata path) id))
    rintro paths' attr rfl
    intro r
    refine ⟨_, ⟨rfl, ?_⟩, rfl⟩
    rintro call hcall -
    cases hcall
    exact .times fid valid stat path _ _ hvalid (fun h => if_pos h) (fun h => if_pos h) hpath
  · exact obeys_pure rfl

theorem abides_rsetattr (fid : UInt32) (b : Fid) (valid : SetattrMask) (stat : SetAttr) :
    Abides (.tsetattr fid valid stat) (fun _ _ => True) paths (Unpfs.rsetattr b valid stat) := by
  apply obeys_bind (abides_realpath b)
  rintro read path ⟨hpath, -⟩
  apply obeys_bind (abides_setMode hpath valid stat)
  rintro _ _ rfl
  apply obeys_bind (abides_setOwner hpath valid stat)
  rintro _ _ rfl
  apply obeys_bind (abides_setSize path valid stat)
  rintro _ _ rfl
  apply obeys_bind (abides_setTimes hpath valid stat)
  intro _ _ _
  exact obeys_pure True.intro

theorem abides_rlopen (fid flags : UInt32) (b : Fid) :
    Abides (.tlopen fid flags) (fun _ _ => True) paths (Unpfs.rlopen b flags) := by
  apply obeys_bind (abides_realpath b)
  rintro read path ⟨hpath, -⟩
  apply obeys_bind (abides_of_looks (looks_getQid path))
  intro more qid hmore
  dsimp only
  split_ifs
  · apply obeys_bind (abides_liftNix (follows_host fun _ => .opens fid flags path (hmore hpath)))
    rintro _ file rfl
    exact abides_rest (looks_bind (looks_setFile b file) fun _ => looks_pure _)
  · exact abides_rest (looks_pure _)

theorem abides_rlcreate (fid : UInt32) (name : String) (flags mode gid : UInt32) (b : Fid) :
    Abides (.tlcreate fid name flags mode gid) (fun _ _ => True) paths
      (Unpfs.rlcreate b name flags mode gid) := by
  apply obeys_bind (abides_realpath b)
  rintro read path ⟨hpath, -⟩
  have hasks : Asks (· ∈ read) (.tlcreate fid name flags mode gid)
      (.open (path.join name) (oflagsOf flags) (omodeOf mode)) :=
    .creates fid name flags mode gid path hpath
  apply obeys_bind (abides_liftNix (follows_host fun _ => hasks))
  rintro _ file rfl
  apply abides_rest
  apply looks_bind (looks_getQid _)
  intro qid
  apply looks_bind (looks_setRealpath b _)
  intro _
  exact looks_bind (looks_setFile b file) fun _ => looks_pure _

theorem abides_rwrite (fid : UInt32) (offset : UInt64) (data : Data) (b : Fid) :
    Abides (.twrite fid offset data) (fun _ _ => True) paths (Unpfs.rwrite b offset data) := by
  have hact : ∀ file, Abides (.twrite fid offset data) (fun _ _ => True) paths (do
      let _ ← liftIo (op (.host (.seek file offset)))
      let n ← liftIo (op (.host (.write file data.bytes)))
      return UInt32.ofNat n.val) := by
    intro file
    apply obeys_bind (abides_liftIo (follows_look (o := .seek file offset) id))
    rintro _ pos rfl
    apply obeys_bind (abides_liftIo (follows_host fun _ => .writes fid offset data file))
    intro _ _ _
    exact obeys_pure True.intro
  apply obeys_bind (abides_withFile b hact)
  intro _ _ _
  exact obeys_pure True.intro

theorem abides_rmkdir (dfid : UInt32) (name : String) (mode gid : UInt32) (b : Fid) :
    Abides (.tmkdir dfid name mode gid) (fun _ _ => True) paths (Unpfs.rmkdir b name mode gid) := by
  apply obeys_bind (abides_realpath b)
  rintro read path ⟨hpath, -⟩
  have hasks : Asks (· ∈ read) (.tmkdir dfid name mode gid) (.createDir (path.join name)) :=
    .makes dfid name mode gid path hpath
  apply obeys_bind (abides_liftIo (follows_host fun _ => hasks))
  rintro _ _ rfl
  exact abides_rest (looks_bind (looks_getQid _) fun _ => looks_pure _)

theorem abides_rrenameat (olddirfid newdirfid : UInt32) (oldname newname : String) (b c : Fid) :
    Abides (.trenameat olddirfid oldname newdirfid newname) (fun _ _ => True) paths
      (Unpfs.rrenameat b oldname c newname) := by
  apply obeys_bind (abides_realpath b)
  rintro read oldpath ⟨hold, -⟩
  apply obeys_bind (abides_realpath c)
  rintro more newpath ⟨hnew, hsub⟩
  have hasks : Asks (· ∈ more) (.trenameat olddirfid oldname newdirfid newname)
      (.rename (oldpath.join oldname) (newpath.join newname)) :=
    .renames olddirfid newdirfid oldname newname oldpath newpath (hsub hold) hnew
  apply obeys_bind (abides_liftIo (follows_host fun _ => hasks))
  intro _ _ _
  exact obeys_pure True.intro

theorem abides_runlinkat (dirfd : UInt32) (name : String) (flags : UInt32) (b : Fid) :
    Abides (.tunlinkat dirfd name flags) (fun _ _ => True) paths
      (Unpfs.runlinkat b name flags) := by
  apply obeys_bind (abides_realpath b)
  rintro read path ⟨hpath, -⟩
  apply obeys_bind (abides_liftIo (follows_look (o := .symlinkMetadata (path.join name)) id))
  rintro _ attr rfl
  dsimp only
  split_ifs
  · have hasks := Asks.removesDir dirfd name flags path hpath
    apply obeys_bind (abides_liftIo (follows_host fun _ => hasks))
    intro _ _ _
    exact obeys_pure True.intro
  · have hasks := Asks.removes dirfd name flags path hpath
    apply obeys_bind (abides_liftIo (follows_host fun _ => hasks))
    intro _ _ _
    exact obeys_pure True.intro

/-- The handler of a routed request alters what the request asks for. -/
theorem abides_of_route {realroot : PathBuf} {fids : FidTable} {aux : ObjId}
    {handler : UnpfsHandler Fcall}
    (hroute : route (Unpfs realroot) fids (newFid body aux) body = .ok handler) :
    Abides body (fun _ _ => True) [] handler := by
  cases routed_of_route hroute with
  | rlopen flags hb => exact abides_rlopen _ flags _
  | rlcreate name flags mode gid hb => exact abides_rlcreate _ name flags mode gid _
  | rsetattr valid stat hb => exact abides_rsetattr _ _ valid stat
  | rwrite offset data hb => exact abides_rwrite _ offset data _
  | rmkdir name mode gid hb => exact abides_rmkdir _ name mode gid _
  | rrenameat oldname newname hb hc => exact abides_rrenameat _ _ oldname newname _ _
  | runlinkat name flags hb => exact abides_runlinkat _ name flags _
  | rstatfs hb =>
    apply abides_rest
    apply looks_bind (looks_realpath _)
    intro path
    exact looks_bind (looks_liftNix (performs_look id)) fun fs => looks_pure _
  | rreadlink hb =>
    apply abides_rest
    refine looks_bind (looks_withRealpath _ fun path => ?_) fun link => looks_pure _
    exact looks_liftIo (performs_look id)
  | rgetattr reqMask hb =>
    apply abides_rest
    refine looks_bind (looks_withRealpath _ fun path => ?_) fun attr => looks_pure _
    exact looks_liftIo (performs_look id)
  | rreaddir offset count hb =>
    apply abides_rest
    apply looks_bind (looks_readdirStart offset)
    intro x
    refine looks_bind (looks_withRealpath _ fun path => ?_) fun entries => ?_
    · exact looks_liftIo (performs_look id)
    · exact looks_bind (looks_readdirLoop _ _ _ _) fun dirents => looks_pure _
  | rfsync hb =>
    apply abides_rest
    refine looks_bind (looks_withFile _ fun file => ?_) fun _ => looks_pure _
    exact looks_liftIo (performs_look id)
  | rread offset count hb =>
    apply abides_rest
    refine looks_bind (looks_withFile _ fun file => ?_) fun buf => looks_pure _
    apply looks_bind (looks_liftIo (performs_look (o := .seek file offset) id))
    intro pos
    apply looks_bind (looks_liftIo (performs_look (o := .read file count.toNat) id))
    exact fun bytes => looks_pure _
  | rattach fid afid uname aname nUname =>
    apply abides_rest
    apply looks_bind (looks_setRealpath _ _)
    intro _
    exact looks_bind (looks_getQid _) fun qid => looks_pure _
  | rwalk newfid wnames hb =>
    apply abides_rest
    apply looks_bind (looks_realpath _)
    intro path
    apply looks_bind (looks_walkLoop wnames 0 path [])
    intro x
    exact looks_bind (looks_setRealpath _ _) fun _ => looks_pure _
  | rclunk hb => exact abides_rest (looks_pure _)
  | rversion msize version => exact abides_rest (looks_pure _)
  | unsupported => exact abides_rest (uses_throw _)

theorem asking_governs (realroot : PathBuf) : asking.Governs (Unpfs realroot) where
  routed _ hroute := by
    refine Follows.mono (abides_of_route hroute) fun paths' r hr => ?_
    exact True.intro
  refused _ _ := True.intro

end

/-! The connection. -/

section
variable {h : SharedHost} {realroot : PathBuf} {s₀ s t : Conn h.world} {l : Label h.world}
  {ls : List (Label h.world)} {C : Type}

/-- A path that an object of the connection has had in the run. -/
def HadPath (realroot : PathBuf) (s₀ : Conn h.world) (ls : List (Label h.world)) (path : PathBuf) :
    Prop :=
  ∃ ms u a, ms <+: ls ∧ runs (step (Unpfs realroot)) s₀ ms = some u ∧ u.world.realpath a = path

/-- The handlers keep to what their requests ask for, on paths that objects have had in the run. -/
def Conn.Abiding (s : Conn h.world) (realroot : PathBuf) (s₀ : Conn h.world)
    (ls : List (Label h.world)) : Prop :=
  ∃ st, s.Governed asking st ∧ ∀ i, ∀ path ∈ st i, HadPath realroot s₀ ls path

theorem learned_cases {paths : List PathBuf} {o : UnpfsOp} {r : UnpfsRes o}
    {w v : LockedObjs h.State} (hexec : h.lockedExec o w = some (r, v)) {path : PathBuf}
    (hpath : path ∈ learned paths o r) : path ∈ paths ∨ ∃ a, w.realpath a = path := by
  cases o with
  | realpathRead a =>
    cases hexec
    obtain rfl | hold := List.mem_cons.mp hpath
    · exact .inr ⟨a, rfl⟩
    · exact .inl hold
  | _ => exact .inl hpath

theorem abiding_step (s : Conn h.world) (l : Label h.world) (t : Conn h.world)
    (hs : s.Abiding realroot s₀ ls)
    (hin : ∃ ms, ms <+: ls ∧ runs (step (Unpfs realroot)) s₀ ms = some s)
    (hstep : step (Unpfs realroot) s l = some t) : t.Abiding realroot s₀ ls := by
  obtain ⟨st, hgoverned, hpaths⟩ := hs
  obtain ⟨st', hworld, hgoverned'⟩ := governed_step (asking_governs realroot) hgoverned hstep
  refine ⟨st', hgoverned', ?_⟩
  generalize t.world = w at hworld
  cases hworld with
  | still => exact hpaths
  | created i msg aux ht => exact hpaths
  | ticked e world hw => exact hpaths
  | ran i msg aux newfid o k r q world ht hexec hnext =>
    intro j path hpath
    by_cases hj : j = i
    · subst hj
      rw [Function.update_self, hnext.1] at hpath
      obtain hold | ⟨a, ha⟩ := learned_cases hexec hpath
      · exact hpaths j path hold
      · obtain ⟨ms, hms, hrun⟩ := hin
        exact ⟨ms, s, a, hms, hrun, ha⟩
    · rw [Function.update_of_ne hj] at hpath
      exact hpaths j path hpath

theorem abiding_run {nextAux : ObjId} {host : h.State}
    (hr : runs (step (Unpfs realroot)) (h.conn nextAux host) ls = some s) :
    s.Abiding realroot (h.conn nextAux host) ls := by
  have hstart : (h.conn nextAux host).Abiding realroot (h.conn nextAux host) ls :=
    ⟨_, governed_start nextAux _, fun _ _ hpath => nomatch hpath⟩
  have halong : Along (step (Unpfs realroot)) (fun s _ => ∃ ms, ms <+: ls ∧
      runs (step (Unpfs realroot)) (h.conn nextAux host) ms = some s) (h.conn nextAux host) ls := by
    apply along_of_prefix
    intro ms l ns u hls hu
    exact ⟨ms, hls ▸ List.prefix_append ms (l :: ns), hu⟩
  exact runs_invariant_along abiding_step halong hr hstart

/-- The view of the host that only altering calls change. -/
def SharedHost.Shows (h : SharedHost) (content : h.State → C) : Prop :=
  ∀ (o : HostOp) (s : h.State) (r : HostRes o) (t : h.State), ¬ o.Alters →
    h.exec o s = some (r, t) → content t = content s

/-- What is seen of the host changes by itself or by a call that a request asks for. -/
theorem asked_of_step {content : h.State → C} (hshows : h.Shows content)
    (hs : s.Abiding realroot s₀ ls) (hstep : step (Unpfs realroot) s l = some t)
    (hchanged : content t.world.host ≠ content s.world.host) :
    (∃ e, l = .world e) ∨ ∃ i msg aux p o r, l = .run i ∧ s.tasks[i]? = some ⟨msg, aux, p⟩ ∧
      o.Alters ∧ Asks (HadPath realroot s₀ ls) msg.body o ∧
      h.exec o s.world.host = some (r, t.world.host) := by
  obtain ⟨st, hgoverned, hpaths⟩ := hs
  obtain ⟨st', hworld, -⟩ := governed_step (asking_governs realroot) hgoverned hstep
  generalize t.world = w at hworld hchanged ⊢
  cases hworld with
  | still => exact absurd rfl hchanged
  | created i msg aux htask => exact absurd rfl hchanged
  | ticked e world hw => exact .inl ⟨e, rfl⟩
  | ran i msg aux newfid o k r q world htask hexec hnext =>
    cases o with
    | host o =>
      obtain ⟨x, hx, hsame⟩ := Option.map_eq_some_iff.mp hexec
      cases hsame
      by_cases halters : o.Alters
      · have hasks := (hnext.2 o rfl halters).imp fun path hpath => hpaths i path hpath
        exact .inr ⟨i, msg, aux, _, o, x.1, rfl, htask, halters, hasks, hx⟩
      · exact absurd (hshows o _ _ _ halters hx) hchanged
    | realpathWrite | fileLock =>
      simp only [SharedHost.world, SharedHost.lockedExec] at hexec
      split_ifs at hexec
      cases hexec
      exact absurd rfl hchanged
    | realpathRead | realpathUnread | fileSet | fileUnlock =>
      cases hexec
      exact absurd rfl hchanged

theorem request_of_task {nextAux : ObjId} {host : h.State}
    (hr : runs (step (Unpfs realroot)) (h.conn nextAux host) ls = some s) {i : ℕ} {msg : Msg}
    {aux : ObjId} {p : Phase UnpfsOp UnpfsRes} (ht : s.tasks[i]? = some ⟨msg, aux, p⟩) :
    (requests ls)[i]? = some msg := by
  have hmsgs : s.tasks.map Task.msg = requests ls := map_msg_of_run hr
  rw [← hmsgs, List.getElem?_map, ht]
  rfl

/-- The request asks for no change. -/
def Fcall.Reads : Fcall → Prop
  | .tsetattr .. | .twrite .. | .tmkdir .. | .trenameat .. | .tunlinkat .. => False
  | .tlopen _ flags | .tlcreate _ _ flags .. => flags &&& (O_CREAT ||| O_TRUNC) = 0
  | _ => True

theorem oflagsOf_creat (flags : UInt32) :
    oflagsOf flags &&& (O_CREAT ||| O_TRUNC) = flags &&& (O_CREAT ||| O_TRUNC) := by
  have hmask : UNIX_FLAGS &&& (O_CREAT ||| O_TRUNC) = O_CREAT ||| O_TRUNC := by decide
  unfold oflagsOf
  rw [UInt32.and_assoc, hmask]

theorem not_asks_of_reads {body : Fcall} (h : body.Reads) {Paths : PathBuf → Prop} {o : HostOp}
    (halters : o.Alters) : ¬ Asks Paths body o := by
  intro hasks
  cases hasks with
  | opens | creates => exact halters ((oflagsOf_creat _).trans h)
  | _ => exact h

/-- A client that only reads changes nothing, however its requests are interleaved. -/
theorem reads_change_nothing {content : h.State → C} (hshows : h.Shows content) {nextAux : ObjId}
    {host : h.State} (hr : runs (step (Unpfs realroot)) (h.conn nextAux host) ls = some s)
    (hreads : ∀ msg ∈ requests ls, msg.body.Reads) (hstill : ∀ e, .world e ∉ ls) :
    content s.world.host = content host := by
  induction ls using List.reverseRecOn generalizing s with
  | nil =>
    cases hr
    rfl
  | append_singleton ls l ih =>
    obtain ⟨u, hu, hlast⟩ := runs_append_eq_some.mp hr
    obtain ⟨v, hv, hs⟩ := runs_cons_eq_some.mp hlast
    cases hs
    have hbefore : content u.world.host = content host := by
      refine ih hu (fun msg hmsg => hreads msg ?_) fun e he => hstill e ?_
      · unfold requests at hmsg ⊢
        rw [List.filterMap_append]
        exact List.mem_append_left _ hmsg
      · exact List.mem_append_left _ he
    by_contra hchanged
    rw [← hbefore] at hchanged
    obtain ⟨e, rfl⟩ | ⟨i, msg, aux, p, o, r, rfl, ht, halters, hasks, -⟩ :=
      asked_of_step hshows (abiding_run hu) hv hchanged
    · exact hstill e (List.mem_append_right _ (List.mem_singleton_self _))
    · have hrequest := List.mem_of_getElem? (request_of_task hu ht)
      refine not_asks_of_reads (hreads msg ?_) halters hasks
      unfold requests at hrequest ⊢
      rw [List.filterMap_append]
      exact List.mem_append_left _ hrequest

end

/-- A host of directories to which others can be added. -/
def growingDirs : SharedHost where
  State := List PathBuf
  Event := Empty
  exec
    | .createDir path, s => some (.ok (), path :: s)
    | o, s => some (((dirHost s).exec o ()).1, s)
  tick e _ := nomatch e

theorem growingDirs_shows : growingDirs.Shows id := by
  intro o s r t halters hexec
  cases o with
  | createDir path => exact absurd True.intro halters
  | _ =>
    cases hexec
    rfl

/-- `Tattach` of fid 1, and `Tmkdir` of `a` in it up to the call. -/
def attachMkdir : List (Label growingDirs.world) :=
  [.recv [104, 1, 0, 1, 0, 0, 0, 255, 255, 255, 255, 0, 0, 0, 0, 0, 0, 0, 0], .lookup 0, .run 0,
    .run 0, .finish 0, .insert 0, .send 0,
    .recv [72, 2, 0, 1, 0, 0, 0, 1, 0, 97, 0, 0, 0, 0, 0, 0, 0, 0], .lookup 1, .run 1, .run 1]

end P9cpu.Ninep
