import P9cpu.Ninep.Confine
import P9cpu.Ninep.Protocol
import Mathlib.Data.Set.Card

/-! The locks of fid objects: which of them a handler holds while it runs, and that it gives all
of them back. -/
namespace P9cpu.Ninep
open Core Prog

/-- The lock guard that a handler holds. -/
inductive Guard
  | free
  /-- the read guard of the path of an object -/
  | realpath (a : ObjId)
  /-- the guard of the open file of an object -/
  | file (a : ObjId)
deriving DecidableEq

/-- The object of a guard. -/
def Guard.obj : Guard → Option ObjId
  | .free => none
  | .realpath a | .file a => some a

/-- A handler takes a lock only while it holds no other one; while it holds one it calls the host,
uses what the lock guards and gives it back. -/
inductive Guarded (Uses : ObjId → Prop) : Guard → (o : UnpfsOp) → UnpfsRes o → Guard → Prop
  | host (g : Guard) (o : HostOp) (r : HostRes o) : Guarded Uses g (.host o) r g
  | reads (a : ObjId) (path : PathBuf) (h : Uses a) :
      Guarded Uses .free (.realpathRead a) path (.realpath a)
  | unreads (a : ObjId) : Guarded Uses (.realpath a) (.realpathUnread a) () .free
  | writes (a : ObjId) (path : PathBuf) : Guarded Uses .free (.realpathWrite a path) () .free
  | locks (a : ObjId) (file : Option FileId) (h : Uses a) :
      Guarded Uses .free (.fileLock a) file (.file a)
  | stores (a : ObjId) (file : FileId) : Guarded Uses (.file a) (.fileSet a file) () (.file a)
  | unlocks (a : ObjId) : Guarded Uses (.file a) (.fileUnlock a) () .free

theorem Guarded.imp {Uses Uses' : ObjId → Prop} (h : ∀ a, Uses a → Uses' a) (g : Guard)
    (o : UnpfsOp) (r : UnpfsRes o) (g' : Guard) (hg : Guarded Uses g o r g') :
    Guarded Uses' g o r g' := by
  cases hg with
  | host g o r => exact .host g o r
  | reads a path ha => exact .reads a path (h a ha)
  | unreads a => exact .unreads a
  | writes a path => exact .writes a path
  | locks a file ha => exact .locks a file (h a ha)
  | stores a file => exact .stores a file
  | unlocks a => exact .unlocks a

/-- A handler ends with no lock. -/
abbrev guards : Protocol UnpfsOp UnpfsRes where
  Stage := Guard
  start := .free
  next Uses _ := Guarded Uses
  ends _ g _ := g = .free
  mono _ h := Guarded.imp h

section
variable {Uses : ObjId → Prop} {α β : Type} {g : Guard}

/-- The handler ends with the locks that it started with, also when it returns early. -/
abbrev Restores (Uses : ObjId → Prop) (g : Guard) (h : UnpfsHandler α) : Prop :=
  Obeys (Guarded Uses) (· = g) (fun g' _ => g' = g) g h

theorem restores_pure (a : α) : Restores Uses g (pure a : UnpfsHandler α) := obeys_pure rfl

theorem restores_throw (e : Error) : Restores Uses g (throw e : UnpfsHandler α) := obeys_throw rfl

theorem restores_bind {h : UnpfsHandler α} {f : α → UnpfsHandler β} (hh : Restores Uses g h)
    (hf : ∀ a, Restores Uses g (f a)) : Restores Uses g (h >>= f) := by
  apply obeys_bind hh
  intro g' a hg
  subst hg
  exact hf a

/-- What a handler is followed through, whether it returns early or not. -/
theorem restores_iff {h : UnpfsHandler α} :
    Restores Uses g h ↔ h.run.Follows (Guarded Uses) (fun g' _ => g' = g) g := by
  unfold Restores Obeys
  constructor
  · intro hh
    apply hh.mono
    intro g' r hr
    cases r with
    | ok a => exact hr
    | error e => exact hr
  · intro hh
    apply hh.mono
    intro g' r hr
    cases r with
    | ok a => exact hr
    | error e => exact hr

theorem restores_attempt {h : UnpfsHandler α} (hh : Restores Uses g h) : Restores Uses g (attempt h) := by
  rw [restores_iff] at hh ⊢
  unfold attempt
  rw [ExceptT.run_mk, map_eq_pure_bind]
  apply follows_bind hh
  intro g' r hg
  exact hg

/-- A program that calls the host only. -/
abbrev Calls (p : UnpfsProg α) : Prop :=
  p.Performs (fun o => ∃ call, o = .host call) (fun _ _ => True) (fun _ => True)

theorem calls_host (o : HostOp) : Calls (op (.host o)) := ⟨⟨o, rfl⟩, fun _ _ => True.intro⟩

theorem follows_of_calls {p : UnpfsProg α} (hp : Calls p) :
    p.Follows (Guarded Uses) (fun g' _ => g' = g) g := by
  have hstay : ∀ o : UnpfsOp, (∃ call, o = .host call) → ∀ r, Guarded Uses g o r g := by
    rintro _ ⟨call, rfl⟩ r
    exact .host g call r
  have hfollows : p.Follows (Guarded Uses) (fun g' _ => g' = g ∧ True) g := hp.follows hstay
  exact hfollows.mono fun g' a hg => hg.1

theorem restores_liftIo {p : UnpfsProg (Except IoError α)} (hp : Calls p) :
    Restores Uses g (liftIo p) := by
  rw [restores_iff]
  unfold liftIo
  rw [ExceptT.run_mk, map_eq_pure_bind]
  apply follows_bind (follows_of_calls hp)
  intro g' r hg
  exact hg

theorem restores_liftNix {p : UnpfsProg (Except Errno α)} (hp : Calls p) :
    Restores Uses g (liftNix p) := by
  rw [restores_iff]
  unfold liftNix
  rw [ExceptT.run_mk, map_eq_pure_bind]
  apply follows_bind (follows_of_calls hp)
  intro g' r hg
  exact hg

/-! Blocks with a lock. -/

theorem restores_realpath {fid : Fid} (huses : Uses fid.aux) : Restores Uses .free (realpath fid) := by
  intro path
  refine ⟨_, .reads fid.aux path huses, fun _ => ?_⟩
  exact ⟨_, .unreads fid.aux, rfl⟩

theorem restores_withRealpath {fid : Fid} (huses : Uses fid.aux) {body : PathBuf → UnpfsHandler α}
    (hbody : ∀ path, Restores Uses (.realpath fid.aux) (body path)) :
    Restores Uses .free (withRealpath fid body) := by
  rw [restores_iff]
  unfold withRealpath
  simp only [ExceptT.run_mk, op, call_bind]
  intro path
  refine ⟨_, .reads fid.aux path huses, ?_⟩
  apply follows_bind (restores_iff.mp (hbody path))
  intro g' r hg
  subst hg
  exact fun _ => ⟨_, .unreads fid.aux, rfl⟩

theorem restores_setRealpath (fid : Fid) (path : PathBuf) :
    Restores Uses .free (setRealpath fid path) :=
  fun _ => ⟨_, .writes fid.aux path, rfl⟩

theorem restores_withFile {fid : Fid} (huses : Uses fid.aux) {body : FileId → UnpfsHandler α}
    (hbody : ∀ file, Restores Uses (.file fid.aux) (body file)) :
    Restores Uses .free (withFile fid body) := by
  rw [restores_iff]
  unfold withFile
  simp only [ExceptT.run_mk, op, call_bind]
  intro file
  refine ⟨_, .locks fid.aux file huses, ?_⟩
  cases file with
  | some file =>
    apply follows_bind (restores_iff.mp (hbody file))
    intro g' r hg
    subst hg
    exact fun _ => ⟨_, .unlocks fid.aux, rfl⟩
  | none =>
    apply follows_bind (restores_iff.mp (restores_throw (Error.io INVALID_FID)))
    intro g' r hg
    subst hg
    exact fun _ => ⟨_, .unlocks fid.aux, rfl⟩

theorem restores_setFile {fid : Fid} (huses : Uses fid.aux) (file : FileId) :
    Restores Uses .free (setFile fid file) := by
  intro old
  refine ⟨_, .locks fid.aux old huses, fun _ => ?_⟩
  refine ⟨_, .stores fid.aux file, fun _ => ?_⟩
  exact ⟨_, .unlocks fid.aux, rfl⟩

/-! Handlers. -/

theorem restores_getQid (path : PathBuf) : Restores Uses g (getQid path) :=
  restores_bind (restores_liftIo (calls_host _)) fun _ => restores_pure _

theorem restores_walkLoop (wnames : List String) (i : ℕ) (path : PathBuf) (wqids : List Qid) :
    Restores Uses g (Unpfs.walkLoop wnames i path wqids) := by
  induction wnames generalizing i path wqids with
  | nil => exact restores_pure _
  | cons name wnames ih =>
    unfold Unpfs.walkLoop
    apply restores_bind (restores_attempt (restores_getQid _))
    intro r
    cases r with
    | ok qid => exact ih _ _ _
    | error e =>
      dsimp only
      split_ifs
      · exact restores_throw e
      · exact restores_pure _

theorem restores_readdirStart (off : UInt64) : Restores Uses g (Unpfs.readdirStart off) := by
  have hdots : ∀ path offset, Restores Uses g (getDirentFrom path offset) := fun path offset =>
    restores_bind (restores_getQid path) fun _ => restores_pure _
  unfold Unpfs.readdirStart
  dsimp only
  split_ifs
  · apply restores_bind (hdots _ _)
    intro dirent
    exact restores_bind (hdots _ _) fun _ => restores_pure _
  · exact restores_pure _

theorem restores_readdirLoop (count : UInt32) (entries : List (Except IoError HostDirEntry)) (i : ℕ)
    (dirents : DirEntryData) : Restores Uses g (Unpfs.readdirLoop count entries i dirents) := by
  induction entries generalizing i dirents with
  | nil => exact restores_pure _
  | cons entry entries ih =>
    unfold Unpfs.readdirLoop
    apply restores_bind (restores_liftIo (p := pure entry) True.intro)
    intro entry
    have hdirent : Restores Uses g (getDirent entry (UInt64.ofNat (2 + i))) :=
      restores_bind (restores_liftIo (calls_host _)) fun _ => restores_pure _
    apply restores_bind hdirent
    intro dirent
    split_ifs
    · exact restores_pure _
    · exact ih _ _

theorem restores_setMode (path : PathBuf) (valid : SetattrMask) (stat : SetAttr) :
    Restores Uses g (Unpfs.setMode path valid stat) := by
  unfold Unpfs.setMode
  split_ifs
  · exact restores_liftIo (calls_host _)
  · exact restores_pure _

theorem restores_setOwner (path : PathBuf) (valid : SetattrMask) (stat : SetAttr) :
    Restores Uses g (Unpfs.setOwner path valid stat) := by
  unfold Unpfs.setOwner
  split
  · exact restores_liftNix (calls_host _)
  · exact restores_pure _

theorem restores_setSize (path : PathBuf) (valid : SetattrMask) (stat : SetAttr) :
    Restores Uses g (Unpfs.setSize path valid stat) := by
  unfold Unpfs.setSize
  split
  · exact restores_bind (restores_liftIo (calls_host _)) fun _ => restores_liftIo (calls_host _)
  · exact restores_pure _

theorem restores_setTimes (path : PathBuf) (valid : SetattrMask) (stat : SetAttr) :
    Restores Uses g (Unpfs.setTimes path valid stat) := by
  unfold Unpfs.setTimes
  split
  · apply restores_bind (restores_liftIo (calls_host _))
    intro attr r
    refine ⟨g, ?_, rfl⟩
    apply Guarded.host
  · exact restores_pure _

theorem restores_rsetattr {fid : Fid} (huses : Uses fid.aux) (valid : SetattrMask) (stat : SetAttr) :
    Restores Uses .free (Unpfs.rsetattr fid valid stat) := by
  apply restores_bind (restores_realpath huses)
  intro path
  apply restores_bind (restores_setMode path valid stat)
  intro _
  apply restores_bind (restores_setOwner path valid stat)
  intro _
  apply restores_bind (restores_setSize path valid stat)
  intro _
  exact restores_bind (restores_setTimes path valid stat) fun _ => restores_pure _

theorem restores_rlopen {fid : Fid} (huses : Uses fid.aux) (flags : UInt32) :
    Restores Uses .free (Unpfs.rlopen fid flags) := by
  apply restores_bind (restores_realpath huses)
  intro path
  apply restores_bind (restores_getQid path)
  intro qid
  dsimp only
  split_ifs
  · apply restores_bind (restores_liftNix (calls_host _))
    intro file
    exact restores_bind (restores_setFile huses file) fun _ => restores_pure _
  · exact restores_pure _

theorem restores_rlcreate {fid : Fid} (huses : Uses fid.aux) (name : String)
    (flags mode gid : UInt32) : Restores Uses .free (Unpfs.rlcreate fid name flags mode gid) := by
  apply restores_bind (restores_realpath huses)
  intro path
  apply restores_bind (restores_liftNix (calls_host _))
  intro file
  apply restores_bind (restores_getQid _)
  intro qid
  apply restores_bind (restores_setRealpath fid _)
  intro _
  exact restores_bind (restores_setFile huses file) fun _ => restores_pure _

theorem restores_rread {fid : Fid} (huses : Uses fid.aux) (offset : UInt64) (count : UInt32) :
    Restores Uses .free (Unpfs.rread fid offset count) := by
  refine restores_bind (restores_withFile huses fun file => ?_) fun buf => restores_pure _
  apply restores_bind (restores_liftIo (calls_host _))
  intro pos
  exact restores_bind (restores_liftIo (calls_host _)) fun bytes => restores_pure _

theorem restores_rwrite {fid : Fid} (huses : Uses fid.aux) (offset : UInt64) (data : Data) :
    Restores Uses .free (Unpfs.rwrite fid offset data) := by
  refine restores_bind (restores_withFile huses fun file => ?_) fun count => restores_pure _
  apply restores_bind (restores_liftIo (calls_host _))
  intro pos
  exact restores_bind (restores_liftIo (calls_host _)) fun n => restores_pure _

theorem restores_rrenameat {olddir newdir : Fid} (hold : Uses olddir.aux) (hnew : Uses newdir.aux)
    (oldname newname : String) :
    Restores Uses .free (Unpfs.rrenameat olddir oldname newdir newname) := by
  apply restores_bind (restores_realpath hold)
  intro oldpath
  apply restores_bind (restores_realpath hnew)
  intro newpath
  exact restores_bind (restores_liftIo (calls_host _)) fun _ => restores_pure _

theorem restores_runlinkat {dirfid : Fid} (huses : Uses dirfid.aux) (name : String)
    (flags : UInt32) : Restores Uses .free (Unpfs.runlinkat dirfid name flags) := by
  apply restores_bind (restores_realpath huses)
  intro path
  apply restores_bind (restores_liftIo (calls_host _))
  intro attr
  dsimp only
  split_ifs
  · exact restores_bind (restores_liftIo (calls_host _)) fun _ => restores_pure _
  · exact restores_bind (restores_liftIo (calls_host _)) fun _ => restores_pure _

/-- The handler of a routed request locks the objects of the table only, one at a time, and gives
them back. -/
theorem restores_of_route {realroot : PathBuf} {fids : FidTable} {aux : ObjId} {body : Fcall}
    {handler : UnpfsHandler Fcall} (huses : ∀ f b, fids.get f = some b → Uses b.aux)
    (hroute : route (Unpfs realroot) fids (newFid body aux) body = .ok handler) :
    Restores Uses .free handler := by
  cases routed_of_route hroute with
  | rstatfs hb =>
    apply restores_bind (restores_realpath (huses _ _ hb))
    intro path
    exact restores_bind (restores_liftNix (calls_host _)) fun fs => restores_pure _
  | rlopen flags hb => exact restores_rlopen (huses _ _ hb) flags
  | rlcreate name flags mode gid hb => exact restores_rlcreate (huses _ _ hb) name flags mode gid
  | rreadlink hb =>
    refine restores_bind (restores_withRealpath (huses _ _ hb) fun path => ?_) fun link => restores_pure _
    exact restores_liftIo (calls_host _)
  | rgetattr reqMask hb =>
    refine restores_bind (restores_withRealpath (huses _ _ hb) fun path => ?_) fun attr => restores_pure _
    exact restores_liftIo (calls_host _)
  | rsetattr valid stat hb => exact restores_rsetattr (huses _ _ hb) valid stat
  | rreaddir offset count hb =>
    apply restores_bind (restores_readdirStart offset)
    intro x
    refine restores_bind (restores_withRealpath (huses _ _ hb) fun path => ?_) fun entries => ?_
    · exact restores_liftIo (calls_host _)
    · exact restores_bind (restores_readdirLoop _ _ _ _) fun dirents => restores_pure _
  | rfsync hb =>
    refine restores_bind (restores_withFile (huses _ _ hb) fun file => ?_) fun _ => restores_pure _
    exact restores_liftIo (calls_host _)
  | rmkdir name mode gid hb =>
    apply restores_bind (restores_realpath (huses _ _ hb))
    intro path
    apply restores_bind (restores_liftIo (calls_host _))
    intro _
    exact restores_bind (restores_getQid _) fun qid => restores_pure _
  | rrenameat oldname newname hb hc =>
    exact restores_rrenameat (huses _ _ hb) (huses _ _ hc) oldname newname
  | runlinkat name flags hb => exact restores_runlinkat (huses _ _ hb) name flags
  | rattach fid afid uname aname nUname =>
    apply restores_bind (restores_setRealpath _ _)
    intro _
    exact restores_bind (restores_getQid _) fun qid => restores_pure _
  | rwalk newfid wnames hb =>
    apply restores_bind (restores_realpath (huses _ _ hb))
    intro path
    apply restores_bind (restores_walkLoop wnames 0 path [])
    intro x
    exact restores_bind (restores_setRealpath _ _) fun _ => restores_pure _
  | rread offset count hb => exact restores_rread (huses _ _ hb) offset count
  | rwrite offset data hb => exact restores_rwrite (huses _ _ hb) offset data
  | rclunk hb => exact restores_pure _
  | rversion msize version => exact restores_pure _
  | unsupported => exact restores_throw _

end

theorem guards_governs (realroot : PathBuf) : guards.Governs (Unpfs realroot) where
  routed huses hroute := restores_iff.mp (restores_of_route huses hroute)
  refused _ _ := rfl

/-! How many tasks are somewhere. -/

section
variable {α : Type*} {g : ℕ → α} {i : ℕ} {q v : α}

theorem ncard_update_of_ne (hq : q ≠ v) (hi : g i ≠ v) :
    {k | Function.update g i q k = v}.ncard = {k | g k = v}.ncard := by
  congr 1
  ext k
  by_cases hk : k = i
  · simp [hk, hq, hi]
  · simp [hk]

theorem ncard_update_enter (hfin : {k | g k = v}.Finite) (hi : g i ≠ v) :
    {k | Function.update g i v k = v}.ncard = {k | g k = v}.ncard + 1 := by
  have hset : {k | Function.update g i v k = v} = insert i {k | g k = v} := by
    ext k
    by_cases hk : k = i
    · simp [hk]
    · simp [hk]
  rw [hset, Set.ncard_insert_of_notMem (by simpa using hi) hfin]

theorem ncard_update_leave (hq : q ≠ v) (hi : g i = v) :
    {k | Function.update g i q k = v}.ncard = {k | g k = v}.ncard - 1 := by
  have hset : {k | Function.update g i q k = v} = {k | g k = v} \ {i} := by
    ext k
    by_cases hk : k = i
    · simp [hk, hq]
    · simp [hk]
  rw [hset, Set.ncard_sdiff_singleton_of_mem (by simpa using hi)]

end

/-! The locks of the objects and the guards of the tasks. -/

/-- Every lock is held by the tasks that have its guard, and by no one else. -/
structure Balance {σ : Type} (g : ℕ → Guard) (w : LockedObjs σ) : Prop where
  finite : {k | g k ≠ .free}.Finite
  readers : ∀ a, (w.objs a).readers = {k | g k = .realpath a}.ncard
  locked : ∀ a, (w.objs a).locked = true ↔ ∃ k, g k = .file a
  exclusive : ∀ i k a, g i = .file a → g k = .file a → i = k

section
variable {σ : Type} {g : ℕ → Guard} {w : LockedObjs σ} {i : ℕ} {q : Guard} {a : ObjId}

theorem balance_start (host : σ) :
    Balance (fun _ => .free) (⟨fun _ => LockedFid.default, host⟩ : LockedObjs σ) where
  finite := by simp
  readers a := by simp [LockedFid.default]
  locked a := by simp [LockedFid.default]
  exclusive _ _ _ hi := nomatch hi

theorem Balance.finite_reading (hw : Balance g w) (a : ObjId) :
    {k | g k = .realpath a}.Finite := by
  apply hw.finite.subset
  intro k hk hfree
  have hreading : g k = .realpath a := hk
  rw [hreading] at hfree
  cases hfree

/-- One object and one task change, and the task has no guard of another object. -/
theorem Balance.set (hw : Balance g w) {fid : LockedFid}
    (hi : ∀ b, (g i).obj = some b → b = a) (hq : ∀ b, q.obj = some b → b = a)
    (hreaders : fid.readers = {k | Function.update g i q k = .realpath a}.ncard)
    (hlocked : fid.locked = true ↔ ∃ k, Function.update g i q k = .file a)
    (hexclusive : ∀ k l, Function.update g i q k = .file a → Function.update g i q l = .file a →
      k = l) : Balance (Function.update g i q) (w.set a fid) := by
  have hother : ∀ b, b ≠ a → ∀ k, Function.update g i q k = .file b ↔ g k = .file b := by
    intro b hb k
    by_cases hk : k = i
    · subst hk
      rw [Function.update_self]
      constructor
      · intro hqb
        exact absurd (hq b (by rw [hqb]; rfl)) hb
      · intro hib
        exact absurd (hi b (by rw [hib]; rfl)) hb
    · rw [Function.update_of_ne hk]
  constructor
  case finite =>
    apply (hw.finite.insert i).subset
    intro k hk
    by_cases hki : k = i
    · exact .inl hki
    · have hk' : Function.update g i q k ≠ .free := hk
      rw [Function.update_of_ne hki] at hk'
      exact .inr hk'
  case readers =>
    intro b
    by_cases hb : b = a
    · subst hb
      simpa [LockedObjs.set] using hreaders
    · have hqb : q ≠ .realpath b := fun hqb => hb (hq b (by rw [hqb]; rfl))
      have hib : g i ≠ .realpath b := fun hib => hb (hi b (by rw [hib]; rfl))
      rw [ncard_update_of_ne hqb hib]
      simpa [LockedObjs.set, hb] using hw.readers b
  case locked =>
    intro b
    by_cases hb : b = a
    · subst hb
      simpa [LockedObjs.set] using hlocked
    · simp only [hother b hb]
      simpa [LockedObjs.set, hb] using hw.locked b
  case exclusive =>
    intro k l b hk hl
    by_cases hb : b = a
    · subst hb
      exact hexclusive k l hk hl
    · exact hw.exclusive k l b ((hother b hb k).mp hk) ((hother b hb l).mp hl)

/-- The object of a new fid is not locked. -/
theorem Balance.create (hw : Balance g w) (hi : g i = .free) (ha : ∀ k, (g k).obj ≠ some a) :
    Balance g (w.set a LockedFid.default) := by
  have hsame : Function.update g i .free = g := by
    rw [← hi, Function.update_eq_self]
  have hreading : {k | g k = .realpath a} = ∅ := by
    ext k
    constructor
    · intro hk
      have hk' : g k = .realpath a := hk
      exact absurd (by rw [hk']; rfl) (ha k)
    · intro hk
      cases hk
  have hfiling : ∀ k, g k ≠ .file a := fun k hk => ha k (by rw [hk]; rfl)
  have hset : Balance (Function.update g i .free) (w.set a LockedFid.default) := by
    apply hw.set
    · intro b hb
      rw [hi] at hb
      cases hb
    · intro b hb
      cases hb
    · rw [hsame, hreading]
      simp [LockedFid.default]
    · rw [hsame]
      simp [LockedFid.default, hfiling]
    · rw [hsame]
      intro k l hk
      exact absurd hk (hfiling k)
  rwa [hsame] at hset

variable {h : SharedHost} {w w' : LockedObjs h.State}

/-- An operation that the locks let through keeps the balance. -/
theorem balance_of_guarded {Uses : ObjId → Prop} {o : UnpfsOp} {r : UnpfsRes o}
    (hw : Balance g w) (hnext : Guarded Uses (g i) o r q)
    (hexec : h.lockedExec o w = some (r, w')) : Balance (Function.update g i q) w' := by
  generalize hgi : g i = gi at hnext
  cases hnext with
  | host g' o r =>
    obtain ⟨x, -, hx⟩ := Option.map_eq_some_iff.mp hexec
    cases hx
    rw [← hgi, Function.update_eq_self]
    exact ⟨hw.finite, hw.readers, hw.locked, hw.exclusive⟩
  | reads a path ha =>
    cases hexec
    have hnot : g i ≠ .realpath a := by rw [hgi]; simp
    have hfile : ∀ k, Function.update g i (.realpath a) k = .file a ↔ g k = .file a := by
      intro k
      by_cases hk : k = i
      · subst hk
        simp [hgi]
      · simp [hk]
    apply hw.set
    · simp [hgi, Guard.obj]
    · simp [Guard.obj, eq_comm]
    · rw [ncard_update_enter (hw.finite_reading a) hnot, ← hw.readers a]
    · simp only [hfile]
      exact hw.locked a
    · intro k l hk hl
      exact hw.exclusive k l a ((hfile k).mp hk) ((hfile l).mp hl)
  | unreads a =>
    cases hexec
    have hfile : ∀ k, Function.update g i .free k = .file a ↔ g k = .file a := by
      intro k
      by_cases hk : k = i
      · subst hk
        simp [hgi]
      · simp [hk]
    apply hw.set
    · simp [hgi, Guard.obj, eq_comm]
    · simp [Guard.obj]
    · rw [ncard_update_leave (by simp) hgi, ← hw.readers a]
    · simp only [hfile]
      exact hw.locked a
    · intro k l hk hl
      exact hw.exclusive k l a ((hfile k).mp hk) ((hfile l).mp hl)
  | writes a path =>
    simp only [SharedHost.lockedExec] at hexec
    split_ifs at hexec
    cases hexec
    have hsame : Function.update g i .free = g := by rw [← hgi, Function.update_eq_self]
    apply hw.set
    · simp [hgi, Guard.obj]
    · simp [Guard.obj]
    · rw [hsame]
      exact hw.readers a
    · rw [hsame]
      exact hw.locked a
    · rw [hsame]
      exact fun k l => hw.exclusive k l a
  | locks a file ha =>
    simp only [SharedHost.lockedExec] at hexec
    split_ifs at hexec with hlocked
    cases hexec
    have hnone : ∀ k, g k ≠ .file a := by
      intro k hk
      exact hlocked ((hw.locked a).mpr ⟨k, hk⟩)
    have honly : ∀ k, Function.update g i (.file a) k = .file a → k = i := by
      intro k hk
      by_contra hki
      rw [Function.update_of_ne hki] at hk
      exact hnone k hk
    apply hw.set
    · simp [hgi, Guard.obj]
    · simp [Guard.obj, eq_comm]
    · rw [ncard_update_of_ne (by simp) (by simp [hgi])]
      exact hw.readers a
    · constructor
      · intro _
        exact ⟨i, Function.update_self ..⟩
      · intro _
        rfl
    · intro k l hk hl
      rw [honly k hk, honly l hl]
  | stores a file =>
    cases hexec
    have hsame : Function.update g i (.file a) = g := by rw [← hgi, Function.update_eq_self]
    apply hw.set
    · simp [hgi, Guard.obj, eq_comm]
    · simp [Guard.obj, eq_comm]
    · rw [hsame]
      exact hw.readers a
    · rw [hsame]
      exact hw.locked a
    · rw [hsame]
      exact fun k l => hw.exclusive k l a
  | unlocks a =>
    cases hexec
    have hnone : ∀ k, Function.update g i .free k ≠ .file a := by
      intro k hk
      by_cases hki : k = i
      · subst hki
        simp at hk
      · rw [Function.update_of_ne hki] at hk
        exact hki (hw.exclusive k i a hk hgi)
    apply hw.set
    · simp [hgi, Guard.obj, eq_comm]
    · simp [Guard.obj]
    · rw [ncard_update_of_ne (by simp) (by simp [hgi])]
      exact hw.readers a
    · simp [hnone]
    · intro k l hk
      exact absurd hk (hnone k)

end

/-! The tasks of a connection. -/

section
variable {h : SharedHost} {realroot : PathBuf} {s t : Conn h.world} {l : Label h.world}
  {g : ℕ → Guard}

/-- The locks of a connection are balanced, and only running handlers have guards. -/
structure Conn.Balanced (g : ℕ → Guard) (s : Conn h.world) : Prop where
  governed : s.Governed guards g
  ended : ∀ (i : ℕ) (msg : Msg) (aux : ObjId) (p : Phase UnpfsOp UnpfsRes),
    s.tasks[i]? = some ⟨msg, aux, p⟩ → p.ended = true → g i = .free
  made : ∀ i a, (g i).obj = some a → Made s a
  balance : Balance g s.world

/-- A task that has ended had ended before, or has just sent its reply. -/
theorem ended_of_step {Op : Type} {Res : Op → Type} {W : World Op Res} {s t : Conn W}
    {l : Label W} {fs : Filesystem Op Res} {k : ℕ} {m : Msg} {a : ObjId} {p : Phase Op Res}
    (hstep : step fs s l = some t) (hk : t.tasks[k]? = some ⟨m, a, p⟩) (hp : p.ended = true) :
    s.tasks[k]? = some ⟨m, a, p⟩ ∨
      l = .send k ∧ ∃ response, s.tasks[k]? = some ⟨m, a, .replying response⟩ := by
  cases connStep_of_step hstep with
  | spawned frame msg rest hr hm =>
    rcases Conn.spawn_task hk with hold | ⟨-, -, -, rfl⟩
    · exact .inl hold
    · cases hp
  | undecodable | hungUp | ticked => exact .inl hk
  | task i msg aux p' q l u ht htask =>
    have htasks := (nextAux_of_taskStep htask).1
    rcases Conn.task_setPhase htasks ht hk with ⟨rfl, rfl, rfl, rfl⟩ | ⟨-, hold⟩
    · cases htask with
      | skipped response | sent response | tooLong response => exact .inr ⟨rfl, response, ht⟩
      | handled newfid response =>
        unfold afterHandler at hp
        split at hp
        · cases hp
        · cases newfid <;> cases hp
      | clunked fid newfid response hu => cases newfid <;> cases hp
      | _ => cases hp
    · exact .inl hold

theorem balanced_step (hs : s.Balanced g) (hstep : step (Unpfs realroot) s l = some t) :
    ∃ g', t.Balanced g' := by
  obtain ⟨g', hworld, hgoverned⟩ := governed_step (guards_governs realroot) hs.governed hstep
  have hmade : ∀ a, Made s a → Made t a := fun a => made_of_step hstep
  generalize hw : t.world = w at hworld
  refine ⟨g', hgoverned, fun k m a p hk hp => ?_, ?_, ?_⟩
  · rcases ended_of_step hstep hk hp with hold | ⟨rfl, response, hold⟩
    · have hfree : g k = .free := hs.ended k m a p hold hp
      cases hworld with
      | ran i msg aux newfid o f r q world ht hexec hnext =>
        have hki : k ≠ i := by
          rintro rfl
          rw [ht] at hold
          cases hold
          cases hp
        rw [Function.update_of_ne hki]
        exact hfree
      | _ => exact hfree
    · have hfree : g k = .free := hs.governed.phase k m a _ hold
      cases hworld with
      | still => exact hfree
  · intro k a hk
    cases hworld with
    | ran i msg aux newfid o f r q world ht hexec hnext =>
      by_cases hki : k = i
      · subst hki
        rw [Function.update_self] at hk
        apply hmade
        generalize hgi : g k = gi at hnext
        have hold : ∀ b, gi.obj = some b → Made s b := fun b hb => hs.made k b (hgi ▸ hb)
        cases hnext with
        | host g' o r => exact hold a hk
        | reads b path hb | locks b file hb =>
          cases hk
          exact hb
        | stores b file => exact hold a hk
        | unreads | writes | unlocks => cases hk
      · rw [Function.update_of_ne hki] at hk
        exact hmade a (hs.made k a hk)
    | _ => exact hmade a (hs.made k a hk)
  · rw [hw]
    cases hworld with
    | still => exact hs.balance
    | created i msg aux ht =>
      have hfree : g i = .free := hs.governed.phase i msg aux _ ht
      apply hs.balance.create hfree
      intro k hk
      exact (hs.made k aux hk).made i msg ht
    | ran i msg aux newfid o f r q world ht hexec hnext =>
      exact balance_of_guarded hs.balance hnext hexec
    | ticked e world hw =>
      obtain ⟨host, -, rfl⟩ := Option.map_eq_some_iff.mp hw
      exact ⟨hs.balance.finite, hs.balance.readers, hs.balance.locked, hs.balance.exclusive⟩

/-- A connection to a server of the host, on which nothing was received yet. -/
abbrev SharedHost.conn (h : SharedHost) (nextAux : ObjId) (host : h.State) : Conn h.world :=
  .start .new nextAux (⟨fun _ => LockedFid.default, host⟩ : LockedObjs h.State)

theorem balanced_start (nextAux : ObjId) (host : h.State) :
    (h.conn nextAux host).Balanced (fun _ => .free) where
  governed := governed_start nextAux _
  ended _ _ _ _ ht := nomatch ht
  made _ _ hk := nomatch hk
  balance := balance_start host

theorem balanced_run {nextAux : ObjId} {host : h.State} {ls : List (Label h.world)}
    (hr : runs (step (Unpfs realroot)) (h.conn nextAux host) ls = some s) :
    ∃ g, s.Balanced g := by
  refine runs_invariant (I := fun s => ∃ g, Conn.Balanced g s) ?_ hr
    ⟨_, balanced_start nextAux host⟩
  rintro s l t ⟨g, hs⟩ hstep
  exact balanced_step hs hstep

/-- A task with a guard runs its handler. -/
theorem handling_of_guard (hs : s.Balanced g) {i : ℕ} (hi : g i ≠ .free) :
    ∃ msg aux newfid p, s.tasks[i]? = some ⟨msg, aux, .handling newfid p⟩ := by
  cases ht : s.tasks[i]? with
  | none => exact absurd (hs.governed.idle i (List.getElem?_eq_none_iff.mp ht)) hi
  | some task =>
    obtain ⟨msg, aux, p⟩ := task
    have hphase := hs.governed.phase i msg aux p ht
    cases p with
    | handling newfid p => exact ⟨msg, aux, newfid, p, rfl⟩
    | done | panicked => exact absurd (hs.ended i msg aux _ ht rfl) hi
    | _ => exact absurd hphase hi

/-- While no task runs its handler, no lock is taken. -/
theorem released_of_balanced (hs : s.Balanced g) (hidle : s.unlocked = true) (a : ObjId) :
    (s.world.objs a).readers = 0 ∧ (s.world.objs a).locked = false := by
  have hfree : ∀ i, g i = .free := by
    intro i
    by_contra hi
    obtain ⟨msg, aux, newfid, p, ht⟩ := handling_of_guard hs hi
    have hall := List.all_eq_true.mp hidle _ (List.mem_of_getElem? ht)
    simp [Phase.isHandling] at hall
  constructor
  · rw [hs.balance.readers a]
    simp [hfree]
  · rw [Bool.eq_false_iff]
    intro hlocked
    obtain ⟨k, hk⟩ := (hs.balance.locked a).mp hlocked
    rw [hfree k] at hk
    cases hk

/-- No handler leaves a lock behind, however it ends and whatever runs beside it: while no task
runs its handler, all locks of all objects can be had. -/
theorem locks_released {nextAux : ObjId} {host : h.State} {ls : List (Label h.world)}
    (hr : runs (step (Unpfs realroot)) (h.conn nextAux host) ls = some s)
    (hidle : s.unlocked = true) (a : ObjId) :
    (s.world.objs a).readers = 0 ∧ (s.world.objs a).locked = false := by
  obtain ⟨g, hs⟩ := balanced_run hr
  exact released_of_balanced hs hidle a

end

/-- `Tattach` of fid 1, and a `Tread` of it up to the error that its file is not open. -/
def readUnopened : List (Label (sharedDirs [srv]).world) :=
  attachSrv ++ [.recv [116, 1, 0, 1, 0, 0, 0, 0, 0, 0, 0, 0, 0, 0, 0, 4, 0, 0, 0], .lookup 1, .run 1,
    .run 1, .finish 1]

theorem locks_released_readUnopened : ∃ s : Conn (sharedDirs [srv]).world,
    runs (step (Unpfs srv)) srvStart readUnopened = some s ∧
      (s.tasks[1]?.map Task.msg) = some ⟨1, .tread 1 0 4⟩ ∧ s.unlocked = true ∧
      (s.world.objs 0).readers = 0 ∧ (s.world.objs 0).locked = false := by
  have hrun : (runs (step (Unpfs srv)) srvStart readUnopened).isSome = true := rfl
  have hget := (Option.some_get hrun).symm
  exact ⟨_, hget, rfl, rfl, locks_released hget rfl 0⟩

end P9cpu.Ninep
