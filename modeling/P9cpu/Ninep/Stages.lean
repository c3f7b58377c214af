import P9cpu.Ninep.Footprint

/-! In which order the handlers of the host filesystem lock, seek, read and write open files. -/
namespace P9cpu.Ninep
open Core Prog

/-- What a handler has read or written. -/
inductive Transfer
  | read (file : FileId) (offset : UInt64) (count : ℕ) (bytes : List UInt8)
  | write (file : FileId) (offset : UInt64) (data : List UInt8) (n : ℕ)

/-- Where a handler is with the open file of its fid. -/
inductive Stage
  | free (moved : Option Transfer)
  /-- has a file that no fid has -/
  | opened (file : FileId)
  | locked (a : ObjId) (file : Option FileId) (moved : Option Transfer)
  /-- has the lock to store a new file -/
  | storing (a : ObjId) (file : FileId)
  | sought (a : ObjId) (file : FileId) (offset : UInt64)

/-- The object whose file a handler has locked. -/
def Stage.holds : Stage → Option ObjId
  | .locked a .. | .storing a _ | .sought a .. => some a
  | _ => none

/-- The handler may end here. -/
def Stage.released (q : Stage) : Prop := q.holds = none

/-- Operations that have nothing to do with open files. -/
def UnpfsOp.Plain : UnpfsOp → Prop
  | .realpathRead _ | .realpathUnread _ | .realpathWrite .. => True
  | .fileLock _ | .fileSet .. | .fileUnlock _ => False
  | .host o =>
    match o with
    | .open .. | .openWrite _ | .setLen .. | .seek .. | .read .. | .write .. | .syncAll _ => False
    | _ => True

/-- The protocol of open files: the lock of an object in `Uses` comes before everything that is
done to its file. -/
inductive Next (Uses : ObjId → Prop) : Stage → (o : UnpfsOp) → UnpfsRes o → Stage → Prop
  | plain (q : Stage) (o : UnpfsOp) (r : UnpfsRes o) (h : o.Plain) : Next Uses q o r q
  | opens (path : PathBuf) (oflags omode : UInt32) (file : FileId) :
      Next Uses (.free none) (.host (.open path oflags omode)) (.ok file) (.opened file)
  | notOpens (path : PathBuf) (oflags omode : UInt32) (e : Errno) :
      Next Uses (.free none) (.host (.open path oflags omode)) (.error e) (.free none)
  | opensWrite (path : PathBuf) (file : FileId) :
      Next Uses (.free none) (.host (.openWrite path)) (.ok file) (.opened file)
  | notOpensWrite (path : PathBuf) (e : IoError) :
      Next Uses (.free none) (.host (.openWrite path)) (.error e) (.free none)
  | resizes (file : FileId) (size : UInt64) (r : Except IoError Unit) :
      Next Uses (.opened file) (.host (.setLen file size)) r (.opened file)
  | locks (a : ObjId) (file : Option FileId) (h : Uses a) :
      Next Uses (.free none) (.fileLock a) file (.locked a file none)
  | locksToStore (a : ObjId) (file : FileId) (old : Option FileId) (h : Uses a) :
      Next Uses (.opened file) (.fileLock a) old (.storing a file)
  | stores (a : ObjId) (file : FileId) :
      Next Uses (.storing a file) (.fileSet a file) () (.locked a (some file) none)
  | unlocks (a : ObjId) (file : Option FileId) (moved : Option Transfer) :
      Next Uses (.locked a file moved) (.fileUnlock a) () (.free moved)
  | seeks (a : ObjId) (file : FileId) (offset pos : UInt64) :
      Next Uses (.locked a (some file) none) (.host (.seek file offset)) (.ok pos)
        (.sought a file offset)
  | notSeeks (a : ObjId) (file : FileId) (offset : UInt64) (e : IoError) :
      Next Uses (.locked a (some file) none) (.host (.seek file offset)) (.error e)
        (.locked a (some file) none)
  | reads (a : ObjId) (file : FileId) (offset : UInt64) (count : ℕ)
      (bytes : { bytes : List UInt8 // bytes.length ≤ count }) :
      Next Uses (.sought a file offset) (.host (.read file count)) (.ok bytes)
        (.locked a (some file) (some (.read file offset count bytes.val)))
  | notReads (a : ObjId) (file : FileId) (offset : UInt64) (count : ℕ) (e : IoError) :
      Next Uses (.sought a file offset) (.host (.read file count)) (.error e)
        (.locked a (some file) none)
  | writes (a : ObjId) (file : FileId) (offset : UInt64) (data : List UInt8)
      (n : { n : ℕ // n ≤ data.length }) :
      Next Uses (.sought a file offset) (.host (.write file data)) (.ok n)
        (.locked a (some file) (some (.write file offset data n.val)))
  | notWrites (a : ObjId) (file : FileId) (offset : UInt64) (data : List UInt8) (e : IoError) :
      Next Uses (.sought a file offset) (.host (.write file data)) (.error e)
        (.locked a (some file) none)
  | syncs (a : ObjId) (file : FileId) (r : Except IoError Unit) :
      Next Uses (.locked a (some file) none) (.host (.syncAll file)) r (.locked a (some file) none)

/-- `Rread` and `Rwrite` say what was transferred. -/
def Stage.Answers (body : Fcall) (q : Stage) : Fcall → Prop
  | .rread data => ∃ fid offset count file, body = .tread fid offset count ∧
      q = .free (some (.read file offset count.toNat data.bytes))
  | .rwrite count => ∃ fid offset data file n, body = .twrite fid offset data ∧
      q = .free (some (.write file offset data.bytes n)) ∧ count = UInt32.ofNat n
  | _ => q.released

theorem released_of_answers {q : Stage} {body response : Fcall} (h : q.Answers body response) :
    q.released := by
  cases response with
  | rread data =>
    obtain ⟨fid, offset, count, file, -, rfl⟩ := h
    rfl
  | rwrite count =>
    obtain ⟨fid, offset, data, file, n, -, rfl, -⟩ := h
    rfl
  | _ => exact h

theorem Next.imp {Uses Uses' : ObjId → Prop} (h : ∀ a, Uses a → Uses' a) (q : Stage) (o : UnpfsOp)
    (r : UnpfsRes o) (q' : Stage) (hq : Next Uses q o r q') : Next Uses' q o r q' := by
  cases hq with
  | plain _ _ _ ho => exact .plain q o r ho
  | opens path oflags omode file => exact .opens path oflags omode file
  | notOpens path oflags omode e => exact .notOpens path oflags omode e
  | opensWrite path file => exact .opensWrite path file
  | notOpensWrite path e => exact .notOpensWrite path e
  | resizes file size r => exact .resizes file size r
  | locks a file ha => exact .locks a file (h a ha)
  | locksToStore a file old ha => exact .locksToStore a file old (h a ha)
  | stores a file => exact .stores a file
  | unlocks a file moved => exact .unlocks a file moved
  | seeks a file offset pos => exact .seeks a file offset pos
  | notSeeks a file offset e => exact .notSeeks a file offset e
  | reads a file offset count bytes => exact .reads a file offset count bytes
  | notReads a file offset count e => exact .notReads a file offset count e
  | writes a file offset data n => exact .writes a file offset data n
  | notWrites a file offset data e => exact .notWrites a file offset data e
  | syncs a file r => exact .syncs a file r

theorem holds_of_next {Uses : ObjId → Prop} {q q' : Stage} {o : UnpfsOp} {r : UnpfsRes o}
    {a : ObjId} (h : Next Uses q o r q') (ha : q'.holds = some a) :
    q.holds = some a ∨ Uses a := by
  cases h with
  | locks b file hb | locksToStore b file old hb =>
    cases ha
    exact .inr hb
  | plain | notOpens | notOpensWrite | resizes | notSeeks | syncs => exact .inl ha
  | stores | seeks | reads | notReads | writes | notWrites => exact .inl ha
  | opens | opensWrite | unlocks => cases ha

section
variable {Uses : ObjId → Prop} {α : Type} {q : Stage} {Q : Stage → α → Prop}

/-! Handlers that never touch an open file. -/

abbrev UsesPlain (h : UnpfsHandler α) : Prop :=
  Prog.Uses UnpfsOp.Plain (fun _ _ => True) (fun _ => True) h

theorem plain_pure (a : α) : UsesPlain (pure a : UnpfsHandler α) := (uses_pure a).mpr True.intro

theorem plain_bind {β : Type} {h : UnpfsHandler α} {f : α → UnpfsHandler β} (hh : UsesPlain h)
    (hf : ∀ a, UsesPlain (f a)) : UsesPlain (h >>= f) :=
  uses_bind hh fun a _ => hf a

theorem plain_liftIo {p : UnpfsProg (Except IoError α)}
    (h : p.Performs UnpfsOp.Plain (fun _ _ => True) (fun _ => True)) : UsesPlain (liftIo p) :=
  uses_liftIo (h.mono fun _ _ _ _ => True.intro)

theorem plain_liftNix {p : UnpfsProg (Except Errno α)}
    (h : p.Performs UnpfsOp.Plain (fun _ _ => True) (fun _ => True)) : UsesPlain (liftNix p) :=
  uses_liftNix (h.mono fun _ _ _ _ => True.intro)

theorem plain_realpath (fid : Fid) : UsesPlain (realpath fid) :=
  ⟨True.intro, fun _ _ => ⟨True.intro, fun _ _ _ _ => True.intro⟩⟩

theorem plain_withRealpath (fid : Fid) {body : PathBuf → UnpfsHandler α}
    (h : ∀ path, UsesPlain (body path)) : UsesPlain (withRealpath fid body) := by
  unfold UsesPlain Uses withRealpath
  simp only [ExceptT.run_mk, performs_bind]
  refine ⟨True.intro, fun path _ => ?_⟩
  rw [performs_ret]
  refine Performs.mono (h path) fun r _ => ?_
  exact ⟨True.intro, fun _ _ _ _ => True.intro⟩

theorem plain_setRealpath (fid : Fid) (path : PathBuf) : UsesPlain (setRealpath fid path) :=
  uses_setRealpath True.intro

theorem plain_getQid (path : PathBuf) : UsesPlain (getQid path) :=
  plain_bind (plain_liftIo ⟨True.intro, fun _ _ => True.intro⟩) fun _ => plain_pure _

theorem plain_walkLoop (wnames : List String) (i : ℕ) (path : PathBuf) (wqids : List Qid) :
    UsesPlain (Unpfs.walkLoop wnames i path wqids) := by
  induction wnames generalizing i path wqids with
  | nil => exact plain_pure _
  | cons name wnames ih =>
    unfold Unpfs.walkLoop
    refine plain_bind (uses_attempt (plain_getQid _)) fun r => ?_
    cases r with
    | ok qid => exact ih _ _ _
    | error e =>
      dsimp only
      split_ifs
      · exact uses_throw e
      · exact plain_pure _

theorem plain_getDirentFrom (path : PathBuf) (offset : UInt64) :
    UsesPlain (getDirentFrom path offset) :=
  plain_bind (plain_getQid path) fun _ => plain_pure _

theorem plain_readdirStart (off : UInt64) : UsesPlain (Unpfs.readdirStart off) := by
  unfold Unpfs.readdirStart
  dsimp only
  split_ifs
  · refine plain_bind (plain_getDirentFrom _ _) fun _ => ?_
    exact plain_bind (plain_getDirentFrom _ _) fun _ => plain_pure _
  · exact plain_pure _

theorem plain_readdirLoop (count : UInt32) (entries : List (Except IoError HostDirEntry)) (i : ℕ)
    (dirents : DirEntryData) : UsesPlain (Unpfs.readdirLoop count entries i dirents) := by
  induction entries generalizing i dirents with
  | nil => exact plain_pure _
  | cons entry entries ih =>
    unfold Unpfs.readdirLoop
    refine plain_bind (plain_liftIo True.intro) fun entry => ?_
    refine plain_bind ?_ fun dirent => ?_
    · exact plain_bind (plain_liftIo ⟨True.intro, fun _ _ => True.intro⟩) fun _ => plain_pure _
    · split_ifs
      · exact plain_pure _
      · exact ih _ _

theorem plain_setMode (path : PathBuf) (valid : SetattrMask) (stat : SetAttr) :
    UsesPlain (Unpfs.setMode path valid stat) := by
  unfold Unpfs.setMode
  split_ifs
  · exact plain_liftIo ⟨True.intro, fun _ _ => True.intro⟩
  · exact plain_pure _

theorem plain_setOwner (path : PathBuf) (valid : SetattrMask) (stat : SetAttr) :
    UsesPlain (Unpfs.setOwner path valid stat) := by
  unfold Unpfs.setOwner
  split
  · exact plain_liftNix ⟨True.intro, fun _ _ => True.intro⟩
  · exact plain_pure _

theorem plain_setTimes (path : PathBuf) (valid : SetattrMask) (stat : SetAttr) :
    UsesPlain (Unpfs.setTimes path valid stat) := by
  unfold Unpfs.setTimes
  split
  · refine plain_bind (plain_liftIo ⟨True.intro, fun _ _ => True.intro⟩) fun attr => ?_
    exact ⟨True.intro, fun _ _ _ _ => True.intro⟩
  · exact plain_pure _

/-! Handlers. -/

theorem obeys_of_plain {h : UnpfsHandler α} (hh : UsesPlain h) (hq : q.released) :
    Obeys (Next Uses) Stage.released (fun q' _ => q' = q) q h := by
  have hobeys : Obeys (Next Uses) Stage.released (fun q' _ => q' = q ∧ True) q h :=
    hh.obeys (fun o ho r => .plain q o r ho) hq
  refine hobeys.mono fun q' r hr => ?_
  cases r with
  | ok a => exact hr.1
  | error e => exact hr

/-- A handler that starts with something plain. -/
theorem obeys_plain_bind {β : Type} {R : Stage → β → Prop} {h : UnpfsHandler α}
    {f : α → UnpfsHandler β} (hh : UsesPlain h) (hq : q.released)
    (hf : ∀ a, Obeys (Next Uses) Stage.released R q (f a)) :
    Obeys (Next Uses) Stage.released R q (h >>= f) := by
  refine obeys_bind (obeys_of_plain hh hq) fun q' a hq' => ?_
  rw [hq']
  exact hf a

/-- The block with the lock of the file of a fid. -/
theorem obeys_withFile {fid : Fid} {body : FileId → UnpfsHandler α} {P : Option Transfer → α → Prop}
    (huses : Uses fid.aux)
    (hbody : ∀ file, Obeys (Next Uses) (fun q => ∃ moved, q = .locked fid.aux (some file) moved)
      (fun q a => ∃ moved, q = .locked fid.aux (some file) moved ∧ P moved a)
      (.locked fid.aux (some file) none) (body file)) :
    Obeys (Next Uses) Stage.released (fun q a => ∃ moved, q = .free moved ∧ P moved a) (.free none)
      (withFile fid body) := by
  unfold Obeys withFile
  simp only [ExceptT.run_mk, op, call_bind]
  intro file
  refine ⟨_, .locks fid.aux file huses, ?_⟩
  refine follows_bind (Q := fun q r => ∃ moved, q = .locked fid.aux file moved ∧
    ∀ a, r = .ok a → P moved a) ?_ fun q r hq => ?_
  · cases file with
    | none => exact ⟨none, rfl, fun a ha => by cases ha⟩
    | some file =>
      refine (hbody file).mono fun q r hr => ?_
      cases r with
      | ok a =>
        obtain ⟨moved, hq, hP⟩ := hr
        refine ⟨moved, hq, fun b hb => ?_⟩
        cases hb
        exact hP
      | error e =>
        obtain ⟨moved, hq⟩ := hr
        exact ⟨moved, hq, fun b hb => by cases hb⟩
  · obtain ⟨moved, rfl, hP⟩ := hq
    intro u
    refine ⟨_, .unlocks fid.aux file moved, ?_⟩
    cases r with
    | ok a => exact ⟨moved, rfl, hP a rfl⟩
    | error e => exact rfl

theorem obeys_setFile {fid : Fid} (huses : Uses fid.aux) (file : FileId) :
    Obeys (Next Uses) Stage.released (fun q _ => q = .free none) (.opened file)
      (setFile fid file) := by
  intro old
  refine ⟨_, .locksToStore fid.aux file old huses, fun _ => ?_⟩
  refine ⟨_, .stores fid.aux file, fun _ => ?_⟩
  exact ⟨_, .unlocks fid.aux (some file) none, rfl⟩

/-- A call to the host that gives a new file. -/
theorem obeys_openWrite (path : PathBuf) :
    Obeys (Next Uses) Stage.released (fun q file => q = .opened file) (.free none)
      (liftIo (op (.host (.openWrite path)))) := by
  intro r
  cases r with
  | ok file => exact ⟨_, .opensWrite path file, rfl⟩
  | error e => exact ⟨_, .notOpensWrite path e, rfl⟩

theorem obeys_open (path : PathBuf) (oflags omode : UInt32) :
    Obeys (Next Uses) Stage.released (fun q file => q = .opened file) (.free none)
      (liftNix (op (.host (.open path oflags omode)))) := by
  intro r
  cases r with
  | ok file => exact ⟨_, .opens path oflags omode file, rfl⟩
  | error e => exact ⟨_, .notOpens path oflags omode e, rfl⟩

theorem obeys_setSize (path : PathBuf) (valid : SetattrMask) (stat : SetAttr) :
    Obeys (Next Uses) Stage.released (fun q _ => q.released) (.free none)
      (Unpfs.setSize path valid stat) := by
  unfold Unpfs.setSize
  split
  · refine obeys_bind (obeys_openWrite path) fun q file hq => ?_
    subst hq
    intro r
    refine ⟨_, .resizes file stat.size r, ?_⟩
    cases r with
    | ok u => exact rfl
    | error e => exact rfl
  · exact obeys_pure rfl

theorem obeys_rsetattr (fid : Fid) (valid : SetattrMask) (stat : SetAttr) (body : Fcall) :
    Obeys (Next Uses) Stage.released (Stage.Answers body) (.free none)
      (Unpfs.rsetattr fid valid stat) := by
  unfold Unpfs.rsetattr
  refine obeys_plain_bind (plain_realpath fid) rfl fun path => ?_
  refine obeys_plain_bind (plain_setMode path valid stat) rfl fun _ => ?_
  refine obeys_plain_bind (plain_setOwner path valid stat) rfl fun _ => ?_
  refine obeys_bind (obeys_setSize path valid stat) fun q _ hq => ?_
  exact obeys_plain_bind (plain_setTimes path valid stat) hq fun _ => obeys_pure hq

theorem obeys_rlopen {fid : Fid} (huses : Uses fid.aux) (flags : UInt32) (body : Fcall) :
    Obeys (Next Uses) Stage.released (Stage.Answers body) (.free none)
      (Unpfs.rlopen fid flags) := by
  unfold Unpfs.rlopen
  refine obeys_plain_bind (plain_realpath fid) rfl fun path => ?_
  refine obeys_plain_bind (plain_getQid path) rfl fun qid => ?_
  dsimp only
  split_ifs
  · refine obeys_bind (obeys_open path _ _) fun q file hq => ?_
    subst hq
    refine obeys_bind (obeys_setFile huses file) fun q _ hq => ?_
    subst hq
    exact obeys_pure rfl
  · exact obeys_pure rfl

theorem obeys_rlcreate {fid : Fid} (huses : Uses fid.aux) (name : String) (flags mode gid : UInt32)
    (body : Fcall) :
    Obeys (Next Uses) Stage.released (Stage.Answers body) (.free none)
      (Unpfs.rlcreate fid name flags mode gid) := by
  unfold Unpfs.rlcreate
  refine obeys_plain_bind (plain_realpath fid) rfl fun path => ?_
  refine obeys_bind (obeys_open _ _ _) fun q file hq => ?_
  subst hq
  refine obeys_plain_bind (plain_getQid _) rfl fun qid => ?_
  refine obeys_plain_bind (plain_setRealpath fid _) rfl fun _ => ?_
  refine obeys_bind (obeys_setFile huses file) fun q _ hq => ?_
  subst hq
  exact obeys_pure rfl

/-- The block goes to a position first. -/
theorem obeys_seek {α : Type} {a : ObjId} {file : FileId} {offset : UInt64}
    {body : UInt64 → UnpfsHandler α} {Q : Stage → α → Prop}
    (hbody : ∀ pos, Obeys (Next Uses) (fun q => ∃ moved, q = .locked a (some file) moved) Q
      (.sought a file offset) (body pos)) :
    Obeys (Next Uses) (fun q => ∃ moved, q = .locked a (some file) moved) Q
      (.locked a (some file) none) (liftIo (op (.host (.seek file offset))) >>= body) := by
  intro r
  cases r with
  | error e => exact ⟨_, .notSeeks a file offset e, none, rfl⟩
  | ok pos => exact ⟨_, .seeks a file offset pos, hbody pos⟩

theorem obeys_rread {b : Fid} (huses : Uses b.aux) (fid : UInt32) (offset : UInt64)
    (count : UInt32) :
    Obeys (Next Uses) Stage.released (Stage.Answers (.tread fid offset count)) (.free none)
      (Unpfs.rread b offset count) := by
  unfold Unpfs.rread
  refine obeys_bind (obeys_withFile (P := fun moved buf => ∃ file,
    moved = some (.read file offset count.toNat buf)) huses fun file => ?_) fun q buf hq => ?_
  · refine obeys_seek fun pos => ?_
    intro r
    cases r with
    | error e => exact ⟨_, .notReads b.aux file offset count.toNat e, none, rfl⟩
    | ok bytes => exact ⟨_, .reads b.aux file offset count.toNat bytes, _, rfl, file, rfl⟩
  · obtain ⟨moved, rfl, file, rfl⟩ := hq
    exact obeys_pure ⟨fid, offset, count, file, rfl, rfl⟩

theorem obeys_rwrite {b : Fid} (huses : Uses b.aux) (fid : UInt32) (offset : UInt64)
    (data : Data) :
    Obeys (Next Uses) Stage.released (Stage.Answers (.twrite fid offset data)) (.free none)
      (Unpfs.rwrite b offset data) := by
  unfold Unpfs.rwrite
  refine obeys_bind (obeys_withFile (P := fun moved count => ∃ file n,
    moved = some (.write file offset data.bytes n) ∧ count = UInt32.ofNat n) huses fun file => ?_)
    fun q count hq => ?_
  · refine obeys_seek fun pos => ?_
    intro r
    cases r with
    | error e => exact ⟨_, .notWrites b.aux file offset data.bytes e, none, rfl⟩
    | ok n => exact ⟨_, .writes b.aux file offset data.bytes n, _, rfl, file, n.val, rfl, rfl⟩
  · obtain ⟨moved, rfl, file, n, rfl, rfl⟩ := hq
    exact obeys_pure ⟨fid, offset, data, file, n, rfl, rfl, rfl⟩

theorem obeys_rfsync {fid : Fid} (huses : Uses fid.aux) (body : Fcall) :
    Obeys (Next Uses) Stage.released (Stage.Answers body) (.free none) (Unpfs.rfsync fid) := by
  unfold Unpfs.rfsync
  refine obeys_bind (obeys_withFile (P := fun _ _ => True) huses fun file => ?_) fun q u hq => ?_
  · intro r
    refine ⟨_, .syncs fid.aux file r, ?_⟩
    cases r with
    | ok u => exact ⟨none, rfl, trivial⟩
    | error e => exact ⟨none, rfl⟩
  · obtain ⟨moved, rfl, -⟩ := hq
    exact obeys_pure rfl

/-- The handler of a routed request locks the objects of the table only. -/
theorem obeys_of_route {realroot : PathBuf} {fids : FidTable} {aux : ObjId} {body : Fcall}
    {handler : UnpfsHandler Fcall} (huses : ∀ f b, fids.get f = some b → Uses b.aux)
    (hroute : route (Unpfs realroot) fids (newFid body aux) body = .ok handler) :
    Obeys (Next Uses) Stage.released (Stage.Answers body) (.free none) handler := by
  cases routed_of_route hroute with
  | rstatfs hb =>
    refine obeys_plain_bind (plain_realpath _) rfl fun path => ?_
    refine obeys_plain_bind (plain_liftNix ⟨True.intro, fun _ _ => True.intro⟩) rfl fun fs => ?_
    exact obeys_pure rfl
  | rlopen flags hb => exact obeys_rlopen (huses _ _ hb) flags _
  | rlcreate name flags mode gid hb => exact obeys_rlcreate (huses _ _ hb) name flags mode gid _
  | rreadlink hb =>
    refine obeys_plain_bind (plain_withRealpath _ fun path => ?_) rfl fun link => obeys_pure rfl
    exact plain_liftIo ⟨True.intro, fun _ _ => True.intro⟩
  | rgetattr reqMask hb =>
    refine obeys_plain_bind (plain_withRealpath _ fun path => ?_) rfl fun attr => obeys_pure rfl
    exact plain_liftIo ⟨True.intro, fun _ _ => True.intro⟩
  | rsetattr valid stat hb => exact obeys_rsetattr _ valid stat _
  | rreaddir offset count hb =>
    refine obeys_plain_bind (plain_readdirStart offset) rfl fun x => ?_
    refine obeys_plain_bind (plain_withRealpath _ fun path => ?_) rfl fun entries => ?_
    · exact plain_liftIo ⟨True.intro, fun _ _ => True.intro⟩
    · exact obeys_plain_bind (plain_readdirLoop _ _ _ _) rfl fun dirents => obeys_pure rfl
  | rfsync hb => exact obeys_rfsync (huses _ _ hb) _
  | rmkdir name mode gid hb =>
    refine obeys_plain_bind (plain_realpath _) rfl fun path => ?_
    refine obeys_plain_bind (plain_liftIo ⟨True.intro, fun _ _ => True.intro⟩) rfl fun _ => ?_
    exact obeys_plain_bind (plain_getQid _) rfl fun qid => obeys_pure rfl
  | rrenameat oldname newname hb hc =>
    refine obeys_plain_bind (plain_realpath _) rfl fun oldpath => ?_
    refine obeys_plain_bind (plain_realpath _) rfl fun newpath => ?_
    refine obeys_plain_bind (plain_liftIo ⟨True.intro, fun _ _ => True.intro⟩) rfl fun _ => ?_
    exact obeys_pure rfl
  | runlinkat name flags hb =>
    refine obeys_plain_bind (plain_realpath _) rfl fun path => ?_
    refine obeys_plain_bind (plain_liftIo ⟨True.intro, fun _ _ => True.intro⟩) rfl fun attr => ?_
    dsimp only
    split_ifs
    · refine obeys_plain_bind (plain_liftIo ⟨True.intro, fun _ _ => True.intro⟩) rfl fun _ => ?_
      exact obeys_pure rfl
    · refine obeys_plain_bind (plain_liftIo ⟨True.intro, fun _ _ => True.intro⟩) rfl fun _ => ?_
      exact obeys_pure rfl
  | rattach fid afid uname aname nUname =>
    refine obeys_plain_bind (plain_setRealpath _ _) rfl fun _ => ?_
    exact obeys_plain_bind (plain_getQid _) rfl fun qid => obeys_pure rfl
  | rwalk newfid wnames hb =>
    refine obeys_plain_bind (plain_realpath _) rfl fun path => ?_
    refine obeys_plain_bind (plain_walkLoop wnames 0 path []) rfl fun x => ?_
    exact obeys_plain_bind (plain_setRealpath _ _) rfl fun _ => obeys_pure rfl
  | rread offset count hb => exact obeys_rread (huses _ _ hb) _ offset count
  | rwrite offset data hb => exact obeys_rwrite (huses _ _ hb) _ offset data
  | rclunk hb => exact obeys_pure rfl
  | rversion msize version => exact obeys_pure rfl
  | unsupported => exact obeys_throw rfl

end
end P9cpu.Ninep
