import P9cpu.Ninep.Conn
import P9cpu.Ninep.Footprint
import P9cpu.Ninep.Locks
import P9cpu.Ninep.Walk

/-! Which files the qids of the replies are of: the qid path is an inode number, so files of
different devices can share one. -/
namespace P9cpu.Ninep
open Core Prog

/-- The qids in a response, in their order. -/
def Fcall.qids : Fcall → List Qid
  | .rlopen qid _ | .rlcreate qid _ | .rsymlink qid | .rmknod qid | .rgetattr _ qid _ => [qid]
  | .rmkdir qid | .rauth qid | .rattach qid => [qid]
  | .rreaddir data => data.data.map DirEntry.qid
  | .rwalk wqids => wqids
  | _ => []

/-- The file that the host has described in an answer. -/
def described : (o : UnpfsOp) → UnpfsRes o → List Metadata
  | .host (.symlinkMetadata _), .ok attr | .host (.entryMetadata _), .ok attr => [attr]
  | _, _ => []

/-! Handlers. -/

/-- The files described so far are those of the qids. -/
def Describes (qids : List Qid) (log : List Metadata) : Prop := log.map qidFromAttr = qids

variable {log : List Metadata}

theorem Describes.snoc {qids : List Qid} (h : Describes qids log) (attr : Metadata) :
    Describes (qids ++ [qidFromAttr attr]) (log ++ [attr]) := by
  unfold Describes at h ⊢
  rw [List.map_append, h, List.map_singleton]

/-- A handler that asks for no metadata. -/
theorem learns_same {α : Type} {h : UnpfsHandler α}
    (hh : Uses (fun o => ∀ r, described o r = []) (fun _ _ => True) (fun _ => True) h)
    (log : List Metadata) : Learns described (fun log' _ => log' = log) log h := by
  unfold Uses at hh
  unfold Learns
  generalize h.run = p at hh
  induction p with
  | ret r => exact fun _ _ => rfl
  | op o k ih =>
    intro r
    rw [hh.1 r, List.append_nil]
    exact ih r (hh.2 r True.intro)

theorem learns_realpath (fid : Fid) :
    Learns described (fun log' _ => log' = log) log (realpath fid) := by
  apply learns_same
  exact ⟨fun _ => rfl, fun _ _ => ⟨fun _ => rfl, fun _ _ _ _ => True.intro⟩⟩

theorem learns_setRealpath (fid : Fid) (path : PathBuf) :
    Learns described (fun log' _ => log' = log) log (setRealpath fid path) := by
  apply learns_same
  exact ⟨fun _ => rfl, fun _ _ _ _ => True.intro⟩

theorem learns_setFile (fid : Fid) (file : FileId) :
    Learns described (fun log' _ => log' = log) log (setFile fid file) := by
  apply learns_same
  exact ⟨fun _ => rfl, fun _ _ => ⟨fun _ => rfl, fun _ _ => ⟨fun _ => rfl,
    fun _ _ _ _ => True.intro⟩⟩⟩

theorem learns_getQid {qids : List Qid} (h : Describes qids log) (path : PathBuf) :
    Learns described (fun log' qid => Describes (qids ++ [qid]) log') log (getQid path) := by
  intro r
  cases r with
  | ok attr =>
    rintro qid hqid
    cases hqid
    exact h.snoc attr
  | error e =>
    rintro qid hqid
    cases hqid

/-- The qids of a response are those of the files described first. -/
def Fcall.QidsOf (log : List Metadata) (response : Fcall) : Prop :=
  response.qids <+: log.map qidFromAttr

theorem Describes.qidsOf {qids : List Qid} (h : Describes qids log) {response : Fcall}
    (hq : response.qids = qids) : response.QidsOf log := by
  unfold Fcall.QidsOf
  exact ⟨[], (List.append_nil _).trans (hq.trans h.symm)⟩

theorem qidsOf_of_nil {response : Fcall} (h : response.qids = []) (log : List Metadata) :
    response.QidsOf log := by
  unfold Fcall.QidsOf
  rw [h]
  exact List.nil_prefix

theorem learns_rattach (realroot : PathBuf) (fid : Fid) (afid : Option Fid) (uname aname : String)
    (nUname : UInt32) :
    Learns described (fun log response => response.QidsOf log) []
      (Unpfs.rattach realroot fid afid uname aname nUname) := by
  have hnil : Describes [] [] := rfl
  unfold Unpfs.rattach
  refine learns_bind (learns_setRealpath fid realroot) fun log _ hlog => ?_
  subst hlog
  refine learns_bind (learns_getQid hnil realroot) fun log qid hqid => ?_
  exact learns_pure (hqid.qidsOf rfl)

theorem learns_attempt_getQid {qids : List Qid} (h : Describes qids log) (path : PathBuf) :
    Learns described (fun log r => match r with
      | .ok qid => Describes (qids ++ [qid]) log
      | .error _ => Describes qids log) log (attempt (getQid path)) := by
  intro r
  cases r with
  | ok attr =>
    rintro a ha
    cases ha
    exact h.snoc attr
  | error e =>
    rintro a ha
    cases ha
    have hlog : log ++ described (.host (.symlinkMetadata path)) (.error e) = log :=
      List.append_nil log
    exact hlog.symm ▸ h

theorem learns_walkLoop (wnames : List String) (i : ℕ) (path : PathBuf) {wqids : List Qid}
    (h : Describes wqids log) :
    Learns described (fun log x => Describes x.2 log) log
      (Unpfs.walkLoop wnames i path wqids) := by
  induction wnames generalizing i path wqids log with
  | nil => exact learns_pure h
  | cons name wnames ih =>
    rw [Unpfs.walkLoop]
    refine learns_bind (learns_attempt_getQid h _) fun log r hr => ?_
    cases r with
    | ok qid => exact ih (i + 1) (path.push name) hr
    | error e =>
      dsimp only
      split_ifs
      · exact learns_throw _
      · exact learns_pure hr

theorem learns_rwalk (fid newfid : Fid) (wnames : List String) :
    Learns described (fun log response => response.QidsOf log) []
      (Unpfs.rwalk fid newfid wnames) := by
  have hnil : Describes [] [] := rfl
  unfold Unpfs.rwalk
  refine learns_bind (learns_realpath fid) fun log path hlog => ?_
  subst hlog
  refine learns_bind (learns_walkLoop wnames 0 path hnil) fun log x hx => ?_
  refine learns_bind (learns_setRealpath newfid x.1) fun log' _ hlog => ?_
  subst hlog
  exact learns_pure (hx.qidsOf rfl)

theorem learns_rgetattr (fid : Fid) (reqMask : GetattrMask) :
    Learns described (fun log response => response.QidsOf log) []
      (Unpfs.rgetattr fid reqMask) := by
  intro path r _
  cases r with
  | ok attr =>
    have hone : Describes [qidFromAttr attr] [attr] := rfl
    exact learns_pure (hone.qidsOf rfl)
  | error e => exact learns_throw _

theorem learns_rlopen (fid : Fid) (flags : UInt32) :
    Learns described (fun log response => response.QidsOf log) [] (Unpfs.rlopen fid flags) := by
  have hnil : Describes [] [] := rfl
  unfold Unpfs.rlopen
  refine learns_bind (learns_realpath fid) fun log path hlog => ?_
  subst hlog
  refine learns_bind (learns_getQid hnil path) fun log qid hqid => ?_
  have hend : (Fcall.rlopen qid 0).QidsOf log := hqid.qidsOf rfl
  split_ifs
  · refine learns_bind (Q := fun log' _ => log' = log) ?_ fun log' fd hlog => ?_
    · apply learns_same
      exact uses_liftNix ⟨fun _ => rfl, fun _ _ _ _ => True.intro⟩
    · subst hlog
      refine learns_bind (learns_setFile fid fd) fun log'' _ hlog => ?_
      subst hlog
      exact learns_pure hend
  · exact learns_pure hend

theorem learns_rlcreate (fid : Fid) (name : String) (flags mode gid : UInt32) :
    Learns described (fun log response => response.QidsOf log) []
      (Unpfs.rlcreate fid name flags mode gid) := by
  have hnil : Describes [] [] := rfl
  unfold Unpfs.rlcreate
  refine learns_bind (learns_realpath fid) fun log path hlog => ?_
  subst hlog
  refine learns_bind (Q := fun log' _ => log' = []) ?_ fun log fd hlog => ?_
  · apply learns_same
    exact uses_liftNix ⟨fun _ => rfl, fun _ _ _ _ => True.intro⟩
  · subst hlog
    refine learns_bind (learns_getQid hnil _) fun log qid hqid => ?_
    refine learns_bind (learns_setRealpath fid _) fun log' _ hlog => ?_
    subst hlog
    refine learns_bind (learns_setFile fid fd) fun log'' _ hlog => ?_
    subst hlog
    exact learns_pure (hqid.qidsOf rfl)

theorem learns_rmkdir (dfid : Fid) (name : String) (mode gid : UInt32) :
    Learns described (fun log response => response.QidsOf log) []
      (Unpfs.rmkdir dfid name mode gid) := by
  have hnil : Describes [] [] := rfl
  unfold Unpfs.rmkdir
  refine learns_bind (learns_realpath dfid) fun log path hlog => ?_
  subst hlog
  refine learns_bind (Q := fun log' _ => log' = []) ?_ fun log _ hlog => ?_
  · apply learns_same
    exact uses_liftIo ⟨fun _ => rfl, fun _ _ _ _ => True.intro⟩
  · subst hlog
    refine learns_bind (learns_getQid hnil _) fun log qid hqid => ?_
    exact learns_pure (hqid.qidsOf rfl)

/-! Listings. -/

def DirEntryData.qids (d : DirEntryData) : List Qid := d.data.map DirEntry.qid

theorem qids_push (d : DirEntryData) (entry : DirEntry) :
    (d.push entry).qids = d.qids ++ [entry.qid] := by
  simp [DirEntryData.qids, DirEntryData.push]

theorem learns_getDirentFrom {qids : List Qid} (h : Describes qids log) (path : PathBuf)
    (offset : UInt64) :
    Learns described (fun log dirent => Describes (qids ++ [dirent.qid]) log) log
      (getDirentFrom path offset) := by
  unfold getDirentFrom
  exact learns_bind (learns_getQid h path) fun log qid hqid => learns_pure hqid

theorem learns_getDirent {qids : List Qid} (h : Describes qids log) (entry : HostDirEntry)
    (offset : UInt64) :
    Learns described (fun log dirent => Describes (qids ++ [dirent.qid]) log) log
      (getDirent entry offset) := by
  intro r
  cases r with
  | ok attr => exact learns_pure (h.snoc attr)
  | error e => exact learns_throw _

theorem learns_readdirStart (off : UInt64) :
    Learns described (fun log x => Describes x.1.qids log) [] (Unpfs.readdirStart off) := by
  have hnil : Describes DirEntryData.new.qids [] := rfl
  unfold Unpfs.readdirStart
  dsimp only
  split_ifs
  · refine learns_bind (learns_getDirentFrom hnil _ 0) fun log dot hdot => ?_
    rw [← qids_push] at hdot
    refine learns_bind (learns_getDirentFrom hdot _ 1) fun log dots hdots => ?_
    rw [← qids_push] at hdots
    exact learns_pure hdots
  · exact learns_pure hnil

theorem learns_readdirLoop (count : UInt32) (entries : List (Except IoError HostDirEntry)) (i : ℕ)
    {dirents : DirEntryData} (h : Describes dirents.qids log) :
    Learns described (fun log d => d.qids <+: log.map qidFromAttr) log
      (Unpfs.readdirLoop count entries i dirents) := by
  induction entries generalizing i dirents log with
  | nil =>
    apply learns_pure
    exact ⟨[], (List.append_nil _).trans h.symm⟩
  | cons entry entries ih =>
    rw [Unpfs.readdirLoop]
    refine learns_bind (Q := fun log' _ => log' = log) ?_ fun log' entry hlog => ?_
    · intro _ _
      rfl
    · subst hlog
      refine learns_bind (learns_getDirent h entry _) fun log' dirent hdirent => ?_
      -- the entry that does not fit was looked up all the same
      split_ifs
      · apply learns_pure
        rw [hdirent]
        exact List.prefix_append _ _
      · rw [← qids_push] at hdirent
        exact ih (i + 1) hdirent

theorem learns_rreaddir (fid : Fid) (off : UInt64) (count : UInt32) :
    Learns described (fun log response => response.QidsOf log) []
      (Unpfs.rreaddir fid off count) := by
  unfold Unpfs.rreaddir
  refine learns_bind (learns_readdirStart off) fun log x hx => ?_
  refine learns_bind (Q := fun log' _ => log' = log) ?_ fun log' entries hlog => ?_
  · apply learns_same
    exact ⟨fun _ => rfl, fun _ _ => ⟨fun _ => rfl, fun _ _ => ⟨fun _ => rfl,
      fun _ _ _ _ => True.intro⟩⟩⟩
  · subst hlog
    exact learns_bind (learns_readdirLoop count _ _ hx) fun log d hd => learns_pure hd

/-- The qids of a response are those of the files that its handler has looked up. -/
theorem learns_of_route {realroot : PathBuf} {fids : FidTable} {aux : ObjId} {body : Fcall}
    {handler : UnpfsHandler Fcall}
    (hroute : route (Unpfs realroot) fids (newFid body aux) body = .ok handler) :
    Learns described (fun log response => response.QidsOf log) [] handler := by
  have hnone : ∀ {log : List Metadata} (response : Fcall), response.qids = [] →
      Learns described (fun log response => response.QidsOf log) log
        (pure response : UnpfsHandler Fcall) :=
    fun response hq => learns_pure (qidsOf_of_nil hq _)
  cases routed_of_route hroute with
  | rattach => exact learns_rattach _ _ _ _ _ _
  | rwalk => exact learns_rwalk _ _ _
  | rgetattr => exact learns_rgetattr _ _
  | rlopen => exact learns_rlopen _ _
  | rlcreate => exact learns_rlcreate _ _ _ _ _
  | rmkdir => exact learns_rmkdir _ _ _ _
  | rreaddir => exact learns_rreaddir _ _ _
  | unsupported => exact learns_throw _
  | rclunk => exact hnone _ rfl
  | rversion => exact hnone _ rfl
  | rreadlink =>
    unfold Unpfs.rreadlink
    exact learns_bind_of_forall fun _ _ => hnone _ rfl
  | rfsync =>
    unfold Unpfs.rfsync
    exact learns_bind_of_forall fun _ _ => hnone _ rfl
  | rread =>
    unfold Unpfs.rread
    exact learns_bind_of_forall fun _ _ => hnone _ rfl
  | rwrite =>
    unfold Unpfs.rwrite
    exact learns_bind_of_forall fun _ _ => hnone _ rfl
  | rstatfs =>
    unfold Unpfs.rstatfs
    exact learns_bind_of_forall fun _ _ => learns_bind_of_forall fun _ _ => hnone _ rfl
  | rrenameat =>
    unfold Unpfs.rrenameat
    refine learns_bind_of_forall fun _ _ => learns_bind_of_forall fun _ _ => ?_
    exact learns_bind_of_forall fun _ _ => hnone _ rfl
  | runlinkat =>
    unfold Unpfs.runlinkat
    refine learns_bind_of_forall fun _ _ => learns_bind_of_forall fun _ attr => ?_
    split_ifs
    · exact learns_bind_of_forall fun _ _ => hnone _ rfl
    · exact learns_bind_of_forall fun _ _ => hnone _ rfl
  | rsetattr =>
    unfold Unpfs.rsetattr
    refine learns_bind_of_forall fun _ _ => learns_bind_of_forall fun _ _ => ?_
    refine learns_bind_of_forall fun _ _ => learns_bind_of_forall fun _ _ => ?_
    exact learns_bind_of_forall fun _ _ => hnone _ rfl

/-! Runs. -/

section
variable {W : World UnpfsOp UnpfsRes} {realroot : PathBuf}

/-- The files that a step describes to the task `i`. -/
def noted (s : Conn W) (l : Label W) (i : ℕ) : List Metadata :=
  match l with
  | .run j =>
    match s.tasks[j]? with
    | some ⟨_, _, .handling _ (.op o _)⟩ =>
      match W.exec o s.world with
      | some (r, _) => if j = i then described o r else []
      | none => []
    | _ => []
  | _ => []

/-- The files that are described to the task `i` in a run. -/
def describedTo (realroot : PathBuf) (i : ℕ) : Conn W → List (Label W) → List Metadata
  | _, [] => []
  | s, l :: ls => noted s l i ++
    match step (Unpfs realroot) s l with
    | some t => describedTo realroot i t ls
    | none => []

/-- In a run to `s`, the qid was sent for the file: they stand at the same place, the one among
the qids of a reply, the other among the files that its handler looked up. -/
def Handed (realroot : PathBuf) (start : Conn W) (ls : List (Label W)) (s : Conn W)
    (attr : Metadata) (qid : Qid) : Prop :=
  ∃ (i : ℕ) (m : Msg) (k : ℕ), (i, m) ∈ s.written ∧ m.body.qids[k]? = some qid ∧
    (describedTo realroot i start ls)[k]? = some attr

def Phase.Learned (log : List Metadata) : Phase UnpfsOp UnpfsRes → Prop
  | .received => log = []
  | .handling _ p => p.Notes described (fun log r => ∀ f, r = .ok f → f.QidsOf log) log
  | .clunking _ _ response => response.QidsOf log
  | .inserting _ response => response.QidsOf log
  | .replying response => response.QidsOf log
  | .done | .panicked => True

/-- The qids of every reply belong to the first files described to its task. -/
structure Conn.Learned (log : ℕ → List Metadata) (s : Conn W) : Prop where
  phase : ∀ (i : ℕ) (msg : Msg) (aux : ObjId) (p : Phase UnpfsOp UnpfsRes),
    s.tasks[i]? = some ⟨msg, aux, p⟩ → p.Learned (log i)
  written : ∀ i m, (i, m) ∈ s.written → m.body.QidsOf (log i)
  fresh : ∀ i, s.tasks.length ≤ i → log i = []

theorem Fcall.QidsOf.append {log : List Metadata} {response : Fcall} (h : response.QidsOf log)
    (more : List Metadata) : response.QidsOf (log ++ more) := by
  unfold Fcall.QidsOf at h ⊢
  rw [List.map_append]
  exact h.trans (List.prefix_append _ _)

theorem Fcall.QidsOf.getElem? {log : List Metadata} {response : Fcall} (h : response.QidsOf log)
    {k : ℕ} {qid : Qid} (hk : response.qids[k]? = some qid) :
    ∃ attr, log[k]? = some attr ∧ qid = qidFromAttr attr := by
  obtain ⟨rest, hrest⟩ := h
  have hlt : k < response.qids.length := (List.getElem?_eq_some_iff.mp hk).1
  have hmap : (log.map qidFromAttr)[k]? = some qid := by
    rw [← hrest, List.getElem?_append_left hlt, hk]
  rw [List.getElem?_map, Option.map_eq_some_iff] at hmap
  obtain ⟨attr, hattr, hqid⟩ := hmap
  exact ⟨attr, hattr, hqid.symm⟩

theorem noted_of_ne {s : Conn W} {l : Label W} {i : ℕ} (h : l ≠ .run i) : noted s l i = [] := by
  cases l with
  | run j =>
    have hne : j ≠ i := fun hj => h (congrArg Label.run hj)
    unfold noted
    dsimp only
    split
    · split
      · exact if_neg hne
      · rfl
    · rfl
  | _ => rfl

theorem noted_of_ran {s : Conn W} {i : ℕ} {msg : Msg} {aux : ObjId} {newfid : Option Fid}
    {o : UnpfsOp} {k : UnpfsRes o → UnpfsProg (Except Error Fcall)} {r : UnpfsRes o}
    {world : W.State} (ht : s.tasks[i]? = some ⟨msg, aux, .handling newfid (.op o k)⟩)
    (hexec : W.exec o s.world = some (r, world)) : noted s (.run i) i = described o r := by
  unfold noted
  simp only [ht, hexec, if_true]

/-- Files are described to tasks that exist. -/
theorem noted_of_length_le {s : Conn W} {i : ℕ} (l : Label W) (h : s.tasks.length ≤ i) :
    noted s l i = [] := by
  by_cases hl : l = .run i
  · subst hl
    have hnone : s.tasks[i]? = none := List.getElem?_eq_none h
    unfold noted
    simp only [hnone]
  · exact noted_of_ne hl

theorem learned_afterHandler {body response : Fcall} (newfid : Option Fid) {log : List Metadata}
    (h : response.QidsOf log) : (afterHandler body newfid response).Learned log := by
  have hafter : (afterClunk newfid response).Learned log := by
    cases newfid <;> exact h
  cases body with
  | tclunk fid => exact h
  | _ => exact hafter

theorem learned_taskStep {s u : Conn W} {i : ℕ} {msg : Msg} {aux : ObjId} {l : Label W}
    {p q : Phase UnpfsOp UnpfsRes} (hstep : TaskStep (Unpfs realroot) s i msg aux l p q u)
    (ht : s.tasks[i]? = some ⟨msg, aux, p⟩) {log : List Metadata} (hp : p.Learned log) :
    q.Learned (log ++ noted s l i) := by
  have hsame : l ≠ .run i → log ++ noted s l i = log := fun hl => by
    rw [noted_of_ne hl, List.append_nil]
  cases hstep with
  | routed handler hroute =>
    obtain rfl : log = [] := hp
    rw [hsame (by simp)]
    exact learns_of_route hroute
  | refused e hroute =>
    rw [hsame (by simp)]
    exact qidsOf_of_nil rfl log
  | ran newfid o k r world hexec =>
    rw [noted_of_ran ht hexec]
    exact hp r
  | failed newfid e =>
    rw [hsame (by simp)]
    exact qidsOf_of_nil rfl log
  | handled newfid response =>
    rw [hsame (by simp)]
    exact learned_afterHandler newfid (hp response rfl)
  | clunked fid newfid response hu =>
    rw [hsame (by simp)]
    cases newfid <;> exact hp
  | inserted newfid response hu =>
    rw [hsame (by simp)]
    exact hp
  | skipped response hr => exact True.intro
  | sent response hr hlen => exact True.intro
  | tooLong response hr hlen => exact True.intro

theorem learned_step {s t : Conn W} {l : Label W} {log : ℕ → List Metadata} (hs : s.Learned log)
    (hstep : step (Unpfs realroot) s l = some t) : t.Learned (fun i => log i ++ noted s l i) := by
  have hwritten : ∀ i m, (i, m) ∈ s.written → m.body.QidsOf (log i ++ noted s l i) :=
    fun i m hm => (hs.written i m hm).append _
  have hfresh : ∀ i, s.tasks.length ≤ i → log i ++ noted s l i = [] := by
    intro i hi
    rw [hs.fresh i hi, noted_of_length_le l hi, List.append_nil]
  have hidle : (∀ i, l ≠ .run i) → ∀ (i : ℕ) (msg : Msg) (aux : ObjId)
      (p : Phase UnpfsOp UnpfsRes), s.tasks[i]? = some ⟨msg, aux, p⟩ →
      p.Learned (log i ++ noted s l i) := by
    intro hl i msg aux p ht
    rw [noted_of_ne (hl i), List.append_nil]
    exact hs.phase i msg aux p ht
  cases connStep_of_step hstep with
  | spawned frame msg rest hr hm =>
    refine ⟨fun i m aux p ht => ?_, hwritten, fun i hi => hfresh i ?_⟩
    · obtain ht | ⟨rfl, -, -, rfl⟩ := Conn.spawn_task ht
      · exact hidle (by simp) i m aux p ht
      · exact hfresh _ le_rfl
    · simp only [Conn.spawn, List.length_append, List.length_singleton] at hi
      omega
  | undecodable frame e hm => exact ⟨hidle (by simp), hwritten, hfresh⟩
  | hungUp => exact ⟨hidle (by simp), hwritten, hfresh⟩
  | ticked e world hw => exact ⟨hidle (by simp), hwritten, hfresh⟩
  | task i msg aux p q l u ht htask =>
    have htasks : u.tasks = s.tasks := by cases htask <;> rfl
    have hlabel : ∀ j, i ≠ j → l ≠ .run j := by
      rintro j hij rfl
      cases htask
      exact hij rfl
    have hp : p.Learned (log i) := hs.phase i msg aux p ht
    refine ⟨fun j m a p' htj => ?_, fun j m hm => ?_, fun j hj => hfresh j ?_⟩
    · rcases Conn.task_setPhase htasks ht htj with ⟨rfl, rfl, rfl, rfl⟩ | ⟨hji, htj⟩
      · exact learned_taskStep htask ht hp
      · rw [noted_of_ne (hlabel j (Ne.symm hji)), List.append_nil]
        exact hs.phase j m a p' htj
    · rw [Conn.setPhase_written] at hm
      cases htask with
      | sent response hr hlen =>
        obtain hm | hm := List.mem_append.mp hm
        · exact hwritten j m hm
        · obtain ⟨rfl, rfl⟩ : j = i ∧ m = ⟨msg.tag, response⟩ := by simpa using hm
          exact Fcall.QidsOf.append hp _
      | _ => exact hwritten j m hm
    · rwa [Conn.setPhase_length, htasks] at hj

theorem learned_run {s t : Conn W} {ls : List (Label W)} {log : ℕ → List Metadata}
    (hs : s.Learned log) (hrun : runs (step (Unpfs realroot)) s ls = some t) :
    t.Learned (fun i => log i ++ describedTo realroot i s ls) := by
  induction ls generalizing s log with
  | nil =>
    cases hrun
    simpa [describedTo] using hs
  | cons l ls ih =>
    obtain ⟨u, hu, hrun⟩ := runs_cons_eq_some.mp hrun
    have hnext := ih (learned_step hs hu) hrun
    simpa only [describedTo, hu, List.append_assoc] using hnext

variable {fids : FidTable} {nextAux : ObjId} {world : W.State} {ls : List (Label W)} {s : Conn W}

theorem qidsOf_written (hrun : runs (step (Unpfs realroot)) (.start fids nextAux world) ls = some s)
    {i : ℕ} {m : Msg} (hm : (i, m) ∈ s.written) :
    m.body.QidsOf (describedTo realroot i (.start fids nextAux world) ls) := by
  have hstart : (Conn.start (W := W) fids nextAux world).Learned (fun _ => []) := by
    refine ⟨?_, ?_, fun _ _ => rfl⟩
    · intro i msg aux p ht
      simp [Conn.start] at ht
    · intro i m hm
      simp [Conn.start] at hm
  simpa using (learned_run hstart hrun).written i m hm

theorem qid_eq_of_handed
    (hrun : runs (step (Unpfs realroot)) (.start fids nextAux world) ls = some s)
    {attr : Metadata} {qid : Qid} (h : Handed realroot (.start fids nextAux world) ls s attr qid) :
    qid = qidFromAttr attr := by
  obtain ⟨i, m, k, hm, hqid, hattr⟩ := h
  obtain ⟨attr', hattr', rfl⟩ := (qidsOf_written hrun hm).getElem? hqid
  rw [hattr] at hattr'
  cases hattr'
  rfl

/-- Every qid that was sent was sent for a file. -/
theorem exists_handed
    (hrun : runs (step (Unpfs realroot)) (.start fids nextAux world) ls = some s)
    {i : ℕ} {m : Msg} {qid : Qid} (hm : (i, m) ∈ s.written) (hqid : qid ∈ m.body.qids) :
    ∃ attr, Handed realroot (.start fids nextAux world) ls s attr qid := by
  obtain ⟨k, hk⟩ := List.getElem?_of_mem hqid
  obtain ⟨attr, hattr, -⟩ := (qidsOf_written hrun hm).getElem? hk
  exact ⟨attr, i, m, k, hm, hk, hattr⟩

/-- Qids tell the files of a run apart if and only if no two of them have the same inode number
on different devices. -/
theorem qids_identify_iff
    (hrun : runs (step (Unpfs realroot)) (.start fids nextAux world) ls = some s) :
    (∀ a q b p, Handed realroot (.start fids nextAux world) ls s a q →
        Handed realroot (.start fids nextAux world) ls s b p →
        q.path = p.path → a.dev = b.dev ∧ a.ino = b.ino) ↔
      ∀ a q b p, Handed realroot (.start fids nextAux world) ls s a q →
        Handed realroot (.start fids nextAux world) ls s b p → a.ino = b.ino → a.dev = b.dev := by
  constructor
  · intro hclaim a q b p ha hb hino
    refine (hclaim a q b p ha hb ?_).1
    rw [qid_eq_of_handed hrun ha, qid_eq_of_handed hrun hb]
    exact hino
  · intro hdev a q b p ha hb hpath
    rw [qid_eq_of_handed hrun ha, qid_eq_of_handed hrun hb] at hpath
    exact ⟨hdev a q b p ha hb hpath, hpath⟩

end

/-! Two file systems, whose roots have the inode number 2. -/

def rootAttr (dev : UInt64) : Metadata :=
  ⟨dev, 2, .dir, 0o755, 0, 0, 1, 0, 0, 4096, 0, 0, 0, 0, 0, 0, 0⟩

/-- Device 1 is mounted at `/` and device 2 at `/mnt`. -/
def mountsHost : SharedHost where
  State := Unit
  Event := Empty
  exec
    | .symlinkMetadata path, s =>
      some (if path = .ofString "/" then .ok (rootAttr 1)
        else if path = .ofString "/mnt" then .ok (rootAttr 2) else .error (.os 2), s)
    | o, s => some ((dirHost []).exec o s)
  tick e _ := nomatch e

def mountsStart : Conn mountsHost.world := .start .new 0 ⟨fun _ => LockedFid.default, ()⟩

/-- `Tattach` of fid 1 and `Twalk` from it to fid 2 by `mnt`. -/
def mountsRun : List (Label mountsHost.world) :=
  [.recv [104, 1, 0, 1, 0, 0, 0, 255, 255, 255, 255, 0, 0, 0, 0, 0, 0, 0, 0], .lookup 0, .run 0,
    .run 0, .finish 0, .insert 0, .send 0,
    .recv [110, 1, 0, 1, 0, 0, 0, 2, 0, 0, 0, 1, 0, 3, 0, 109, 110, 116], .lookup 1, .run 1,
    .run 1, .run 1, .run 1, .finish 1, .insert 1, .send 1]

theorem mountsRun_isSome :
    (runs (step (Unpfs (.ofString "/"))) mountsStart mountsRun).isSome = true := rfl

def mountsEnd : Conn mountsHost.world :=
  (runs (step (Unpfs (.ofString "/"))) mountsStart mountsRun).get mountsRun_isSome

/-- Both roots are handed out, under one qid. -/
theorem handed_mounts (dev : UInt64) (hdev : dev = 1 ∨ dev = 2) :
    Handed (.ofString "/") mountsStart mountsRun mountsEnd (rootAttr dev)
      (qidFromAttr (rootAttr 1)) := by
  have hwritten : mountsEnd.written = [(0, ⟨1, .rattach (qidFromAttr (rootAttr 1))⟩),
      (1, ⟨1, .rwalk [qidFromAttr (rootAttr 1)]⟩)] := rfl
  rcases hdev with rfl | rfl
  · refine ⟨0, ⟨1, .rattach (qidFromAttr (rootAttr 1))⟩, 0, ?_, rfl, rfl⟩
    rw [hwritten]
    exact List.mem_cons_self
  · refine ⟨1, ⟨1, .rwalk [qidFromAttr (rootAttr 1)]⟩, 0, ?_, rfl, rfl⟩
    rw [hwritten]
    exact List.mem_cons_of_mem _ List.mem_cons_self

theorem qids_identify_iff_mounts :
    (∀ a q b p, Handed (.ofString "/") mountsStart mountsRun mountsEnd a q →
        Handed (.ofString "/") mountsStart mountsRun mountsEnd b p →
        q.path = p.path → a.dev = b.dev ∧ a.ino = b.ino) ↔
      ∀ a q b p, Handed (.ofString "/") mountsStart mountsRun mountsEnd a q →
        Handed (.ofString "/") mountsStart mountsRun mountsEnd b p → a.ino = b.ino → a.dev = b.dev :=
  qids_identify_iff (Option.some_get mountsRun_isSome).symm

/-- The roots of two devices get the same qid. -/
theorem not_qids_identify : ¬ ∀ (W : World UnpfsOp UnpfsRes) (realroot : PathBuf)
    (fids : FidTable) (nextAux : ObjId) (world : W.State) (ls : List (Label W)) (s : Conn W),
    runs (step (Unpfs realroot)) (.start fids nextAux world) ls = some s →
    ∀ a q b p, Handed realroot (.start fids nextAux world) ls s a q →
      Handed realroot (.start fids nextAux world) ls s b p →
      q.path = p.path → a.dev = b.dev ∧ a.ino = b.ino := by
  intro hclaim
  have hsame := hclaim mountsHost.world (.ofString "/") .new 0 ⟨fun _ => LockedFid.default, ()⟩
    mountsRun mountsEnd (Option.some_get mountsRun_isSome).symm _ _ _ _
    (handed_mounts 1 (.inl rfl)) (handed_mounts 2 (.inr rfl)) rfl
  exact absurd hsame.1 (by decide)

end P9cpu.Ninep
