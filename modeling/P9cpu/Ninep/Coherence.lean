import P9cpu.Ninep.Visible

/-! The path of a fid and the file that it holds, while `Tlopen` and `Tlcreate` of the fid run at
the same time. -/
namespace P9cpu.Ninep
open Core Prog

/-- What is remembered of a run. -/
structure History where
  /-- the path under which a file was opened -/
  path : FileId → Option PathBuf
  /-- the object whose path a handler has written and whose file it has still to store -/
  owes : ℕ → Option ObjId

def History.new : History := ⟨fun _ => none, fun _ => none⟩

/-- The file that an operation opens, with its path. -/
def UnpfsOp.opened : (o : UnpfsOp) → UnpfsRes o → Option (FileId × PathBuf)
  | .host (.open path ..), .ok file => some (file, path)
  | _, _ => none

/-- What a handler owes after an operation. The path of a new fid, whose object is `aux`, comes
without a file. -/
def UnpfsOp.owed (aux : ObjId) : UnpfsOp → Option ObjId → Option ObjId
  | .realpathWrite a _, q => if a = aux then q else some a
  | .fileSet .., _ => none
  | _, q => q

def History.ran (h : History) (i : ℕ) (aux : ObjId) (o : UnpfsOp) (r : UnpfsRes o) : History where
  path :=
    match o.opened r with
    | some (file, path) => Function.update h.path file (some path)
    | none => h.path
  owes := Function.update h.owes i (o.owed aux (h.owes i))

def remember {W : World UnpfsOp UnpfsRes} (s : Conn W) : Label W → History → History
  | .run i, h =>
    match s.tasks[i]? with
    | some ⟨_, aux, .handling _ (.op o _)⟩ =>
      match W.exec o s.world with
      | some (r, _) => h.ran i aux o r
      | none => h
    | _ => h
  | _, h => h

/-- A step of a connection with what is remembered. -/
abbrev recorded {W : World UnpfsOp UnpfsRes} (root : PathBuf) :
    Conn W × History → Label W → Option (Conn W × History) :=
  withGhost (step (Unpfs root)) remember

/-- No request is outstanding. -/
def Conn.Idle {W : World UnpfsOp UnpfsRes} (s : Conn W) : Prop :=
  ∀ t ∈ s.tasks, t.phase.ended = true

instance {W : World UnpfsOp UnpfsRes} (s : Conn W) : Decidable s.Idle :=
  inferInstanceAs (Decidable (∀ t ∈ s.tasks, t.phase.ended = true))

/-- The task that stores a file in this step, the object and the file. -/
def Label.stores {W : World UnpfsOp UnpfsRes} (s : Conn W) :
    Label W → Option (ℕ × ObjId × FileId)
  | .run i =>
    match s.tasks[i]? with
    | some ⟨_, _, .handling _ (.op (.fileSet a file) _)⟩ => some (i, a, file)
    | _ => none
  | _ => none

section
variable {N : Names} {cap : ℕ}

/-- Every bound fid that holds a file holds one that was opened under the path of the fid. -/
def Conn.Coherent (h : History) (s : Conn (fileHost N cap).world) : Prop :=
  ∀ (f : UInt32) (b : Fid) (file : FileId), s.fids.get f = some b →
    (LockedObjs.objs s.world b.aux).file = some file →
    h.path file = some (LockedObjs.realpath s.world b.aux)

/-- A file that is stored was opened under the path that the fid has, or another `Tlcreate` of
the fid has written its path and has still to store its file. -/
def StoresAgree (x : Conn (fileHost N cap).world × History)
    (l : Label (fileHost N cap).world) : Prop :=
  ∀ store ∈ l.stores x.1,
    x.2.path store.2.2 = some (LockedObjs.realpath x.1.world store.2.1) ∨
      ∃ j < x.1.tasks.length, j ≠ store.1 ∧ x.2.owes j = some store.2.1

instance (x : Conn (fileHost N cap).world × History) (l : Label (fileHost N cap).world) :
    Decidable (StoresAgree x l) :=
  inferInstanceAs (Decidable (∀ store ∈ l.stores x.1, _))

end

/-! The order in which handlers write the path of a fid and store its file. -/

/-- Operations that change neither the path of an object nor its file. -/
def UnpfsOp.Neutral : UnpfsOp → Prop
  | .realpathWrite .. | .fileSet .. => False
  | _ => True

/-- A handler names its own new object, `aux`, or it changes an object in `Uses`: who writes the
path stores a file next. -/
inductive Advances (Uses : ObjId → Prop) (aux : ObjId) :
    Option ObjId → (o : UnpfsOp) → UnpfsRes o → Option ObjId → Prop
  | neutral (q : Option ObjId) (o : UnpfsOp) (r : UnpfsRes o) (h : o.Neutral) :
      Advances Uses aux q o r q
  | names (path : PathBuf) : Advances Uses aux none (.realpathWrite aux path) () none
  | renames (a : ObjId) (path : PathBuf) (h : Uses a) :
      Advances Uses aux none (.realpathWrite a path) () (some a)
  | stores (q : Option ObjId) (a : ObjId) (file : FileId) (h : Uses a)
      (hq : q = none ∨ q = some a) : Advances Uses aux q (.fileSet a file) () none

section
variable {Uses Uses' : ObjId → Prop} {aux : ObjId}

theorem Advances.imp (h : ∀ a, Uses a → Uses' a) (q : Option ObjId) (o : UnpfsOp)
    (r : UnpfsRes o) (q' : Option ObjId) (hq : Advances Uses aux q o r q') :
    Advances Uses' aux q o r q' := by
  cases hq with
  | neutral _ _ _ ho => exact .neutral q o r ho
  | names path => exact .names path
  | renames a path ha => exact .renames a path (h a ha)
  | stores _ a file ha hq => exact .stores q a file (h a ha) hq

/-- The protocol agrees with what is remembered. -/
theorem owed_of_advances {q q' : Option ObjId} {o : UnpfsOp} {r : UnpfsRes o}
    (hne : ∀ a, Uses a → a ≠ aux) (h : Advances Uses aux q o r q') : q' = o.owed aux q := by
  cases h with
  | neutral _ o r ho =>
    cases o with
    | realpathWrite | fileSet => exact ho.elim
    | _ => rfl
  | names path => exact (if_pos rfl).symm
  | renames a path ha => exact (if_neg (hne a ha)).symm
  | stores => rfl

theorem footprint_neutral {P : UnpfsOp → Prop} (h : ∀ o : UnpfsOp, o.Neutral → P o) :
    Footprint P (fun _ _ => True) (fun _ => True) (fun _ => True) (fun _ => True) where
  realpathRead _ _ := h _ True.intro
  realpathUnread _ := h _ True.intro
  fileLock _ := h _ True.intro
  fileUnlock _ := h _ True.intro
  realpath _ _ _ := True.intro
  good _ _ := True.intro
  host _ _ := h _ True.intro
  dots _ _ := h _ True.intro

/-- A handler that starts with neutral operations. -/
theorem advances_bind {α β : Type} {R : Option ObjId → β → Prop} {h : UnpfsHandler α}
    {f : α → UnpfsHandler β}
    (hh : Prog.Uses UnpfsOp.Neutral (fun _ _ => True) (fun _ => True) h)
    (hf : ∀ a, Obeys (Advances Uses aux) (fun q => q = none) R none (f a)) :
    Obeys (Advances Uses aux) (fun q => q = none) R none (h >>= f) := by
  have hobeys : Obeys (Advances Uses aux) (fun q => q = none) (fun q _ => q = none ∧ True) none h :=
    hh.obeys (fun o ho r => .neutral none o r ho) rfl
  apply obeys_bind hobeys
  intro q a hq
  rw [hq.1]
  exact hf a

theorem advances_rlcreate {fid : Fid} (huses : Uses fid.aux) (name : String)
    (flags mode gid : UInt32) :
    Obeys (Advances Uses aux) (fun q => q = none) (fun q _ => q = none) none
      (Unpfs.rlcreate fid name flags mode gid) := by
  have H := footprint_neutral fun _ h => h
  have hopen (path : PathBuf) (oflags omode : UInt32) :
      Prog.Uses UnpfsOp.Neutral (fun _ _ => True) (fun _ => True)
        (liftNix (op (.host (.open path oflags omode)))) :=
    uses_liftNix ⟨True.intro, fun _ _ _ _ => True.intro⟩
  unfold Unpfs.rlcreate
  apply advances_bind (H.uses_realpath True.intro)
  intro path
  apply advances_bind (hopen _ _ _)
  intro file
  apply advances_bind (H.uses_getQid True.intro)
  intro qid
  have hrename : Obeys (Advances Uses aux) (fun q => q = none) (fun q _ => q = some fid.aux) none
      (setRealpath fid (path.join name)) :=
    fun _ => ⟨_, .renames fid.aux _ huses, rfl⟩
  apply obeys_bind hrename
  intro q _ hq
  have hstore : Obeys (Advances Uses aux) (fun q => q = none) (fun q _ => q = none) q
      (setFile fid file) := by
    intro old
    refine ⟨q, .neutral _ _ old True.intro, fun _ => ?_⟩
    refine ⟨none, .stores q fid.aux file huses (.inr hq), fun u => ?_⟩
    exact ⟨none, .neutral _ _ u True.intro, rfl⟩
  exact obeys_bind hstore fun q _ hq => obeys_pure hq

/-- Besides neutral operations, the operations in `P` leave nothing owed. -/
theorem advances_of_uses {P : UnpfsOp → Prop} {handler : UnpfsHandler Fcall}
    (h : Prog.Uses (fun o => o.Neutral ∨ P o) (fun _ _ => True) (fun _ => True) handler)
    (hP : ∀ (o : UnpfsOp) (r : UnpfsRes o), P o → Advances Uses aux none o r none) :
    Obeys (Advances Uses aux) (fun q => q = none) (fun q _ => q = none) none handler := by
  have hobeys : Obeys (Advances Uses aux) (fun q => q = none) (fun q _ => q = none ∧ True) none
      handler := by
    refine h.obeys (fun o ho r => ?_) rfl
    cases ho with
    | inl hneutral => exact .neutral none o r hneutral
    | inr ho => exact hP o r ho
  refine hobeys.mono fun q r hr => ?_
  cases r with
  | ok a => exact hr.1
  | error e => exact hr

theorem advances_of_route {realroot : PathBuf} {fids : FidTable} {body : Fcall}
    {handler : UnpfsHandler Fcall} (huses : ∀ f b, fids.get f = some b → Uses b.aux)
    (hroute : route (Unpfs realroot) fids (newFid body aux) body = .ok handler) :
    Obeys (Advances Uses aux) (fun q => q = none) (fun q _ => q = none) none handler := by
  have hstores (a : ObjId) (ha : Uses a) (o : UnpfsOp) (r : UnpfsRes o)
      (ho : ∃ file, o = .fileSet a file) : Advances Uses aux none o r none := by
    obtain ⟨file, rfl⟩ := ho
    exact .stores none a file ha (.inl rfl)
  have hnames (o : UnpfsOp) (r : UnpfsRes o) (ho : ∃ path, o = .realpathWrite aux path) :
      Advances Uses aux none o r none := by
    obtain ⟨path, rfl⟩ := ho
    exact .names path
  cases hchanges : changes fids aux body with
  | none =>
    have H : Footprint (fun o : UnpfsOp => o.Neutral ∨ False) _ _ _ _ :=
      footprint_neutral fun o ho => .inl ho
    apply advances_of_uses (P := fun _ => False)
    · refine H.uses_route True.intro (fun _ _ _ => True.intro) (fun _ _ _ _ _ => True.intro)
        (fun a ha => ?_) hroute
      rw [hchanges] at ha
      cases ha
    · exact fun _ _ h => h.elim
  | some a =>
    cases routed_of_route hroute with
    | rlcreate name flags mode gid hb =>
      exact advances_rlcreate (huses _ _ hb) name flags mode gid
    | @rlopen fid b flags hb =>
      have H : Footprint (fun o : UnpfsOp => o.Neutral ∨ ∃ file, o = .fileSet b.aux file) _ _ _ _ :=
        footprint_neutral fun o ho => .inl ho
      apply advances_of_uses _ (hstores b.aux (huses _ _ hb))
      exact H.uses_rlopen True.intro flags fun file => .inr ⟨file, rfl⟩
    | rattach fid afid uname aname nUname =>
      have H : Footprint (fun o : UnpfsOp => o.Neutral ∨ ∃ path, o = .realpathWrite aux path)
          _ _ _ _ := footprint_neutral fun o ho => .inl ho
      apply advances_of_uses _ hnames
      exact H.uses_rattach True.intro ⟨fid, aux⟩ (.inr ⟨realroot, rfl⟩) none uname aname nUname
    | rwalk newfid wnames hb =>
      have H : Footprint (fun o : UnpfsOp => o.Neutral ∨ ∃ path, o = .realpathWrite aux path)
          _ _ _ _ := footprint_neutral fun o ho => .inl ho
      apply advances_of_uses _ hnames
      exact H.uses_rwalk True.intro ⟨newfid, aux⟩ (fun _ _ _ => True.intro)
        fun path _ => .inr ⟨path, rfl⟩
    | unsupported => exact obeys_throw rfl
    | _ => cases hchanges

end

/-! Objects that requests can reach. -/

/-- The task has given its object to the table, or never will. -/
def Phase.parted {Op : Type} {Res : Op → Type} : Phase Op Res → Prop
  | .replying _ | .done | .panicked => True
  | _ => False

section
variable {Op : Type} {Res : Op → Type} {W : World Op Res} {fs : Filesystem Op Res}
  {s t u : Conn W} {i : ℕ} {msg : Msg} {aux a : ObjId} {p q : Phase Op Res} {l : Label W}

/-- The object is not still the own object of a task, nor of one that is to come. -/
structure Shared (s : Conn W) (a : ObjId) : Prop where
  lt : a < s.nextAux
  parted : ∀ (i : ℕ) (msg : Msg) (p : Phase Op Res),
    s.tasks[i]? = some ⟨msg, a, p⟩ → p.parted

theorem Shared.spawn (h : Shared s a) (msg : Msg) : Shared (s.spawn msg) a := by
  have hlt : a < s.nextAux := h.lt
  refine ⟨Nat.lt_succ_of_lt hlt, fun j m p ht => ?_⟩
  obtain ht | ⟨-, -, haux, -⟩ := Conn.spawn_task ht
  · exact h.parted j m p ht
  · exact absurd hlt (by rw [haux]; exact lt_irrefl _)

theorem parted_of_taskStep (h : TaskStep fs s i msg aux l p q u) (hp : p.parted) : q.parted := by
  cases h with
  | skipped | sent | tooLong => exact True.intro
  | _ => exact hp.elim

theorem Shared.setPhase (h : Shared s a) (ht : s.tasks[i]? = some ⟨msg, aux, p⟩)
    (hstep : TaskStep fs s i msg aux l p q u) : Shared (u.setPhase i q) a := by
  obtain ⟨htasks, hnext, -⟩ := nextAux_of_taskStep hstep
  refine ⟨?_, fun j m p' htj => ?_⟩
  · rw [Conn.setPhase_nextAux, hnext]
    exact h.lt
  · rcases Conn.task_setPhase htasks ht htj with ⟨rfl, rfl, rfl, rfl⟩ | ⟨-, htj⟩
    · exact parted_of_taskStep hstep (h.parted j m p ht)
    · exact h.parted j m p' htj

/-- A task that has parted with its object shares it. -/
theorem shared_setPhase (hs : s.Fresh) (ht : s.tasks[i]? = some ⟨msg, aux, p⟩)
    (hstep : TaskStep fs s i msg aux l p q u) (hq : q.parted) :
    Shared (u.setPhase i q) aux := by
  obtain ⟨htasks, hnext, -⟩ := nextAux_of_taskStep hstep
  have hmem : aux ∈ s.tasks.map Task.aux := List.mem_map.mpr ⟨_, List.mem_of_getElem? ht, rfl⟩
  refine ⟨?_, fun j m p' htj => ?_⟩
  · rw [Conn.setPhase_nextAux, hnext]
    exact hs.lt aux hmem
  · rcases Conn.task_setPhase htasks ht htj with ⟨-, -, -, rfl⟩ | ⟨hji, htj⟩
    · exact hq
    · exact absurd (eq_of_aux hs.nodup htj ht) hji

theorem shared_of_step (hstep : step fs s l = some t) (h : Shared s a) : Shared t a := by
  cases connStep_of_step hstep with
  | spawned frame msg rest hr hm => exact h.spawn msg
  | undecodable | hungUp | ticked => exact ⟨h.lt, h.parted⟩
  | task i msg aux p q l u ht htask => exact h.setPhase ht htask

end

/-! What an operation does to the objects and to what is remembered. -/

/-- The file of an object was opened under the path of the object, or a handler still owes the
object a file. -/
def History.Settles {σ : Type} (h : History) (w : LockedObjs σ) (a : ObjId) : Prop :=
  (∀ file, (w.objs a).file = some file → h.path file = some (w.realpath a)) ∨
    ∃ i, h.owes i = some a

/-- The files that were opened exist. -/
def History.Opened {σ : Type} (h : History) (w : LockedObjs (Files σ)) : Prop :=
  ∀ file path, h.path file = some path → file < w.host.files.length

section
variable {N : Names} {cap : ℕ} {h h' : History} {w w' : LockedObjs (Files N.State)} {i : ℕ}
  {aux a : ObjId} {o : UnpfsOp} {r : UnpfsRes o}

@[simp] theorem owes_ran_self : (h.ran i aux o r).owes i = o.owed aux (h.owes i) :=
  Function.update_self ..

theorem owes_ran_of_ne {j : ℕ} (hj : j ≠ i) : (h.ran i aux o r).owes j = h.owes j :=
  Function.update_of_ne hj ..

theorem path_ran_of_none (ho : o.opened r = none) : (h.ran i aux o r).path = h.path := by
  simp only [History.ran, ho]

theorem path_ran_of_some {file : FileId} {path : PathBuf} (ho : o.opened r = some (file, path)) :
    (h.ran i aux o r).path = Function.update h.path file (some path) := by
  simp only [History.ran, ho]

/-- The files of the host stay, and a file that is opened is a new one. -/
theorem files_of_exec (hexec : (fileHost N cap).lockedExec o w = some (r, w')) :
    w.host.files.length ≤ w'.host.files.length ∧ ∀ file path, o.opened r = some (file, path) →
      file = w.host.files.length ∧ file < w'.host.files.length := by
  cases o with
  | host call =>
    obtain ⟨host, hrun, rfl⟩ := executes_of_lockedExec hexec
    refine ⟨length_of_executes hrun, fun file path hopened => ?_⟩
    cases hrun with
    | opened | emptied =>
      cases hopened
      exact ⟨rfl, by simp [Files.add, Files.setContent]⟩
    | other _ _ names ho =>
      cases call with
      | «open» => exact ho.2.elim
      | _ => cases hopened
    | _ => cases hopened
  | _ =>
    have hhost : w'.host = w.host := SharedHost.host_of_exec hexec (by simp)
    rw [hhost]
    refine ⟨le_rfl, fun file path hopened => ?_⟩
    cases hopened

/-- The path of a file that was opened is not forgotten. -/
theorem path_ran (hopened : h.Opened w)
    (hexec : (fileHost N cap).lockedExec o w = some (r, w')) {file : FileId} {path : PathBuf}
    (hfile : h.path file = some path) : (h.ran i aux o r).path file = some path := by
  cases ho : o.opened r with
  | none =>
    rw [path_ran_of_none ho]
    exact hfile
  | some x =>
    have hnew := ((files_of_exec hexec).2 x.1 x.2 ho).1
    have hlt : file < x.1 := (hopened file path hfile).trans_eq hnew.symm
    rw [path_ran_of_some ho, Function.update_of_ne hlt.ne]
    exact hfile

theorem opened_ran (hopened : h.Opened w)
    (hexec : (fileHost N cap).lockedExec o w = some (r, w')) : (h.ran i aux o r).Opened w' := by
  obtain ⟨hle, hnew⟩ := files_of_exec hexec
  intro file path hfile
  cases ho : o.opened r with
  | none =>
    rw [path_ran_of_none ho] at hfile
    exact (hopened file path hfile).trans_le hle
  | some x =>
    by_cases hx : file = x.1
    · rw [hx]
      exact (hnew x.1 x.2 ho).2
    · rw [path_ran_of_some ho, Function.update_of_ne hx] at hfile
      exact (hopened file path hfile).trans_le hle

theorem History.Settles.mono (hs : h.Settles w a) (hfile : (w'.objs a).file = (w.objs a).file)
    (hreal : w'.realpath a = w.realpath a)
    (hpath : ∀ file path, h.path file = some path → h'.path file = some path)
    (howes : ∀ j, h.owes j = some a → h'.owes j = some a) : h'.Settles w' a := by
  cases hs with
  | inl hagrees =>
    left
    intro file hget
    rw [hfile] at hget
    rw [hreal]
    exact hpath file _ (hagrees file hget)
  | inr hsome =>
    obtain ⟨j, hj⟩ := hsome
    exact .inr ⟨j, howes j hj⟩

/-- An operation that changes neither the path nor the file of an object leaves it settled, if
the object is still owed what the handler owed it. -/
theorem History.Settles.ran (hs : h.Settles w a) (hopened : h.Opened w)
    (hexec : (fileHost N cap).lockedExec o w = some (r, w')) (hfile : ∀ file, o ≠ .fileSet a file)
    (hreal : ∀ path, o ≠ .realpathWrite a path)
    (hself : h.owes i = some a → o.owed aux (h.owes i) = some a) :
    (h.ran i aux o r).Settles w' a := by
  apply hs.mono (SharedHost.file_of_exec hexec hfile) (SharedHost.realpath_of_exec hexec hreal)
  · exact fun file path hpath => path_ran hopened hexec hpath
  · intro j hj
    by_cases hji : j = i
    · subst hji
      rw [owes_ran_self]
      exact hself hj
    · rw [owes_ran_of_ne hji]
      exact hj

/-- The path of an object without a file. -/
theorem settles_named {path : PathBuf} {r : Unit} (hown : (w.objs a).file = none)
    (hexec : (fileHost N cap).lockedExec (.realpathWrite a path) w = some (r, w')) :
    h'.Settles w' a := by
  left
  intro file hfile
  rw [SharedHost.file_of_exec hexec (by simp), hown] at hfile
  cases hfile

theorem settles_stored {file : FileId} {r : Unit} (hopened : h.Opened w)
    (hexec : (fileHost N cap).lockedExec (.fileSet a file) w = some (r, w'))
    (hagree : h.path file = some (w.realpath a) ∨ ∃ j, j ≠ i ∧ h.owes j = some a) :
    (h.ran i aux (.fileSet a file) r).Settles w' a := by
  cases hagree with
  | inl hagrees =>
    left
    intro file' hfile
    rw [SharedHost.file_of_store hexec] at hfile
    cases hfile
    have hreal : w'.realpath a = w.realpath a := SharedHost.realpath_of_exec hexec (by simp)
    rw [hreal]
    exact path_ran hopened hexec hagrees
  | inr hother =>
    obtain ⟨j, hji, hj⟩ := hother
    right
    refine ⟨j, ?_⟩
    rw [owes_ran_of_ne hji]
    exact hj

/-- After an operation that the protocol allows every object is settled, if the file that is
stored agrees with the path of its object. -/
theorem settles_ran {Uses : ObjId → Prop} {q : Option ObjId} (hsettles : ∀ a, h.Settles w a)
    (hopened : h.Opened w) (hnext : Advances Uses aux (h.owes i) o r q)
    (hne : ∀ a, Uses a → a ≠ aux) (hown : (w.objs aux).file = none)
    (hexec : (fileHost N cap).lockedExec o w = some (r, w'))
    (hagree : ∀ a file, o = .fileSet a file →
      h.path file = some (w.realpath a) ∨ ∃ j, j ≠ i ∧ h.owes j = some a) (a : ObjId) :
    (h.ran i aux o r).Settles w' a := by
  have hq := owed_of_advances hne hnext
  generalize hi : h.owes i = owes at hnext
  cases hnext with
  | neutral _ o r ho =>
    apply (hsettles a).ran hopened hexec
    · rintro file rfl
      exact ho
    · rintro path rfl
      exact ho
    · intro howes
      rw [← hq, ← hi]
      exact howes
  | names path =>
    by_cases ha : a = aux
    · rw [ha]
      exact settles_named hown hexec
    · apply (hsettles a).ran hopened hexec (by simp)
      · intro path' heq
        cases heq
        exact ha rfl
      · intro howes
        rw [hi] at howes
        cases howes
  | renames b path hb =>
    by_cases ha : a = b
    · subst ha
      right
      refine ⟨i, ?_⟩
      rw [owes_ran_self, ← hq]
    · apply (hsettles a).ran hopened hexec (by simp)
      · intro path' heq
        cases heq
        exact ha rfl
      · intro howes
        rw [hi] at howes
        cases howes
  | stores _ b file hb howed =>
    by_cases ha : a = b
    · subst ha
      exact settles_stored hopened hexec (hagree a file rfl)
    · apply (hsettles a).ran hopened hexec _ (by simp)
      · intro howes
        rw [hi] at howes
        rw [howes] at howed
        cases howed with
        | inl hnone => cases hnone
        | inr hsome =>
          cases hsome
          exact absurd rfl ha
      · intro file' heq
        cases heq
        exact ha rfl

end

/-! The invariant of a connection. -/

section
variable {N : Names} {cap : ℕ} {root : PathBuf} {s t u : Conn (fileHost N cap).world}
  {l : Label (fileHost N cap).world} {h h' : History} {i : ℕ} {msg : Msg} {aux : ObjId}
  {p q : Phase UnpfsOp UnpfsRes}

/-- A task owes a file only while its handler is going to store it. -/
def Phase.Owing (s : Conn (fileHost N cap).world) (aux : ObjId) (owes : Option ObjId) :
    Phase UnpfsOp UnpfsRes → Prop
  | .handling _ p => p.Follows (Advances (Shared s) aux) (fun q _ => q = none) owes
  | _ => owes = none

structure Conn.Remembers (h : History) (s : Conn (fileHost N cap).world) : Prop where
  fresh : s.Fresh
  consistent : s.Consistent
  table : ∀ f b, s.fids.get f = some b → Shared s b.aux
  own : ∀ a, ¬ Shared s a → (LockedObjs.objs s.world a).file = none
  settles : ∀ a, h.Settles s.world a
  opened : h.Opened s.world
  phase : ∀ (i : ℕ) (msg : Msg) (aux : ObjId) (p : Phase UnpfsOp UnpfsRes),
    s.tasks[i]? = some ⟨msg, aux, p⟩ → p.Owing s aux (h.owes i)
  idle : ∀ i, s.tasks.length ≤ i → h.owes i = none

theorem Phase.Owing.mono {owes : Option ObjId} (hp : p.Owing s aux owes)
    (hshared : ∀ a, Shared s a → Shared t a) : p.Owing t aux owes := by
  cases p with
  | handling newfid p => exact Follows.imp hp (Advances.imp hshared)
  | _ => exact hp

/-- A task goes on: it alone changes what it owes. -/
theorem remembers_setPhase (hs : s.Remembers h)
    (hstep : step (Unpfs root) s l = some (u.setPhase i q))
    (ht : s.tasks[i]? = some ⟨msg, aux, p⟩) (htasks : u.tasks = s.tasks)
    (htable : ∀ f b, u.fids.get f = some b →
      s.fids.get f = some b ∨ Shared (u.setPhase i q) b.aux)
    (hown : ∀ a, ¬ Shared s a → (LockedObjs.objs u.world a).file = none)
    (hsettles : ∀ a, h'.Settles u.world a) (hopened : h'.Opened u.world)
    (hother : ∀ j, j ≠ i → h'.owes j = h.owes j)
    (hphase : q.Owing (u.setPhase i q) aux (h'.owes i)) : (u.setPhase i q).Remembers h' := by
  have hshared : ∀ a, Shared s a → Shared (u.setPhase i q) a := fun a => shared_of_step hstep
  have hlt : i < s.tasks.length := (List.getElem?_eq_some_iff.mp ht).1
  refine ⟨fresh_step hs.fresh hs.consistent hstep, consistent_step s l _ hs.consistent hstep,
    fun f b hb => ?_, fun a ha => hown a fun h => ha (hshared a h), hsettles, hopened,
    fun j m a p' hj => ?_, fun j hj => ?_⟩
  · cases htable f b hb with
    | inl hold => exact hshared _ (hs.table f b hold)
    | inr hnew => exact hnew
  · rcases Conn.task_setPhase htasks ht hj with ⟨rfl, rfl, rfl, rfl⟩ | ⟨hji, hj⟩
    · exact hphase
    · rw [hother j hji]
      exact (hs.phase j m a p' hj).mono hshared
  · rw [Conn.setPhase_length, htasks] at hj
    have hji : j ≠ i := by omega
    rw [hother j hji]
    exact hs.idle j hj

/-- A task goes on without an operation. -/
theorem remembers_quiet (hs : s.Remembers h)
    (hstep : step (Unpfs root) s l = some (u.setPhase i q))
    (ht : s.tasks[i]? = some ⟨msg, aux, p⟩) (htasks : u.tasks = s.tasks)
    (htable : ∀ f b, u.fids.get f = some b →
      s.fids.get f = some b ∨ Shared (u.setPhase i q) b.aux)
    (hworld : u.world = s.world) (hphase : q.Owing (u.setPhase i q) aux (h.owes i)) :
    (u.setPhase i q).Remembers h := by
  have hown : ∀ a, ¬ Shared s a → (LockedObjs.objs u.world a).file = none := by
    rw [hworld]
    exact hs.own
  have hsettles : ∀ a, h.Settles u.world a := by
    rw [hworld]
    exact hs.settles
  have hopened : h.Opened u.world := by
    rw [hworld]
    exact hs.opened
  exact remembers_setPhase hs hstep ht htasks htable hown hsettles hopened (fun _ _ => rfl) hphase

/-- The object for the new fid of a request has no file. -/
theorem remembers_created (hs : s.Remembers h)
    (hstep : step (Unpfs root) s l = some (u.setPhase i q))
    (ht : s.tasks[i]? = some ⟨msg, aux, p⟩) (htasks : u.tasks = s.tasks)
    (hfids : u.fids = s.fids) {b : Bool}
    (hworld : u.world = if b then (fileHost N cap).world.create aux s.world else s.world)
    (hphase : q.Owing (u.setPhase i q) aux (h.owes i)) : (u.setPhase i q).Remembers h := by
  have htable : ∀ f c, u.fids.get f = some c →
      s.fids.get f = some c ∨ Shared (u.setPhase i q) c.aux := by
    rw [hfids]
    exact fun f c hc => .inl hc
  cases b with
  | false => exact remembers_quiet hs hstep ht htasks htable hworld hphase
  | true =>
    have hdefault : LockedObjs.objs u.world aux = LockedFid.default := by
      rw [hworld]
      exact Function.update_self aux LockedFid.default (LockedObjs.objs s.world)
    have hnew : (LockedObjs.objs u.world aux).file = none := by
      rw [hdefault]
      rfl
    have hobjs (a : ObjId) (ha : a ≠ aux) :
        LockedObjs.objs u.world a = LockedObjs.objs s.world a := by
      rw [hworld]
      exact Function.update_of_ne ha ..
    have hopened : h.Opened u.world := by
      rw [hworld]
      exact hs.opened
    refine remembers_setPhase hs hstep ht htasks htable (fun a ha => ?_) (fun a => ?_) hopened
      (fun _ _ => rfl) hphase
    · by_cases haux : a = aux
      · rw [haux]
        exact hnew
      · rw [hobjs a haux]
        exact hs.own a ha
    · by_cases haux : a = aux
      · subst haux
        left
        intro file hfile
        rw [hnew] at hfile
        cases hfile
      · have hobj := hobjs a haux
        exact (hs.settles a).mono (congrArg (fun fid : LockedFid => fid.file) hobj)
          (congrArg (fun fid : LockedFid => fid.realpath) hobj) (fun _ _ hp => hp) fun _ hj => hj

theorem owing_afterHandler {body response : Fcall} {newfid : Option Fid} {owes : Option ObjId}
    (howes : owes = none) :
    (afterHandler body newfid response : Phase UnpfsOp UnpfsRes).Owing s aux owes := by
  have hafter : (afterClunk newfid response : Phase UnpfsOp UnpfsRes).Owing s aux owes := by
    cases newfid <;> exact howes
  cases body with
  | tclunk fid => exact howes
  | _ => exact hafter

theorem remember_run {newfid : Option Fid} {o : UnpfsOp}
    {k : UnpfsRes o → UnpfsProg (Except Error Fcall)} {r : UnpfsRes o}
    {world : LockedObjs (Files N.State)}
    (ht : s.tasks[i]? = some ⟨msg, aux, .handling newfid (.op o k)⟩)
    (hexec : (fileHost N cap).lockedExec o s.world = some (r, world)) :
    remember s (.run i) h = h.ran i aux o r := by
  have hworld : (fileHost N cap).world.exec o s.world = some (r, world) := hexec
  simp only [remember, ht, hworld]

/-- A handler performs an operation. -/
theorem remembers_ran {newfid : Option Fid} {o : UnpfsOp}
    {k : UnpfsRes o → UnpfsProg (Except Error Fcall)} {r : UnpfsRes o}
    (hs : s.Remembers h) (hstep : step (Unpfs root) s (.run i) =
      some (u.setPhase i (.handling newfid (k r)))) (htasks : u.tasks = s.tasks)
    (hfids : u.fids = s.fids) (ht : s.tasks[i]? = some ⟨msg, aux, .handling newfid (.op o k)⟩)
    (hexec : (fileHost N cap).lockedExec o s.world = some (r, u.world))
    (hagree : StoresAgree (s, h) (.run i)) :
    (u.setPhase i (.handling newfid (k r))).Remembers (h.ran i aux o r) := by
  have hp : Phase.Owing s aux (h.owes i) (.handling newfid (.op o k)) := hs.phase i msg aux _ ht
  obtain ⟨q, hnext, hk⟩ := hp r
  have hne : ∀ a, Shared s a → a ≠ aux := by
    rintro a ha rfl
    exact ha.parted i msg _ ht
  have hq := owed_of_advances hne hnext
  have haux : (LockedObjs.objs s.world aux).file = none :=
    hs.own aux fun haux => hne aux haux rfl
  have htable : ∀ f b, u.fids.get f = some b →
      s.fids.get f = some b ∨ Shared (u.setPhase i (.handling newfid (k r))) b.aux := by
    rw [hfids]
    exact fun f b hb => .inl hb
  apply remembers_setPhase hs hstep ht htasks htable
  · intro a ha
    have hfile : (LockedObjs.objs u.world a).file = (LockedObjs.objs s.world a).file := by
      apply SharedHost.file_of_exec hexec
      rintro file rfl
      generalize h.owes i = owes at hnext
      cases hnext with
      | neutral _ _ _ ho => exact ho
      | stores _ _ _ hshared => exact ha hshared
    rw [hfile]
    exact hs.own a ha
  · apply settles_ran hs.settles hs.opened hnext hne haux hexec
    rintro a file rfl
    have hstores : Label.stores s (.run i) = some (i, a, file) := by
      simp only [Label.stores, ht]
    cases hagree _ hstores with
    | inl hagrees => exact .inl hagrees
    | inr hother =>
      obtain ⟨j, -, hj⟩ := hother
      exact .inr ⟨j, hj⟩
  · exact opened_ran hs.opened hexec
  · exact fun j hj => owes_ran_of_ne hj
  · rw [owes_ran_self, ← hq]
    exact Follows.imp hk (Advances.imp fun a => shared_of_step hstep)

theorem remembers_taskStep (hs : s.Remembers h)
    (hstep : step (Unpfs root) s l = some (u.setPhase i q))
    (ht : s.tasks[i]? = some ⟨msg, aux, p⟩) (htask : TaskStep (Unpfs root) s i msg aux l p q u)
    (hagree : StoresAgree (s, h) l) : (u.setPhase i q).Remembers (remember s l h) := by
  have hp : p.Owing s aux (h.owes i) := hs.phase i msg aux p ht
  have hkeep (hfids : u.fids = s.fids) : ∀ f b, u.fids.get f = some b →
      s.fids.get f = some b ∨ Shared (u.setPhase i q) b.aux := by
    rw [hfids]
    exact fun f b hb => .inl hb
  have hshared (hq : q.parted) : Shared (u.setPhase i q) aux :=
    shared_setPhase hs.fresh ht htask hq
  cases htask with
  | routed handler hroute =>
    apply remembers_created hs hstep ht rfl rfl rfl
    have howes : h.owes i = none := hp
    rw [howes]
    have hobeys : Obeys (Advances (Shared s) aux) (fun q => q = none) (fun q _ => q = none) none
        handler := advances_of_route hs.table hroute
    have hgrows : ∀ a, Shared s a → Shared _ a := fun a => shared_of_step hstep
    refine (Follows.imp hobeys (Advances.imp hgrows)).mono fun q r hr => ?_
    cases r with
    | ok response => exact hr
    | error e => exact hr
  | refused e hroute => exact remembers_created hs hstep ht rfl rfl rfl hp
  | ran newfid o k r world hexec =>
    rw [remember_run ht hexec]
    exact remembers_ran hs hstep rfl rfl ht hexec hagree
  | failed newfid e => exact remembers_quiet hs hstep ht rfl (hkeep rfl) rfl hp
  | handled newfid response =>
    exact remembers_quiet hs hstep ht rfl (hkeep rfl) rfl (owing_afterHandler hp)
  | clunked fid newfid response hu =>
    apply remembers_quiet hs hstep ht rfl ?_ rfl
    · cases newfid <;> exact hp
    · intro f b hb
      rw [FidTable.get_remove] at hb
      split_ifs at hb
      exact .inl hb
  | inserted newfid response hu =>
    apply remembers_quiet hs hstep ht rfl ?_ rfl hp
    intro f b hb
    rw [FidTable.get_insert] at hb
    split_ifs at hb
    · cases hb
      have hnew : newFid msg.body aux = some newfid := hs.consistent.phase i msg aux _ ht
      rw [aux_of_newFid hnew]
      exact .inr (hshared True.intro)
    · exact .inl hb
  | skipped response hr => exact remembers_quiet hs hstep ht rfl (hkeep rfl) rfl hp
  | sent response hr hlen => exact remembers_quiet hs hstep ht rfl (hkeep rfl) rfl hp
  | tooLong response hr hlen => exact remembers_quiet hs hstep ht rfl (hkeep rfl) rfl hp

/-- A step that no task takes. -/
theorem remembers_idle (hs : s.Remembers h) (hstep : step (Unpfs root) s l = some t)
    (htasks : t.tasks = s.tasks) (hfids : t.fids = s.fids)
    (hobjs : LockedObjs.objs t.world = LockedObjs.objs s.world) (hopened : h.Opened t.world) :
    t.Remembers h := by
  have hshared : ∀ a, Shared s a → Shared t a := fun a => shared_of_step hstep
  refine ⟨fresh_step hs.fresh hs.consistent hstep, consistent_step s l _ hs.consistent hstep,
    ?_, ?_, ?_, hopened, ?_, ?_⟩
  · rw [hfids]
    exact fun f b hb => hshared _ (hs.table f b hb)
  · rw [hobjs]
    exact fun a ha => hs.own a fun h => ha (hshared a h)
  · intro a
    have hobj := congrFun hobjs a
    exact (hs.settles a).mono (congrArg (fun fid : LockedFid => fid.file) hobj)
      (congrArg (fun fid : LockedFid => fid.realpath) hobj) (fun _ _ hp => hp) fun _ hj => hj
  · rw [htasks]
    exact fun j m a p hj => (hs.phase j m a p hj).mono hshared
  · rw [htasks]
    exact hs.idle

theorem remembers_spawned (hs : s.Remembers h)
    (hstep : step (Unpfs root) s l = some (s.spawn msg)) : (s.spawn msg).Remembers h := by
  have hshared : ∀ a, Shared s a → Shared (s.spawn msg) a := fun a => shared_of_step hstep
  refine ⟨fresh_step hs.fresh hs.consistent hstep, consistent_step s l _ hs.consistent hstep,
    fun f b hb => hshared _ (hs.table f b hb), fun a ha => hs.own a fun h => ha (hshared a h),
    hs.settles, hs.opened, fun j m a p hj => ?_, fun j hj => ?_⟩
  · cases Conn.spawn_task hj with
    | inl hold => exact (hs.phase j m a p hold).mono hshared
    | inr hnew =>
      obtain ⟨rfl, -, -, rfl⟩ := hnew
      exact hs.idle _ le_rfl
  · have hlen : (s.spawn msg).tasks.length = s.tasks.length + 1 := by simp [Conn.spawn]
    exact hs.idle j (by omega)

theorem remembers_step (x : Conn (fileHost N cap).world × History)
    (l : Label (fileHost N cap).world) (y : Conn (fileHost N cap).world × History)
    (hx : x.1.Remembers x.2) (hagree : StoresAgree x l) (hstep : recorded root x l = some y) :
    y.1.Remembers y.2 := by
  obtain ⟨s, h⟩ := x
  obtain ⟨t, h'⟩ := y
  obtain ⟨hstep, rfl⟩ := withGhost_eq_some.mp hstep
  dsimp only at hx hstep ⊢
  cases connStep_of_step hstep with
  | task i msg aux p q l u ht htask => exact remembers_taskStep hx hstep ht htask hagree
  | spawned frame msg rest hr hm => exact remembers_spawned hx hstep
  | undecodable frame e hm => exact remembers_idle hx hstep rfl rfl rfl hx.opened
  | hungUp => exact remembers_idle hx hstep rfl rfl rfl hx.opened
  | ticked f world hw =>
    obtain ⟨host, hfinish, rfl⟩ := Option.map_eq_some_iff.mp hw
    have hlen : host.files.length = (LockedObjs.host s.world).files.length :=
      length_of_finish hfinish
    apply remembers_idle hx hstep rfl rfl rfl
    intro file path hfile
    change file < host.files.length
    rw [hlen]
    exact hx.opened file path hfile

theorem remembers_start (nextAux : ObjId) (host : Files N.State) :
    (host.start cap nextAux).Remembers .new := by
  have hnone : ∀ (i : ℕ) (x : Task UnpfsOp UnpfsRes),
      (host.start cap nextAux).tasks[i]? ≠ some x := by
    intro i x hx
    cases hx
  exact
    { fresh := fresh_start nextAux _
      consistent := ⟨fun i msg aux p ht => absurd ht (hnone i _), fun i m hm => nomatch hm⟩
      table := fun f b hb => nomatch hb
      own := fun _ _ => rfl
      settles := fun _ => .inl fun _ hfile => nomatch hfile
      opened := fun _ _ hpath => nomatch hpath
      phase := fun i msg aux p ht => absurd ht (hnone i _)
      idle := fun _ _ => rfl }

/-- A fid and its file have the same path when no request is outstanding: in every run in which
each file is stored under its own path, or before another `Tlcreate` of the fid stores its. -/
theorem files_coherent {nextAux : ObjId} {host : Files N.State}
    {ls : List (Label (fileHost N cap).world)}
    (hrun : runs (step (Unpfs root)) (host.start cap nextAux) ls = some s)
    (hagree : Along (recorded root) StoresAgree (host.start cap nextAux, .new) ls)
    (hidle : s.Idle) :
    ∃ h, runs (recorded root) (host.start cap nextAux, .new) ls = some (s, h) ∧ s.Coherent h := by
  have hmap : (runs (recorded root) (host.start cap nextAux, .new) ls).map Prod.fst =
      runs (step (Unpfs root)) (host.start cap nextAux) ls := map_runs_withGhost _ _ ls
  rw [← hmap] at hrun
  obtain ⟨⟨s, h⟩, hrecorded, rfl⟩ := Option.map_eq_some_iff.mp hrun
  refine ⟨h, hrecorded, fun f b file _ hfile => ?_⟩
  have hs : s.Remembers h := runs_invariant_along (I := fun x => x.1.Remembers x.2)
    remembers_step hagree hrecorded (remembers_start nextAux host)
  cases hs.settles b.aux with
  | inl hagrees => exact hagrees file hfile
  | inr howes =>
    obtain ⟨i, hi⟩ := howes
    cases ht : s.tasks[i]? with
    | none =>
      have hnone := hs.idle i (List.getElem?_eq_none_iff.mp ht)
      exact absurd (hi.symm.trans hnone) (by simp)
    | some task =>
      obtain ⟨msg, aux, p⟩ := task
      have hended : p.ended = true := hidle _ (List.mem_of_getElem? ht)
      have hphase : p.Owing s aux (h.owes i) := hs.phase i msg aux p ht
      have hnone : h.owes i = none := by
        cases p with
        | done | panicked => exact hphase
        | _ => cases hended
      exact absurd (hi.symm.trans hnone) (by simp)

theorem stores_eq_some {a : ObjId} {file : FileId} :
    l.stores s = some (i, a, file) ↔ l = .run i ∧ ∃ msg aux newfid k,
      s.tasks[i]? = some ⟨msg, aux, .handling newfid (.op (.fileSet a file) k)⟩ := by
  constructor
  · intro hstores
    unfold Label.stores at hstores
    split at hstores
    next j =>
      split at hstores
      next msg aux newfid b f k ht =>
        cases hstores
        exact ⟨rfl, msg, aux, newfid, k, ht⟩
      · cases hstores
    · cases hstores
  · rintro ⟨rfl, msg, aux, newfid, k, ht⟩
    simp only [Label.stores, ht]

/-- A step that stores a file is always possible, and leaves an object that is not settled if
the file does not agree. -/
theorem storesAgree_of_settles {x : Conn (fileHost N cap).world × History}
    (hx : x.1.Remembers x.2)
    (hsettles : ∀ y, recorded root x l = some y → ∀ a, y.2.Settles y.1.world a) :
    StoresAgree x l := by
  obtain ⟨s, h⟩ := x
  rintro ⟨i, a, file⟩ hstores
  obtain ⟨rfl, msg, aux, newfid, k, ht⟩ := stores_eq_some.mp hstores
  dsimp only at hx hsettles ⊢
  have hexec : (fileHost N cap).lockedExec (.fileSet a file) s.world =
      some ((), LockedObjs.set s.world a { LockedObjs.objs s.world a with file := some file }) :=
    rfl
  generalize LockedObjs.set s.world a { LockedObjs.objs s.world a with file := some file } = world
    at hexec
  have hworld : (fileHost N cap).world.exec (.fileSet a file) s.world = some ((), world) := hexec
  have hstep : recorded root (s, h) (.run i) =
      some ({ s with world := world }.setPhase i (.handling newfid (k ())),
        h.ran i aux (.fileSet a file) ()) := by
    rw [withGhost_eq_some]
    exact ⟨by simp only [step, ht, hworld], remember_run ht hexec⟩
  cases hsettles _ hstep a with
  | inl hagrees =>
    left
    have hreal : world.realpath a = LockedObjs.realpath s.world a :=
      SharedHost.realpath_of_exec hexec (by simp)
    rw [← hreal]
    exact hagrees file (SharedHost.file_of_store hexec)
  | inr howes =>
    obtain ⟨j, hj⟩ := howes
    dsimp only at hj
    have hji : j ≠ i := by
      rintro rfl
      rw [owes_ran_self] at hj
      cases hj
    rw [owes_ran_of_ne hji] at hj
    have hlt : j < s.tasks.length := by
      by_contra hle
      have hnone := hx.idle j (not_lt.mp hle)
      exact absurd (hj.symm.trans hnone) (by simp)
    exact .inr ⟨j, hlt, hji, hj⟩

/-- The files that are stored agree exactly in the runs in which every fid at every time has a
file of its path, or a `Tlcreate` has still to store one. -/
theorem along_storesAgree_iff {x : Conn (fileHost N cap).world × History}
    (hx : x.1.Remembers x.2) (ls : List (Label (fileHost N cap).world)) :
    Along (recorded root) StoresAgree x ls ↔ ∀ ms ns y, ls = ms ++ ns →
      runs (recorded root) x ms = some y → ∀ a, y.2.Settles y.1.world a := by
  constructor
  · rintro hagree ms ns y rfl hrun
    have hy : y.1.Remembers y.2 := runs_invariant_along (I := fun x => x.1.Remembers x.2)
      remembers_step hagree.append_left hrun hx
    exact hy.settles
  · intro hsettles
    induction ls generalizing x with
    | nil => exact True.intro
    | cons l ls ih =>
      have hagree : StoresAgree x l := by
        apply storesAgree_of_settles hx
        intro y hy
        exact hsettles [l] ls y rfl (runs_cons_eq_some.mpr ⟨y, hy, rfl⟩)
      refine ⟨hagree, fun y hy => ih (remembers_step x l y hx hagree hy) ?_⟩
      intro ms ns z hls hz
      exact hsettles (l :: ms) ns z (by rw [hls, List.cons_append])
        (runs_cons_eq_some.mpr ⟨y, hy, hz⟩)

end

/-! Two `Tlcreate` of one fid. -/

/-- A host with one directory, `/`, where every name is a file of its own. -/
def flatDir : Names where
  State := Unit
  exec
    | .symlinkMetadata path, s =>
      if path = .ofString "/" then (dirHost [path]).exec (.symlinkMetadata path) s
      else oneFile.exec (.symlinkMetadata path) s
    | o, s => oneFile.exec o s
  find path _ _ s := (.ok (path.bytes.foldl (fun n b => 256 * n + b.toNat) 0), s)
  findWrite path s := (.ok (path.bytes.foldl (fun n b => 256 * n + b.toNat) 0), s)

def noFiles : Files flatDir.State := ⟨(), fun _ => [], []⟩

/-- `Tattach` of fid 0, `Tlcreate` of `a` and `Tlcreate` of `b` on it, both up to the write of the
path: the fid is at `/b`. -/
def creates : List (Label (fileHost flatDir 2097152).world) :=
  [.recv [104, 1, 0, 0, 0, 0, 0, 255, 255, 255, 255, 0, 0, 0, 0, 0, 0, 0, 0], .lookup 0, .run 0,
    .run 0, .finish 0, .insert 0, .send 0,
    .recv [14, 1, 0, 0, 0, 0, 0, 1, 0, 97, 66, 0, 0, 0, 164, 1, 0, 0, 0, 0, 0, 0],
    .recv [14, 2, 0, 0, 0, 0, 0, 1, 0, 98, 66, 0, 0, 0, 164, 1, 0, 0, 0, 0, 0, 0],
    .lookup 1, .lookup 2, .run 1, .run 1, .run 1, .run 1, .run 2, .run 2, .run 2, .run 2,
    .run 1, .run 2]

def replies : List (Label (fileHost flatDir 2097152).world) :=
  [.finish 1, .finish 2, .send 1, .send 2]

/-- The file of `a` is stored first, then that of `b`. -/
def storesInOrder : List (Label (fileHost flatDir 2097152).world) :=
  creates ++ [.run 1, .run 1, .run 1, .run 2, .run 2, .run 2] ++ replies

/-- The file of `b` is stored first, then that of `a`. -/
def storesCrossed : List (Label (fileHost flatDir 2097152).world) :=
  creates ++ [.run 2, .run 2, .run 2, .run 1, .run 1, .run 1] ++ replies

theorem storesInOrder_isSome : (runs (step (Unpfs (.ofString "/"))) (noFiles.start 2097152 0)
    storesInOrder).isSome = true := rfl

def storedInOrder : Conn (fileHost flatDir 2097152).world :=
  (runs (step (Unpfs (.ofString "/"))) (noFiles.start 2097152 0) storesInOrder).get
    storesInOrder_isSome

theorem files_coherent_inOrder : ∃ h, runs (recorded (.ofString "/"))
    (noFiles.start 2097152 0, .new) storesInOrder = some (storedInOrder, h) ∧
      storedInOrder.Coherent h := by
  exact files_coherent (Option.some_get storesInOrder_isSome).symm (by decide +kernel)
    (by decide +kernel)

theorem storesCrossed_isSome : (runs (step (Unpfs (.ofString "/"))) (noFiles.start 2097152 0)
    storesCrossed).isSome = true := rfl

def storedCrossed : Conn (fileHost flatDir 2097152).world :=
  (runs (step (Unpfs (.ofString "/"))) (noFiles.start 2097152 0) storesCrossed).get
    storesCrossed_isSome

/-- The fid is at `/b` and holds the file that was opened as `/a`. -/
theorem not_files_coherent : ¬ ∀ (N : Names) (cap : ℕ) (root : PathBuf) (nextAux : ObjId)
    (host : Files N.State) (ls : List (Label (fileHost N cap).world))
    (s : Conn (fileHost N cap).world),
    runs (step (Unpfs root)) (host.start cap nextAux) ls = some s → s.Idle →
    ∃ h, runs (recorded root) (host.start cap nextAux, .new) ls = some (s, h) ∧ s.Coherent h := by
  intro hclaim
  have hidle : storedCrossed.Idle := by decide +kernel
  obtain ⟨h, hrun, hcoherent⟩ := hclaim flatDir 2097152 (.ofString "/") 0 noFiles storesCrossed
    storedCrossed (Option.some_get storesCrossed_isSome).symm hidle
  have hopened : (runs (recorded (.ofString "/")) (noFiles.start 2097152 0, .new)
      storesCrossed).map (fun y => y.2.path (0 : ℕ)) = some (some (.ofString "/a")) := rfl
  rw [hrun, Option.map_some, Option.some.injEq] at hopened
  have hpath : h.path (0 : ℕ) = some (.ofString "/b") := hcoherent 0 ⟨0, 0⟩ (0 : ℕ) rfl rfl
  have hne : (some (.ofString "/a") : Option PathBuf) ≠ some (.ofString "/b") := by decide
  exact hne (hopened.symm.trans hpath)

end P9cpu.Ninep
