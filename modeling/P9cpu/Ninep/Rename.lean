import P9cpu.Core.Tree
import P9cpu.Ninep.Frame

/-! Fids over a tree of files: a fid keeps its path, and its path keeps leading to the same file
while no entry on its way is changed. -/
namespace P9cpu.Ninep
open Core
open PathBuf (isAbsolute)

/-- What tells files apart. -/
structure FileNum where
  dev : UInt64
  ino : UInt64
deriving DecidableEq

abbrev FileTree := Core.Tree FileNum

def Errno.ofFault : Fault → Errno
  | .noEntry => ENOENT
  | .notDir => ENOTDIR
  | .isDir => EISDIR
  | .loop => ELOOP
  | .exist => EEXIST
  | .notEmpty => ENOTEMPTY
  | .busy => ⟨16⟩
  | .invalid => EINVAL

def IoError.ofErrno (e : Errno) : IoError := .os e.code.toNat

def ENOSYS : Errno := ⟨38⟩

/-- A call that fails. -/
def failed (e : Errno) : (o : HostOp) → HostRes o
  | .symlinkMetadata _ | .metadata _ | .entryMetadata _ | .readDir _ | .readLink _ | .openWrite _
  | .seek .. | .read .. | .write .. | .setPermissions .. | .setLen .. | .setFileTimes ..
  | .syncAll _ | .createDir _ | .rename .. | .removeDir _ | .removeFile _ => .error (.ofErrno e)
  | .chown .. | .statvfs _ | .open .. => .error e

/-- The names in a path, `cur` being what was read of the first one. -/
def namesFrom (cur : Name) : List UInt8 → List Name
  | [] => [cur]
  | b :: bs => if b = 0x2f then cur :: namesFrom [] bs else namesFrom (cur ++ [b]) bs

structure TreeState where
  tree : FileTree
  /-- how many files were opened -/
  files : ℕ

/-- The rest of a host with one tree of files. -/
structure TreeHost where
  /-- the directory that the server was started in -/
  cwd : ℕ
  num : ℕ → FileNum
  /-- what else `lstat` says of a file -/
  stat : FileTree → ℕ → Metadata
  /-- other reasons to refuse a call, such as permissions -/
  refuses : HostOp → FileTree → Option Errno

def FileType.ofKind : Kind → FileType
  | .file => .file
  | .dir => .dir
  | .link .. => .symlink

/-- `O_WRONLY | O_RDWR | O_CREAT | O_TRUNC` -/
def CHANGES_FILE : UInt32 := 0o1 ||| 0o2 ||| 0o100 ||| 0o1000

/-- Calls that may take entries away. -/
def HostOp.removes : HostOp → Bool
  | .rename .. | .removeDir _ | .removeFile _ => true
  | _ => false

/-- The requests that bind fids or change the tree. -/
def Fcall.OnTree : Fcall → Prop
  | .tattach .. | .twalk .. | .tlcreate .. | .tmkdir .. | .trenameat .. | .tunlinkat ..
  | .tclunk _ => True
  | _ => False

def Fcall.removes : Fcall → Bool
  | .trenameat .. | .tunlinkat .. => true
  | _ => false

/-- The request binds the fid, moves it or unbinds it. -/
def Fcall.Rebinds (f : UInt32) : Fcall → Prop
  | .tattach fid .. | .twalk _ fid _ | .tlcreate fid .. | .tclunk fid => fid = f
  | _ => False

namespace TreeHost

variable (h : TreeHost)

/-- Where a path starts. -/
def start (t : FileTree) (path : PathBuf) : ℕ := if isAbsolute path.bytes then t.root else h.cwd

def place (t : FileTree) (last : Bool) (path : PathBuf) : Except Fault (Trail × Place) :=
  if path.bytes = [] then .error .noEntry
  else t.lookup last (h.start t path) (namesFrom [] path.bytes)

def slot (t : FileTree) (path : PathBuf) : Except Fault Tree.Slot :=
  if path.bytes = [] then .error .noEntry
  else t.slot (h.start t path) (namesFrom [] path.bytes)

/-- The file that a path denotes, a link at its end being the link itself. -/
def file (t : FileTree) (path : PathBuf) : Option (ℕ × Inode FileNum) :=
  match h.place t false path with
  | .ok (_, .found i) => (t.inode i).map fun x => (i, x)
  | _ => none

/-- The entries of directories that a path goes through. -/
def way (t : FileTree) (path : PathBuf) : Trail :=
  match h.place t false path with
  | .ok (trail, _) => trail
  | .error _ => []

def lstat (t : FileTree) (path : PathBuf) : Except IoError Metadata :=
  match h.place t false path with
  | .error e => .error (.ofErrno (.ofFault e))
  | .ok _ =>
    match h.file t path with
    | none => .error (.ofErrno Errno.ENOENT)
    | some (i, x) =>
      .ok { h.stat t i with
        dev := x.attr.dev, ino := x.attr.ino, fileType := FileType.ofKind x.kind }

def openAt (t : FileTree) (path : PathBuf) (oflags : UInt32) : Except Fault FileTree :=
  match h.place t true path with
  | .error e => .error e
  | .ok (_, .found i) =>
    if t.isDir i && (oflags &&& CHANGES_FILE != 0) then .error .isDir else .ok t
  | .ok (_, .missing dir name) =>
    if oflags &&& 0o100 = 0 then .error .noEntry
    else if hdir : t.isDir dir = true then .ok (t.addFile dir name (h.num t.next) hdir)
    else .error .notDir

def createDir (t : FileTree) (path : PathBuf) : Except Fault FileTree :=
  match h.slot t path with
  | .error e => .error e
  | .ok slot =>
    if slot.node ≠ none then .error .exist
    else if hdir : t.isDir slot.dir = true then
      .ok (t.addDir slot.dir slot.name (h.num t.next) hdir)
    else .error .notDir

def rename (t : FileTree) (src dst : PathBuf) : Except Fault FileTree :=
  match h.slot t src, h.slot t dst with
  | .ok src, .ok dst => t.move src dst
  | .error e, _ => .error e
  | _, .error e => .error e

def removeDir (t : FileTree) (path : PathBuf) : Except Fault FileTree :=
  (h.slot t path).bind t.removeDir

def removeFile (t : FileTree) (path : PathBuf) : Except Fault FileTree :=
  (h.slot t path).bind t.removeFile

/-- A call that changes the tree or fails. -/
def changed (s : TreeState) : Except Fault FileTree → Except IoError Unit × TreeState
  | .ok t => (.ok (), { s with tree := t })
  | .error e => (.error (.ofErrno (.ofFault e)), s)

def call : (o : HostOp) → TreeState → HostRes o × TreeState
  | .symlinkMetadata path, s => (h.lstat s.tree path, s)
  | .open path oflags _, s =>
    match h.openAt s.tree path oflags with
    | .ok t => (.ok s.files, ⟨t, s.files + 1⟩)
    | .error e => (.error (.ofFault e), s)
  | .createDir path, s => changed s (h.createDir s.tree path)
  | .rename src dst, s => changed s (h.rename s.tree src dst)
  | .removeDir path, s => changed s (h.removeDir s.tree path)
  | .removeFile path, s => changed s (h.removeFile s.tree path)
  | o, s => (failed ENOSYS o, s)

def exec (o : HostOp) (s : TreeState) : HostRes o × TreeState :=
  match h.refuses o s.tree with
  | some e => (failed e o, s)
  | none => h.call o s

abbrev toHost : Host where
  State := TreeState
  exec := h.exec
  lstat_state path s := by
    unfold exec
    split
    · rfl
    · rfl

/-! What the calls keep. -/

variable {h : TreeHost} {s : TreeState} {t u : FileTree} {path : PathBuf}

theorem extends_openAt {oflags : UInt32} (ho : h.openAt t path oflags = .ok u) : t.Extends u := by
  unfold openAt at ho
  split at ho
  · cases ho
  · split_ifs at ho
    cases ho
    exact .refl t
  next dir name hmissing =>
    split_ifs at ho
    cases ho
    unfold place at hmissing
    split_ifs at hmissing
    exact Tree.extends_addFile _ (Tree.resolve_missing hmissing) _

theorem extends_createDir (hc : h.createDir t path = .ok u) : t.Extends u := by
  unfold createDir at hc
  split at hc
  · cases hc
  next slot hslot =>
    split_ifs at hc with hnode
    cases hc
    unfold TreeHost.slot at hslot
    split_ifs at hslot
    exact Tree.extends_addDir _ (Tree.entry_of_slot hslot (not_not.mp hnode)) _

theorem keeps_rename {src dst : PathBuf} (hr : h.rename t src dst = .ok u) : t.Keeps u := by
  unfold rename at hr
  split at hr
  · exact Tree.keeps_move hr
  · cases hr
  · cases hr

theorem keeps_removeDir (hr : h.removeDir t path = .ok u) : t.Keeps u := by
  unfold removeDir at hr
  obtain ⟨slot, -, hremove⟩ := bind_eq_ok.mp hr
  exact Tree.keeps_removeDir hremove

theorem keeps_removeFile (hr : h.removeFile t path = .ok u) : t.Keeps u := by
  unfold removeFile at hr
  obtain ⟨slot, -, hremove⟩ := bind_eq_ok.mp hr
  exact Tree.keeps_removeFile hremove

theorem changed_of {R : FileTree → FileTree → Prop} (hrefl : ∀ t, R t t)
    {r : Except Fault FileTree} (hr : ∀ u, r = .ok u → R s.tree u) :
    R s.tree (changed s r).2.tree := by
  cases r with
  | ok u => exact hr u rfl
  | error e => exact hrefl s.tree

/-- A call that takes no entry away only adds to the tree. -/
theorem extends_exec {o : HostOp} (ho : o.removes = false) (s : TreeState) :
    s.tree.Extends (h.exec o s).2.tree := by
  unfold exec
  split
  · exact .refl s.tree
  · cases o with
    | «open» path oflags omode =>
      unfold call
      dsimp only
      split
      next t ht => exact extends_openAt ht
      next e he => exact .refl s.tree
    | createDir path => exact changed_of .refl fun u hu => extends_createDir hu
    | rename | removeDir | removeFile => cases ho
    | _ => exact .refl s.tree

theorem keeps_exec (o : HostOp) (s : TreeState) : s.tree.Keeps (h.exec o s).2.tree := by
  cases ho : o.removes with
  | false => exact (extends_exec ho s).toKeeps
  | true =>
    unfold exec
    split
    · exact .refl s.tree
    · cases o with
      | rename src dst => exact changed_of .refl fun u hu => keeps_rename hu
      | removeDir path => exact changed_of .refl fun u hu => keeps_removeDir hu
      | removeFile path => exact changed_of .refl fun u hu => keeps_removeFile hu
      | _ => cases ho

/-- A path denotes the same file as long as the entries on its way are kept. -/
theorem file_congr {x : ℕ × Inode FileNum} (hkeeps : t.Keeps u) (hfile : h.file t path = some x)
    (hway : t.KeepsOn u (h.way t path)) : h.file u path = some x := by
  unfold file at hfile ⊢
  split at hfile
  next trail i hplace =>
    have hplace' : h.place u false path = .ok (trail, .found i) := by
      unfold way at hway
      rw [hplace] at hway
      unfold place at hplace ⊢
      split_ifs at hplace ⊢
      have hstart : h.start u path = h.start t path := by
        unfold start
        rw [hkeeps.root]
      rw [hstart]
      exact Tree.resolve_congr hkeeps hplace hway
    obtain ⟨inode, hinode, rfl⟩ := Option.map_eq_some_iff.mp hfile
    simp only [hplace', hkeeps.inode i inode hinode, Option.map_some]
  · cases hfile

/-! What handlers keep. -/

/-- The handler takes the tree from one to a related one. -/
def Leads (h : TreeHost) (R : FileTree → FileTree → Prop) {α : Type} (p : UnpfsHandler α) : Prop :=
  ∀ s : Host.Objs TreeState, R s.host.tree (h.toHost.runs p s).2.host.tree

section
variable {R : FileTree → FileTree → Prop} {α β : Type}

theorem Leads.mono {R' : FileTree → FileTree → Prop} {p : UnpfsHandler α} (hp : h.Leads R p)
    (hR : ∀ t u, R t u → R' t u) : h.Leads R' p := fun s => hR _ _ (hp s)

theorem leads_bind (htrans : ∀ t u v, R t u → R u v → R t v) {p : UnpfsHandler α}
    {f : α → UnpfsHandler β} (hp : h.Leads R p) (hf : ∀ a, h.Leads R (f a)) :
    h.Leads R (p >>= f) := by
  intro s
  have hfirst := hp s
  rw [Host.runs_bind]
  cases hr : h.toHost.runs p s with
  | mk r s' =>
    rw [hr] at hfirst
    cases r with
    | ok a => exact htrans _ _ _ hfirst (hf a s')
    | error e => exact hfirst

/-- A handler that leaves the host alone. -/
theorem leads_of_host (hrefl : ∀ t, R t t) {p : UnpfsHandler α}
    (hp : ∀ s, (h.toHost.runs p s).2.host = s.host) : h.Leads R p := by
  intro s
  rw [hp s]
  exact hrefl _

theorem leads_then (hrefl : ∀ t, R t t) {p : UnpfsHandler α} {f : α → UnpfsHandler β}
    (hp : ∀ s, (h.toHost.runs p s).2.host = s.host) (hf : ∀ a, h.Leads R (f a)) :
    h.Leads R (p >>= f) := by
  intro s
  have hhost := hp s
  rw [Host.runs_bind]
  cases hr : h.toHost.runs p s with
  | mk r s' =>
    rw [hr] at hhost
    rw [← hhost]
    cases r with
    | ok a => exact hf a s'
    | error e => exact hrefl _

theorem leads_getQid (hrefl : ∀ t, R t t) (path : PathBuf) : h.Leads R (getQid path) :=
  leads_of_host hrefl fun s => by rw [Host.runs_getQid]

theorem leads_walkLoop (hrefl : ∀ t, R t t) (wnames : List String) (i : ℕ) (path : PathBuf)
    (wqids : List Qid) : h.Leads R (Unpfs.walkLoop wnames i path wqids) :=
  leads_of_host hrefl fun s => by rw [runs_walkLoop]

/-- A call to the host. -/
theorem leads_io {o : HostOp} (hR : ∀ s : TreeState, R s.tree (h.exec o s).2.tree)
    {p : UnpfsHandler α}
    (hp : ∀ s, (h.toHost.runs p s).2.host = (h.exec o s.host).2) : h.Leads R p := by
  intro s
  rw [hp s]
  exact hR s.host

end

theorem extends_trans (t u v : FileTree) (h : t.Extends u) (h' : u.Extends v) : t.Extends v :=
  h.trans h'

theorem leads_of_routed {realroot : PathBuf} {fids : FidTable} {aux : ObjId} {body : Fcall}
    {handler : UnpfsHandler Fcall} (hrouted : Routed realroot fids aux body handler)
    (hbody : body.OnTree) (hremoves : body.removes = false) : h.Leads Tree.Extends handler := by
  cases hrouted with
  | rattach fid afid uname aname nUname =>
    refine leads_then .refl (fun _ => rfl) fun _ => ?_
    exact leads_bind extends_trans (leads_getQid .refl _) fun _ => leads_of_host .refl fun _ => rfl
  | rwalk newfid wnames hb =>
    refine leads_then .refl (fun _ => rfl) fun path => ?_
    refine leads_bind extends_trans (leads_walkLoop .refl _ _ _ _) fun x => ?_
    refine leads_then .refl (fun _ => rfl) fun _ => ?_
    exact leads_of_host .refl fun _ => rfl
  | rlcreate name flags mode gid hb =>
    refine leads_then .refl (fun _ => rfl) fun path => ?_
    refine leads_bind extends_trans (leads_io (extends_exec rfl) fun _ => rfl) fun fd => ?_
    refine leads_bind extends_trans (leads_getQid .refl _) fun qid => ?_
    refine leads_then .refl (fun _ => rfl) fun _ => ?_
    refine leads_then .refl (fun _ => rfl) fun _ => ?_
    exact leads_of_host .refl fun _ => rfl
  | rmkdir name mode gid hb =>
    refine leads_then .refl (fun _ => rfl) fun path => ?_
    refine leads_bind extends_trans (leads_io (extends_exec rfl) fun _ => rfl) fun _ => ?_
    refine leads_bind extends_trans (leads_getQid .refl _) fun qid => ?_
    exact leads_of_host .refl fun _ => rfl
  | rclunk hb => exact leads_of_host .refl fun _ => rfl
  | unsupported => exact leads_of_host .refl fun _ => rfl
  | rrenameat | runlinkat => cases hremoves
  | rstatfs | rlopen | rreadlink | rgetattr | rsetattr | rreaddir | rfsync | rread | rwrite
  | rversion => exact hbody.elim

theorem keeps_trans (t u v : FileTree) (h : t.Keeps u) (h' : u.Keeps v) : t.Keeps v := h.trans h'

theorem keeps_of_routed {realroot : PathBuf} {fids : FidTable} {aux : ObjId} {body : Fcall}
    {handler : UnpfsHandler Fcall} (hrouted : Routed realroot fids aux body handler)
    (hbody : body.OnTree) : h.Leads Tree.Keeps handler := by
  cases hremoves : body.removes with
  | false => exact (leads_of_routed hrouted hbody hremoves).mono fun _ _ ht => ht.toKeeps
  | true =>
    cases hrouted with
    | rrenameat oldname newname hb hc =>
      refine leads_then .refl (fun _ => rfl) fun oldpath => ?_
      refine leads_then .refl (fun _ => rfl) fun newpath => ?_
      refine leads_bind keeps_trans (leads_io (keeps_exec _) fun _ => rfl) fun _ => ?_
      exact leads_of_host .refl fun _ => rfl
    | runlinkat name flags hb =>
      refine leads_then .refl (fun _ => rfl) fun path => ?_
      refine leads_bind keeps_trans (leads_io (keeps_exec _) fun _ => rfl) fun attr => ?_
      dsimp only
      split_ifs
      · refine leads_bind keeps_trans (leads_io (keeps_exec _) fun _ => rfl) fun _ => ?_
        exact leads_of_host .refl fun _ => rfl
      · refine leads_bind keeps_trans (leads_io (keeps_exec _) fun _ => rfl) fun _ => ?_
        exact leads_of_host .refl fun _ => rfl
    | unsupported => exact leads_of_host .refl fun _ => rfl
    | _ => cases hremoves

end TreeHost

/-! Runs of requests. -/

theorem execObjs_eq (h : Host) : execObjs h.exec = h.objsExec := by
  funext o s
  cases o <;> rfl

/-- One request after the other, all of which succeed. -/
def answer (realroot : PathBuf) (h : TreeHost) (s : Server (Host.Objs TreeState)) (msg : Msg) :
    Option (Server (Host.Objs TreeState)) :=
  match dispatchOnce (Unpfs realroot) (objsBackend h.exec) msg s with
  | (.ok _, t) => some t
  | (.error _, _) => none

/-- A server that nobody has attached to. -/
def Server.start {σ : Type} (world : σ) : Server σ where
  fids := .new
  nextAux := 0
  world := world
  fresh f b hb := by simp at hb

section
variable {h : TreeHost} {realroot : PathBuf} {s t : Server (Host.Objs TreeState)} {msg : Msg}

theorem eq_of_answer (ha : answer realroot h s msg = some t) :
    t = (dispatchOnce (Unpfs realroot) (objsBackend h.exec) msg s).2 ∧
      ∃ response, (dispatchOnce (Unpfs realroot) (objsBackend h.exec) msg s).1 = .ok response := by
  unfold answer at ha
  split at ha
  next response u hdispatch =>
    cases ha
    rw [hdispatch]
    exact ⟨rfl, response, rfl⟩
  · cases ha

theorem owns_answer (s : Server (Host.Objs TreeState)) (msg : Msg)
    (t : Server (Host.Objs TreeState)) (hs : s.Owns) (ha : answer realroot h s msg = some t) :
    t.Owns := by
  rw [(eq_of_answer ha).1]
  exact (dispatchOnce_frame h.exec realroot msg s hs).2.2

theorem owns_start {σ : Type} (world : σ) : (Server.start world).Owns := by
  intro f g b c hb
  simp [Server.start] at hb

theorem Fcall.Alters.eq_of_not_rebinds {body : Fcall} {f : UInt32}
    {before after : Option UnpfsFid} (halters : body.Alters f before after) (hbody : body.OnTree)
    (hf : ¬ body.Rebinds f) : after = before := by
  have hne : ∀ g : UInt32, ¬ g = f → ¬ f = g := fun g hg hfg => hg hfg.symm
  cases body with
  | tattach | twalk | tlcreate | tclunk => rwa [Fcall.Alters, if_neg (hne _ hf)] at halters
  | tmkdir | trenameat | tunlinkat => exact halters
  | _ => exact hbody.elim

/-- A request that does not bind, move or unbind the fid leaves its path alone. -/
theorem entry_answer (hs : s.Owns) (ha : answer realroot h s msg = some t)
    (hbody : msg.body.OnTree) {f : UInt32} (hf : ¬ msg.body.Rebinds f) :
    t.entry f = s.entry f := by
  obtain ⟨rfl, response, hr⟩ := eq_of_answer ha
  exact (alters_of_ok hs hr f).eq_of_not_rebinds hbody hf

/-- What a request does to the tree. -/
theorem tree_answer (ha : answer realroot h s msg = some t) (hbody : msg.body.OnTree) :
    s.world.host.tree.Keeps t.world.host.tree ∧
      (msg.body.removes = false → s.world.host.tree.Extends t.world.host.tree) := by
  obtain ⟨rfl, response, hr⟩ := eq_of_answer ha
  obtain ⟨handler, hrouted, -, hworld, -⟩ := entry_of_ok hr
  have hcreated : (s.created (objsBackend h.exec) msg.body).host = s.world.host := by
    unfold Server.created
    split_ifs <;> rfl
  have hruns : (dispatchOnce (Unpfs realroot) (objsBackend h.exec) msg s).2.world =
      (h.toHost.runs handler (s.created (objsBackend h.exec) msg.body)).2 := by
    rw [hworld, execObjs_eq h.toHost]
    rfl
  rw [hruns, ← hcreated]
  exact ⟨TreeHost.keeps_of_routed hrouted hbody _,
    fun hremoves => TreeHost.leads_of_routed hrouted hbody hremoves _⟩

/-- A step that removes no entry on the way of the path. -/
def Undisturbed (realroot : PathBuf) (h : TreeHost) (path : PathBuf)
    (s : Server (Host.Objs TreeState)) (msg : Msg) : Prop :=
  msg.body.removes = true → ∀ t, answer realroot h s msg = some t →
    s.world.host.tree.KeepsOn t.world.host.tree (h.way s.world.host.tree path)

/-- A fid keeps its path, and the path denotes the same file, until a `Trenameat` or a `Tunlinkat`
changes an entry on its way. -/
theorem fid_keeps_file {world : Host.Objs TreeState} {msgs₁ msgs₂ : List Msg}
    (h₁ : runs (answer realroot h) (.start world) msgs₁ = some s)
    (h₂ : runs (answer realroot h) s msgs₂ = some t)
    (htree : ∀ msg ∈ msgs₁ ++ msgs₂, msg.body.OnTree) {f : UInt32} {fid : UnpfsFid}
    {x : ℕ × Inode FileNum} (hf : s.entry f = some fid)
    (hfile : h.file s.world.host.tree fid.realpath = some x)
    (hrebinds : ∀ msg ∈ msgs₂, ¬ msg.body.Rebinds f)
    (hway : Along (answer realroot h) (Undisturbed realroot h fid.realpath) s msgs₂) :
    t.entry f = some fid ∧ h.file t.world.host.tree fid.realpath = some x := by
  have howns : s.Owns := runs_invariant owns_answer h₁ (owns_start world)
  have halong : Along (answer realroot h) (fun s msg => (msg.body.OnTree ∧ ¬ msg.body.Rebinds f) ∧
      Undisturbed realroot h fid.realpath s msg) s msgs₂ := by
    refine Along.and (Along.of_forall (fun msg hmsg => ?_) s) hway
    exact ⟨htree msg (List.mem_append_right _ hmsg), hrebinds msg hmsg⟩
  have hinv := runs_invariant_along (I := fun s => s.Owns ∧ s.entry f = some fid ∧
    h.file s.world.host.tree fid.realpath = some x) ?_ halong h₂ ⟨howns, hf, hfile⟩
  · exact hinv.2
  · rintro s msg t ⟨howns, hf, hfile⟩ ⟨⟨hbody, hrebinds⟩, hway⟩ ha
    obtain ⟨hkeeps, hextends⟩ := tree_answer ha hbody
    refine ⟨owns_answer s msg t howns ha, ?_, ?_⟩
    · rw [entry_answer howns ha hbody hrebinds, hf]
    · cases hremoves : msg.body.removes with
      | false => exact TreeHost.file_congr hkeeps hfile ((hextends hremoves).keepsOn _)
      | true => exact TreeHost.file_congr hkeeps hfile (hway hremoves t ha)

end
/-! A directory with one file. -/

def oneFileTree : FileTree where
  inode i := if i = 0 then some ⟨.dir, ⟨1, 2⟩⟩ else if i = 1 then some ⟨.file, ⟨1, 3⟩⟩ else none
  names i := if i = 0 then [(UP, 0), ([0x61], 1)] else []
  root := 0
  next := 2
  unused i hi := by
    have h0 : i ≠ 0 := by omega
    have h1 : i ≠ 1 := by omega
    simp [h0, h1]

def plainHost : TreeHost where
  cwd := 0
  num i := ⟨1, i.toUInt64⟩
  stat _ _ := ⟨0, 0, .file, 0o644, 0, 0, 1, 0, 0, 4096, 0, 0, 0, 0, 0, 0, 0⟩
  refuses _ _ := none

def oneFileWorld : Host.Objs TreeState := ⟨fun _ => UnpfsFid.default, oneFileTree, 0⟩

/-- Fid 1 is the root and fid 2 is `/a`. -/
def walkToFile : List Msg := [⟨1, .tattach 1 0xffffffff "" "" 0⟩, ⟨1, .twalk 1 2 ["a"]⟩]

theorem walkToFile_isSome : (runs (answer (.ofString "/") plainHost) (.start oneFileWorld)
    walkToFile).isSome = true := rfl

def atFile : Server (Host.Objs TreeState) :=
  (runs (answer (.ofString "/") plainHost) (.start oneFileWorld) walkToFile).get walkToFile_isSome

/-- Another directory is made and renamed. -/
def renamesOther : List Msg := [⟨1, .tmkdir 1 "d" 0o755 0⟩, ⟨1, .trenameat 1 "d" 1 "e"⟩]

theorem fid_keeps_file_renamesOther : ∃ t,
    runs (answer (.ofString "/") plainHost) atFile renamesOther = some t ∧
      t.entry 2 = some ⟨.ofString "/a", none⟩ ∧
      plainHost.file t.world.host.tree (.ofString "/a") = some (1, ⟨.file, ⟨1, 3⟩⟩) := by
  have hrun : runs (answer (.ofString "/") plainHost) atFile renamesOther =
      some ((runs (answer (.ofString "/") plainHost) atFile renamesOther).get rfl) := rfl
  refine ⟨_, hrun, ?_⟩
  refine fid_keeps_file (Option.some_get walkToFile_isSome).symm hrun ?_ rfl rfl ?_ ?_
  · simp [walkToFile, renamesOther, Fcall.OnTree]
  · simp [renamesOther, Fcall.Rebinds]
  · have hmkdir : answer (.ofString "/") plainHost atFile ⟨1, .tmkdir 1 "d" 0o755 0⟩ =
        some ((answer (.ofString "/") plainHost atFile ⟨1, .tmkdir 1 "d" 0o755 0⟩).get rfl) := rfl
    refine ⟨fun hremoves => (by cases hremoves), fun u hu => ⟨fun _ v hv e he i hi => ?_, ?_⟩⟩
    · obtain rfl := Option.some.inj (hmkdir.symm.trans hu)
      obtain rfl := Option.some.inj ((Option.some_get rfl).trans hv)
      obtain rfl : e = (0, [0x61]) := List.mem_singleton.mp he
      exact hi
    · exact fun _ _ => True.intro

/-- The file of fid 2 is renamed. -/
theorem not_fid_keeps_file : ¬ ∀ (realroot : PathBuf) (h : TreeHost) (world : Host.Objs TreeState)
    (msgs₁ msgs₂ : List Msg) (s t : Server (Host.Objs TreeState)),
    runs (answer realroot h) (.start world) msgs₁ = some s →
    runs (answer realroot h) s msgs₂ = some t →
    (∀ msg ∈ msgs₁ ++ msgs₂, msg.body.OnTree) →
    ∀ (f : UInt32) (fid : UnpfsFid) (x : ℕ × Inode FileNum), s.entry f = some fid →
    h.file s.world.host.tree fid.realpath = some x →
    (∀ msg ∈ msgs₂, ¬ msg.body.Rebinds f) →
    (∃ dir name, t.world.host.tree.entry dir name = some x.1) →
    ∃ fid', t.entry f = some fid' ∧ h.file t.world.host.tree fid'.realpath = some x := by
  intro hclaim
  have hrun : runs (answer (.ofString "/") plainHost) atFile [⟨1, .trenameat 1 "a" 1 "b"⟩] =
      some ((runs (answer (.ofString "/") plainHost) atFile
        [⟨1, .trenameat 1 "a" 1 "b"⟩]).get rfl) := rfl
  obtain ⟨fid, hfid, hfile⟩ := hclaim (.ofString "/") plainHost oneFileWorld walkToFile
    [⟨1, .trenameat 1 "a" 1 "b"⟩] atFile _ (Option.some_get walkToFile_isSome).symm hrun
    (by simp [walkToFile, Fcall.OnTree]) 2 ⟨.ofString "/a", none⟩ (1, ⟨.file, ⟨1, 3⟩⟩) rfl rfl
    (by simp [Fcall.Rebinds]) ⟨0, [0x62], rfl⟩
  cases hfid
  cases hfile

end P9cpu.Ninep
