import P9cpu.Ninep.Listing
import P9cpu.Ninep.Rename

/-! Directories of a tree: what a listing says of a name, and where a walk to it leads. -/
namespace P9cpu.Ninep
open Core Prog
open PathBuf (isAbsolute)

namespace TreeHost

variable (h : TreeHost) (t : FileTree)

/-- What the host says of a file. -/
def attr (i : ℕ) : Except IoError Metadata :=
  match t.inode i with
  | none => .error (.ofErrno Errno.ENOENT)
  | some x => .ok { h.stat t i with
      dev := x.attr.dev, ino := x.attr.ino, fileType := FileType.ofKind x.kind }

/-- The names that `read_dir` gives: all but `.` and `..`. -/
def dirNames (i : ℕ) : List Name := ((t.names i).map Prod.fst).filter (· ≠ UP)

/-- A directory at the path is opened, also through a link at its end. -/
def readDir (path : PathBuf) : Except IoError (List (Except IoError HostDirEntry)) :=
  match h.place t true path with
  | .error e => .error (.ofErrno (.ofFault e))
  | .ok (_, .missing ..) => .error (.ofErrno Errno.ENOENT)
  | .ok (_, .found i) =>
    if t.isDir i then .ok ((dirNames t i).map fun name => .ok ⟨i, name⟩)
    else .error (.ofErrno Errno.ENOTDIR)

/-- `fstatat` with the directory of the stream. -/
def entryMetadata (entry : HostDirEntry) : Except IoError Metadata :=
  match t.entry entry.stream entry.fileName with
  | none => .error (.ofErrno Errno.ENOENT)
  | some i => h.attr t i

/-- The host with directories that can be listed. Calls that only look are not refused. -/
def browseExec : (o : HostOp) → TreeState → HostRes o × TreeState
  | .symlinkMetadata path, s => (h.lstat s.tree path, s)
  | .readDir path, s => (h.readDir s.tree path, s)
  | .entryMetadata entry, s => (h.entryMetadata s.tree entry, s)
  | o, s => h.exec o s

abbrev browse : Host where
  State := TreeState
  exec := h.browseExec
  lstat_state _ _ := rfl

end TreeHost

/-- Names as directories have them. -/
def ProperNames (t : FileTree) : Prop :=
  ∀ i, ∀ x ∈ t.names i, x.1 ≠ [] ∧ x.1 ≠ SELF ∧ 0x2f ∉ x.1

/-! Paths with one more name. -/

theorem namesFrom_of_not_mem {cur x : List UInt8} (hx : 0x2f ∉ x) :
    namesFrom cur x = [cur ++ x] := by
  induction x generalizing cur with
  | nil => simp [namesFrom]
  | cons b x ih =>
    have hb : b ≠ 0x2f := fun hb => hx (by simp [hb])
    have hrest : 0x2f ∉ x := fun hmem => hx (by simp [hmem])
    rw [namesFrom, if_neg hb, ih hrest, List.append_assoc]
    rfl

theorem namesFrom_append {cur bs x : List UInt8} (hx : 0x2f ∉ x) :
    namesFrom cur (bs ++ 0x2f :: x) = namesFrom cur bs ++ [x] := by
  induction bs generalizing cur with
  | nil =>
    have hslash : namesFrom cur (0x2f :: x) = cur :: namesFrom [] x := if_pos rfl
    rw [List.nil_append, hslash, namesFrom_of_not_mem hx]
    rfl
  | cons b bs ih =>
    rw [List.cons_append, namesFrom, namesFrom]
    split_ifs
    · rw [ih]
      rfl
    · exact ih

/-- The names of a path and of the same path with a name pushed. -/
theorem names_push {path : PathBuf} {name : String} (hpath : path.bytes ≠ [])
    (hslash : 0x2f ∉ strBytes name) :
    isAbsolute (path.push name).bytes = isAbsolute path.bytes ∧ (path.push name).bytes ≠ [] ∧
      ∃ names tail, (∀ m ∈ tail, m = []) ∧ namesFrom [] path.bytes = names ++ tail ∧
        namesFrom [] (path.push name).bytes = names ++ [strBytes name] := by
  have hrel : isAbsolute (strBytes name) = false := by
    unfold isAbsolute
    rw [decide_eq_false_iff_not]
    intro hhead
    exact hslash (List.mem_of_head? hhead)
  have hhead : ∀ more : List UInt8, isAbsolute (path.bytes ++ more) = isAbsolute path.bytes := by
    intro more
    unfold isAbsolute
    rw [List.head?_append_of_ne_nil _ hpath]
  unfold PathBuf.push
  dsimp only
  rw [if_neg (by rw [hrel]; simp)]
  by_cases hlast : path.bytes.getLast? = some 0x2f
  · rw [if_pos (Or.inr hlast)]
    refine ⟨hhead _, by simp [hpath], ?_⟩
    obtain ⟨bs, hbs⟩ := List.getLast?_eq_some_iff.mp hlast
    refine ⟨namesFrom [] bs, [[]], by simp, ?_, ?_⟩
    · rw [hbs]
      exact namesFrom_append (by simp)
    · rw [hbs, List.append_assoc]
      exact namesFrom_append hslash
  · rw [if_neg (by simp [hpath, hlast])]
    refine ⟨hhead _, by simp, namesFrom [] path.bytes, [], by simp, by simp, ?_⟩
    exact namesFrom_append hslash

namespace TreeHost

variable {h : TreeHost} {t : FileTree} {path : PathBuf} {trail : Trail} {i : ℕ} {name : String}

theorem lstat_of_found (hplace : (h.place t false path).map Prod.snd = .ok (.found i)) :
    h.lstat t path = h.attr t i := by
  unfold lstat file attr
  cases hp : h.place t false path with
  | error e => rw [hp] at hplace; cases hplace
  | ok x =>
    obtain ⟨trail, place⟩ := x
    rw [hp] at hplace
    cases hplace
    dsimp only
    cases t.inode i <;> rfl

/-- A name in a directory is looked up in the file that the path of the directory leads to. -/
theorem place_push (hplace : h.place t true path = .ok (trail, .found i))
    (hslash : 0x2f ∉ strBytes name) :
    (h.place t false (path.push name)).map Prod.snd = t.look i (strBytes name) := by
  unfold place at hplace ⊢
  split_ifs at hplace with hpath
  obtain ⟨habs, hne, names, tail, htail, hnames, hpushed⟩ := names_push hpath hslash
  rw [if_neg hne, hpushed]
  have hstart : h.start t (path.push name) = h.start t path := by
    unfold start
    rw [habs]
  rw [hstart]
  rw [hnames] at hplace
  exact Tree.lookup_snoc htail hplace

/-- The entry of a directory and the path to it have the same metadata. -/
theorem lstat_push (hplace : h.place t true path = .ok (trail, .found i))
    (hdir : t.isDir i = true) (hproper : strBytes name ≠ [] ∧ strBytes name ≠ SELF ∧
      0x2f ∉ strBytes name) {attr : Metadata}
    (hattr : h.entryMetadata t ⟨i, strBytes name⟩ = .ok attr) :
    h.lstat t (path.push name) = .ok attr := by
  obtain ⟨hne, hself, hslash⟩ := hproper
  unfold entryMetadata at hattr
  dsimp only at hattr
  cases hentry : t.entry i (strBytes name) with
  | none =>
    rw [hentry] at hattr
    cases hattr
  | some j =>
    rw [hentry] at hattr
    dsimp only at hattr
    have hlook : t.look i (strBytes name) = .ok (.found j) := by
      unfold Tree.look
      rw [if_neg (by rw [hdir]; simp), if_neg (by simp [hne, hself]), hentry]
      dsimp only
      cases hinode : t.inode j with
      | none =>
        rw [TreeHost.attr, hinode] at hattr
        cases hattr
      | some x => rfl
    rw [lstat_of_found ((place_push hplace hslash).trans hlook)]
    exact hattr

end TreeHost

/-! Listings and walks. -/

section
variable {C : (o : UnpfsOp) → UnpfsRes o → Prop} {k : ℕ} {page : List HostDirEntry}
  {shown : List DirEntry}

theorem Shows.getElem (hshows : Shows C k page shown) {j : ℕ} {e : DirEntry}
    (he : shown[j]? = some e) : ∃ entry attr, page[j]? = some entry ∧
      C (.host (.entryMetadata entry)) (.ok attr) ∧ e.qid = qidFromAttr attr := by
  induction hshows generalizing j with
  | nil => simp at he
  | @cons i entry attr page shown hattr rest ih =>
    cases j with
    | zero =>
      cases he
      exact ⟨entry, attr, rfl, hattr, rfl⟩
    | succ j => exact ih he

end

section
variable {h : TreeHost} {t : FileTree} {realroot path : PathBuf} {fid : UInt32} {b : Fid}
  {s : Server (Host.Objs TreeState)} {off : UInt64} {count : UInt32}

/-- What a `Treaddir` is told by the host of a tree. -/
def TreeHost.TreeAnswers (h : TreeHost) (t : FileTree) (path : PathBuf) :
    (o : UnpfsOp) → UnpfsRes o → Prop
  | .realpathRead _, r => r = path
  | .host (.symlinkMetadata p), r => r = h.lstat t p
  | .host (.readDir p), r => r = h.readDir t p
  | .host (.entryMetadata entry), r => r = h.entryMetadata t entry
  | _, _ => True

/-- The operations that a `Treaddir` performs. -/
def UnpfsOp.Lists (a : ObjId) : UnpfsOp → Prop
  | .realpathRead obj | .realpathUnread obj => obj = a
  | .host (.symlinkMetadata _) | .host (.readDir _) | .host (.entryMetadata _) => True
  | _ => False

/-- The reply to a `Treaddir` lists the directory that the path of the fid leads to. -/
theorem TreeHost.listed_of_treaddir (hb : s.fids.get fid = some b)
    (hpath : (s.world.objs b.aux).realpath = path) (htree : s.world.host.tree = t)
    {msg : Msg} (hmsg : msg.body = .treaddir fid off count) {d : DirEntryData}
    (hreply : (dispatchOnce (Unpfs realroot) h.browse.backend msg s).1 = .ok (.rreaddir d)) :
    ∃ trail i dots page shown, h.place t true path = .ok (trail, .found i) ∧
      t.isDir i = true ∧ Listed (h.TreeAnswers t path) off count
        ((dirNames t i).map fun name => .ok ⟨i, name⟩) dots page shown d := by
  have hhandler : Achieves (UnpfsOp.Lists b.aux) (h.TreeAnswers t path) True _
      (Unpfs.rreaddir b off count) :=
    achieves_rreaddir rfl rfl (fun _ _ => True.intro) (fun _ _ _ _ => True.intro) fun _ _ =>
      ⟨True.intro, fun _ _ => True.intro, fun _ _ =>
        ⟨fun _ _ => True.intro, fun _ _ => ⟨True.intro, fun _ _ => True.intro⟩⟩⟩
  have hexec : ∀ o (w : Host.Objs TreeState), w.objs = s.world.objs ∧ w.host.tree = t →
      UnpfsOp.Lists b.aux o → h.TreeAnswers t path o (h.browse.objsExec o w).1 ∧
        (h.browse.objsExec o w).2.objs = s.world.objs ∧
        (h.browse.objsExec o w).2.host.tree = t := by
    rintro o w ⟨hobjs, hw⟩ ho
    cases o with
    | realpathRead obj =>
      change obj = b.aux at ho
      subst ho
      refine ⟨?_, hobjs, hw⟩
      change (w.objs b.aux).realpath = path
      rw [hobjs, hpath]
    | realpathUnread obj => exact ⟨True.intro, hobjs, hw⟩
    | host o =>
      subst hw
      cases o with
      | symlinkMetadata | readDir | entryMetadata => exact ⟨rfl, hobjs, rfl⟩
      | _ => exact absurd ho id
    | _ => exact absurd ho id
  obtain ⟨r, u, hrun, hok, -, -, -⟩ :=
    dispatchOnce_treaddir (h := h.browse)
      (I := fun w => w.objs = s.world.objs ∧ w.host.tree = t) realroot hmsg hb hhandler hexec
      ⟨rfl, htree⟩
  rw [hrun] at hreply
  obtain ⟨d', p, entries, dots, page, shown, hd, hp, hentries, hlisted⟩ := hok _ hreply
  cases hd
  change p = path at hp
  subst hp
  change .ok entries = h.readDir t p at hentries
  unfold readDir at hentries
  split at hentries
  · cases hentries
  · cases hentries
  · rename_i trail i hplace
    split_ifs at hentries with hdir
    cases hentries
    exact ⟨trail, i, dots, page, shown, hplace, hdir, hlisted⟩

/-- A walk by one name, as its path is looked up. -/
theorem dispatchOnce_walkOne (realroot : PathBuf) (H : Host) {s : Server (Host.Objs H.State)}
    (hb : s.fids.get fid = some b) (tag : UInt16) (newfid : UInt32) (name : String) :
    (dispatchOnce (Unpfs realroot) H.backend ⟨tag, .twalk fid newfid [name]⟩ s).1 =
      match H.lstat s.world.host ((s.world.objs b.aux).realpath.push name) with
      | .ok attr => .ok (.rwalk [qidFromAttr attr])
      | .error e => .error (.error (.io e)) := by
  have hloop := runs_walkLoop H [name] 0 (s.world.objs b.aux).realpath []
    (s.world.create s.nextAux)
  rw [Host.Objs.create_host] at hloop
  unfold reached at hloop
  have hone : pathAt (s.world.objs b.aux).realpath [name] 1 =
      (s.world.objs b.aux).realpath.push name := rfl
  cases hname : H.lstat s.world.host ((s.world.objs b.aux).realpath.push name) with
  | ok attr =>
    simp only [hname, reached, List.length_cons, List.length_nil, if_true, List.nil_append] at hloop
    exact (dispatchOnce_twalk_ok H realroot tag newfid hb hloop).1
  | error e =>
    simp [hname, hone] at hloop
    exact (dispatchOnce_twalk_error H realroot tag newfid hb hloop).1

end

/-- The names of the directory that a path leads to. -/
def TreeHost.namesAt (h : TreeHost) (t : FileTree) (path : PathBuf) : List Name :=
  match h.place t true path with
  | .ok (_, .found i) => dirNames t i
  | _ => []

/-- The `j`-th entry of a reply is `.` or `..`, or the name of its file is UTF-8: the text of the
entry is the name as the directory has it. -/
def IsUtf8 (names : List Name) (off : UInt64) (j : ℕ) (e : DirEntry) : Prop :=
  j < dotsNum off ∨ names[skipped off + (j - dotsNum off)]? = some (strBytes e.name)

/-- A walk by the name of the entry from a fid at the path, in any state with the same tree,
succeeds and gives the qid of the entry. -/
def TreeHost.WalksTo (h : TreeHost) (realroot : PathBuf) (t : FileTree) (path : PathBuf)
    (fid : UInt32) (e : DirEntry) : Prop :=
  ∀ (u : Server (Host.Objs TreeState)) (b : Fid) (tag : UInt16) (newfid : UInt32),
    u.fids.get fid = some b → (u.world.objs b.aux).realpath = path → u.world.host.tree = t →
      (dispatchOnce (Unpfs realroot) h.browse.backend ⟨tag, .twalk fid newfid [e.name]⟩ u).1 =
        .ok (.rwalk [e.qid])

section
variable {h : TreeHost} {t : FileTree} {realroot path : PathBuf} {fid : UInt32} {b : Fid}
  {s : Server (Host.Objs TreeState)} {off : UInt64} {count : UInt32} {dots : List DirEntry}
  {page : List HostDirEntry} {shown : List DirEntry} {d : DirEntryData} {j : ℕ} {e : DirEntry}

theorem TreeHost.walksTo_of_lstat {attr : Metadata}
    (hattr : h.lstat t (path.push e.name) = .ok attr) (hqid : e.qid = qidFromAttr attr) :
    h.WalksTo realroot t path fid e := by
  intro u b tag newfid hb hpath htree
  subst hpath htree
  have hone := dispatchOnce_walkOne realroot h.browse hb tag newfid e.name
  change _ = (match h.lstat u.world.host.tree _ with
    | .ok attr => .ok (.rwalk [qidFromAttr attr])
    | .error e => .error (.error (.io e)) : Except Abort Fcall) at hone
  rw [hattr] at hone
  rw [hone, hqid]

theorem TreeHost.lstat_of_walksTo (hwalks : h.WalksTo realroot t path fid e)
    (hb : s.fids.get fid = some b) (hpath : (s.world.objs b.aux).realpath = path)
    (htree : s.world.host.tree = t) :
    (h.lstat t (path.push e.name)).map qidFromAttr = .ok e.qid := by
  have hreply := hwalks s b 0 0 hb hpath htree
  subst hpath htree
  have hone := dispatchOnce_walkOne realroot h.browse hb 0 0 e.name
  change _ = (match h.lstat s.world.host.tree _ with
    | .ok attr => .ok (.rwalk [qidFromAttr attr])
    | .error e => .error (.error (.io e)) : Except Abort Fcall) at hone
  rw [hreply] at hone
  cases hattr : h.lstat s.world.host.tree ((s.world.objs b.aux).realpath.push e.name) with
  | error e => rw [hattr] at hone; cases hone
  | ok attr =>
    rw [hattr] at hone
    injection hone with hone
    injection hone with hone
    injection hone with hone
    rw [hone]
    rfl

/-- The entries `.` and `..` have the qids that the working directory of the server gives. -/
theorem Dots.getElem (hdots : Dots (h.TreeAnswers t path) off dots) (he : dots[j]? = some e) :
    off = 0 ∧ e.name ∈ [".", ".."] ∧
      (h.lstat t (.ofString e.name)).map qidFromAttr = .ok e.qid := by
  unfold Dots at hdots
  split_ifs at hdots with hoff
  · obtain ⟨self, up, hself, hup, rfl⟩ := hdots
    change .ok self = h.lstat t _ at hself
    change .ok up = h.lstat t _ at hup
    refine ⟨hoff, ?_⟩
    rcases j with _ | _ | j
    · cases he
      exact ⟨by simp, by rw [← hself]; rfl⟩
    · cases he
      exact ⟨by simp, by rw [← hup]; rfl⟩
    · simp at he
  · rw [hdots] at he
    simp at he

/-- Entries of the directory itself are where a walk finds them. -/
theorem TreeHost.walksTo_of_shown (hproper : ProperNames t) {trail : Trail} {i : ℕ}
    (hplace : h.place t true path = .ok (trail, .found i)) (hdir : t.isDir i = true)
    (hlisted : Listed (h.TreeAnswers t path) off count
      ((dirNames t i).map fun name => .ok ⟨i, name⟩) dots page shown d)
    (he : shown[j]? = some e) (hname : (dirNames t i)[skipped off + j]? = some (strBytes e.name)) :
    h.WalksTo realroot t path fid e := by
  obtain ⟨entry, attr, hentry, hattr, hqid⟩ := hlisted.shows.getElem he
  change .ok attr = h.entryMetadata t entry at hattr
  have hcut := hlisted.cut
  have hall : (dirNames t i).map (fun name => (.ok ⟨i, name⟩ : Except IoError HostDirEntry)) =
      ((dirNames t i).map fun name => (⟨i, name⟩ : HostDirEntry)).map .ok := by
    rw [List.map_map]
    rfl
  rw [hall, ← List.map_drop] at hcut
  have hsame : entry = ⟨i, strBytes e.name⟩ := by
    rw [hcut.take, List.getElem?_take] at hentry
    split_ifs at hentry
    rw [List.getElem?_drop, List.getElem?_map, hname] at hentry
    exact (Option.some.inj hentry).symm
  subst hsame
  have hmem : strBytes e.name ∈ (t.names i).map Prod.fst :=
    List.mem_of_mem_filter (List.mem_of_getElem? hname)
  obtain ⟨x, hx, hxname⟩ := List.mem_map.mp hmem
  have hok := hproper i x hx
  rw [hxname] at hok
  exact walksTo_of_lstat (lstat_push hplace hdir hok hattr.symm) hqid

/-- A listing agrees with walks exactly when it does not start with `.` and `..`, or these two are
the same files in the working directory of the server and in the directory that is listed. -/
theorem readdir_agrees_iff (hproper : ProperNames t) (hb : s.fids.get fid = some b)
    (hpath : (s.world.objs b.aux).realpath = path) (htree : s.world.host.tree = t)
    {tag : UInt16}
    (hreply : (dispatchOnce (Unpfs realroot) h.browse.backend
      ⟨tag, .treaddir fid off count⟩ s).1 = .ok (.rreaddir d)) :
    (∀ j e, d.data[j]? = some e → IsUtf8 (h.namesAt t path) off j e →
        h.WalksTo realroot t path fid e) ↔
      (off = 0 → ∀ name ∈ [".", ".."], (h.lstat t (.ofString name)).map qidFromAttr =
        (h.lstat t (path.push name)).map qidFromAttr) := by
  obtain ⟨trail, i, dots, page, shown, hplace, hdir, hlisted⟩ :=
    TreeHost.listed_of_treaddir hb hpath htree rfl hreply
  have hnames : h.namesAt t path = TreeHost.dirNames t i := by
    unfold TreeHost.namesAt
    rw [hplace]
  have hnum := hlisted.starts.length
  constructor
  · intro hagrees hoff name hname
    have hlen : dots.length = 2 := by rw [hnum, dotsNum, if_pos hoff]
    have hentry : ∃ (j : ℕ) (e : DirEntry), dots[j]? = some e ∧ e.name = name := by
      have hstarts := hlisted.starts.names
      rw [if_pos hoff] at hstarts
      have hmem : name ∈ dots.map DirEntry.name := by rw [hstarts]; exact hname
      obtain ⟨e, he, hen⟩ := List.mem_map.mp hmem
      obtain ⟨j, hj⟩ := List.mem_iff_getElem?.mp he
      exact ⟨j, e, hj, hen⟩
    obtain ⟨j, e, hj, hen⟩ := hentry
    subst hen
    have hlt : j < dots.length := (List.getElem?_eq_some_iff.mp hj).1
    have hdata : d.data[j]? = some e := by
      rw [hlisted.data, List.getElem?_append_left hlt, hj]
    have hwalks := hagrees j e hdata (.inl (by rw [← hnum]; exact hlt))
    rw [(hlisted.starts.getElem hj).2.2, TreeHost.lstat_of_walksTo hwalks hb hpath htree]
  · intro hsame j e hdata hutf8
    rw [hlisted.data] at hdata
    by_cases hlt : j < dots.length
    · rw [List.getElem?_append_left hlt] at hdata
      obtain ⟨hoff, hname, hqid⟩ := hlisted.starts.getElem hdata
      have hwalk := (hsame hoff e.name hname).symm.trans hqid
      cases hattr : h.lstat t (path.push e.name) with
      | error err => rw [hattr] at hwalk; cases hwalk
      | ok attr =>
        rw [hattr] at hwalk
        exact TreeHost.walksTo_of_lstat hattr (Except.ok.inj hwalk).symm
    · rw [List.getElem?_append_right (by omega), hnum] at hdata
      rw [hnames] at hutf8
      have hname := hutf8.resolve_left (by omega)
      exact TreeHost.walksTo_of_shown hproper hplace hdir hlisted hdata hname

end

/-! A directory in the root. -/

def oneDirTree : FileTree where
  inode i := if i = 0 then some ⟨.dir, ⟨1, 2⟩⟩ else if i = 1 then some ⟨.dir, ⟨1, 3⟩⟩ else none
  names i := if i = 0 then [(UP, 0), ([0x61], 1)] else if i = 1 then [(UP, 0)] else []
  root := 0
  next := 2
  unused i hi := by
    have h0 : i ≠ 0 := (Nat.lt_of_lt_of_le Nat.two_pos hi).ne'
    have h1 : i ≠ 1 := (Nat.lt_of_lt_of_le Nat.one_lt_two hi).ne'
    exact ⟨(if_neg h0).trans (if_neg h1), (if_neg h0).trans (if_neg h1)⟩

theorem oneDirTree_proper : ProperNames oneDirTree := by
  intro i x hx
  have hmem : x ∈ [(UP, 0), (([0x61] : Name), 1)] := by
    change x ∈ (if i = 0 then [(UP, 0), ([0x61], 1)] else if i = 1 then [(UP, 0)] else []) at hx
    split_ifs at hx
    · exact hx
    · exact List.mem_cons.mpr (.inl (List.mem_singleton.mp hx))
    · simp at hx
  simp only [List.mem_cons, List.not_mem_nil, or_false] at hmem
  rcases hmem with rfl | rfl <;> decide

def oneDirWorld : Host.Objs TreeState := ⟨fun _ => UnpfsFid.default, oneDirTree, 0⟩

theorem walkToDir_isSome : (runs (answer (.ofString "/") plainHost) (.start oneDirWorld)
    walkToFile).isSome = true := rfl

/-- Fid 1 is the root and fid 2 is `/a`. -/
def atDir : Server (Host.Objs TreeState) :=
  (runs (answer (.ofString "/") plainHost) (.start oneDirWorld) walkToFile).get walkToDir_isSome

/-- The root is listed by a server that runs in the root. -/
theorem readdir_agrees_root :
    (∃ d, (dispatchOnce (Unpfs (.ofString "/")) plainHost.browse.backend
        ⟨1, .treaddir 1 0 4096⟩ atDir).1 = .ok (.rreaddir d) ∧ d.data.length = 3 ∧
      ∀ j e, d.data[j]? = some e →
        IsUtf8 (plainHost.namesAt oneDirTree (.ofString "/")) 0 j e →
        plainHost.WalksTo (.ofString "/") oneDirTree (.ofString "/") 1 e) := by
  obtain ⟨d, hreply, hlen⟩ : ∃ d, (dispatchOnce (Unpfs (.ofString "/")) plainHost.browse.backend
      ⟨1, .treaddir 1 0 4096⟩ atDir).1 = .ok (.rreaddir d) ∧ d.data.length = 3 := ⟨_, rfl, rfl⟩
  refine ⟨d, hreply, hlen, ?_⟩
  refine (readdir_agrees_iff oneDirTree_proper rfl rfl rfl hreply).mpr ?_
  intro hoff name hname
  simp only [List.mem_cons, List.not_mem_nil, or_false] at hname
  rcases hname with rfl | rfl <;> rfl

/-- `/a` is listed by a server that runs in the root. -/
theorem not_readdir_agrees : ¬ ∀ (h : TreeHost) (t : FileTree) (realroot path : PathBuf)
    (fid : UInt32) (b : Fid) (s : Server (Host.Objs TreeState)) (off : UInt64) (count : UInt32)
    (tag : UInt16) (d : DirEntryData), ProperNames t → s.fids.get fid = some b →
    (s.world.objs b.aux).realpath = path → s.world.host.tree = t →
    (dispatchOnce (Unpfs realroot) h.browse.backend ⟨tag, .treaddir fid off count⟩ s).1 =
      .ok (.rreaddir d) →
    ∀ j e, d.data[j]? = some e → IsUtf8 (h.namesAt t path) off j e →
      h.WalksTo realroot t path fid e := by
  intro hclaim
  have hself := hclaim plainHost oneDirTree (.ofString "/") (.ofString "/a") 2 _ atDir 0 4096 1 _
    oneDirTree_proper rfl rfl rfl rfl 0 _ rfl (.inl (by decide))
  have hwalk := TreeHost.lstat_of_walksTo (s := atDir) hself rfl rfl rfl
  cases hwalk

end P9cpu.Ninep
