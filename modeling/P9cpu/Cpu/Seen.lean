import P9cpu.Core.Mounts
import P9cpu.Cpu.Bindings
import P9cpu.Cpu.Launched
import P9cpu.Ninep.Lexical

/-! What the program of a command finds at its paths: what the client exports at the targets of its
namespace, and the files of the server elsewhere. -/
namespace P9cpu.Cpu.Launcher
open Core
open Ninep (IoError PathBuf climb nameComponents strBytes strBytes_append foldl_enter_append)

abbrev Name := List UInt8

inductive Fs (H : Type)
  | host (fs : H)
  /-- what the kernel makes from the arguments of a mount -/
  | made (source fstype data : Option String)

section
variable {H : Type}

/-- The kernel refuses a bind without a source. -/
def Mount.attach (m : Mount) : Attach (Fs H) Name :=
  if m.flags = .MS_BIND then .bind (PathBuf.ofString (m.source.getD "")).resolve m.target.resolve
  else .mount (.made m.source m.fstype m.data) m.target.resolve

/-- Where the paths lead in a process with the root directory as its working directory. -/
def Process.view (host : View (Fs H) Name) (p : Process) : View (Fs H) Name :=
  host.attachAll (p.mounts.map Mount.attach)

def ninepFs (ninepPort : UInt16) : Fs H :=
  .made (some "127.0.0.1") (some "9p")
    (some ("version=9p2000.L,trans=tcp,port=" ++ toString ninepPort))

def tmpFs : Fs H := .made (some "p9cpu") (some "tmpfs") none

def ninepDir (tmpMnt : String) : List Name := (PathBuf.ofString (ninepMount tmpMnt)).resolve

def tmpDir (tmpMnt : String) : List Name := (PathBuf.ofString tmpMnt).resolve

def bindTarget (b : String × String) : List Name := (PathBuf.ofString b.1).resolve

/-- Where the source of a bind is looked up. -/
def bindSource (tmpMnt : String) (b : String × String) : List Name :=
  (PathBuf.ofString (ninepMount tmpMnt ++ b.2)).resolve

/-- What is seen without the binds. -/
def unbound (v : View (Fs H) Name) (tmpMnt : String) (ninepPort : UInt16) : View (Fs H) Name :=
  fun path =>
    if Covers (ninepDir tmpMnt) path then
      ⟨ninepFs ninepPort, path.drop (ninepDir tmpMnt).length⟩
    else if Covers (tmpDir tmpMnt ++ [strBytes LOCAL_ROOT_MOUNT]) path then
      (v []).below (path.drop (tmpDir tmpMnt ++ [strBytes LOCAL_ROOT_MOUNT]).length)
    else if Covers (tmpDir tmpMnt) path then ⟨tmpFs, path.drop (tmpDir tmpMnt).length⟩
    else v path

/-- What a program sees with the binds `bs`, on a server that sees `v`: at and below the target of
a bind its source in the 9p file system. -/
def seen (v : View (Fs H) Name) (tmpMnt : String) (ninepPort : UInt16)
    (bs : List (String × String)) : View (Fs H) Name := fun path =>
  match lastCover bindTarget bs path with
  | some b => ⟨ninepFs ninepPort,
      (PathBuf.ofString b.2).resolve ++ path.drop (bindTarget b).length⟩
  | none => unbound v tmpMnt ninepPort path

/-- The source is a path from the root of the 9p file system. -/
def Exported (source : String) : Prop :=
  (source = "" ∨ source.toList.head? = some '/') ∧ (climb 0 (nameComponents source)).isSome = true

/-- Every source is a path from the root of the 9p file system, and no bind covers a later one. -/
structure Served (tmpMnt : String) (bs : List (String × String)) : Prop where
  exported : ∀ b ∈ bs, Exported b.2
  apart : Apart (bindSource tmpMnt) bindTarget bs

theorem Served.sublist {tmpMnt : String} {bs bs' : List (String × String)} (h : Served tmpMnt bs)
    (hbs : bs'.Sublist bs) : Served tmpMnt bs' :=
  ⟨fun b hb => h.exported b (hbs.subset hb), h.apart.sublist hbs⟩

/-! The options. -/

theorem split_options (ninepPort : UInt16) :
    split ("version=9p2000.L,trans=tcp,port=" ++ toString ninepPort) ',' =
      ["version=9p2000.L", "trans=tcp", "port=" ++ toString ninepPort] := by
  have hdigits : ',' ∉ (toString ninepPort).toList := by
    intro hmem
    have hlist : (toString ninepPort).toList = Nat.toDigits 10 ninepPort.toNat := by
      simp [toString]
    rw [hlist] at hmem
    have hdigit := Nat.isDigit_of_mem_toDigits (by decide) (by decide) hmem
    revert hdigit
    decide
  have hport : ',' ∉ ("port=" ++ toString ninepPort).toList := by
    rw [String.toList_append, List.mem_append, not_or]
    exact ⟨by decide, hdigits⟩
  have hlist : ("version=9p2000.L,trans=tcp,port=" ++ toString ninepPort).toList =
      "version=9p2000.L".toList ++ ',' ::
        ("trans=tcp".toList ++ ',' :: ("port=" ++ toString ninepPort).toList) := by
    rw [String.toList_append, String.toList_append]
    rfl
  unfold split
  rw [hlist, List.splitOn_append_cons_self_of_not_mem (by decide),
    List.splitOn_append_cons_self_of_not_mem (by decide), List.splitOn_eq_singleton hport]
  simp only [List.map_cons, List.map_nil, String.ofList_toList]

/-- The options of the 9p mount go to the kernel as they are. -/
theorem parseFstabOpt_options (ninepPort : UInt16) :
    parseFstabOpt ("version=9p2000.L,trans=tcp,port=" ++ toString ninepPort) =
      (.empty, "version=9p2000.L,trans=tcp,port=" ++ toString ninepPort) := by
  have hfirst : ∀ s : String, s.toList.head? ≠ some 'p' → "port=" ++ toString ninepPort ≠ s := by
    intro s hs heq
    apply hs
    rw [← heq, String.toList_append]
    rfl
  have hdefaults : "port=" ++ toString ninepPort ≠ "defaults" := hfirst _ (by decide)
  have hbind : "port=" ++ toString ninepPort ≠ "bind" := hfirst _ (by decide)
  have hparts : parseFstabOpts ["version=9p2000.L", "trans=tcp", "port=" ++ toString ninepPort]
      .empty [] = (.empty, ["version=9p2000.L", "trans=tcp", "port=" ++ toString ninepPort]) := by
    simp [parseFstabOpts, hdefaults, hbind]
  have hjoin : ",".intercalate ["version=9p2000.L", "trans=tcp", "port=" ++ toString ninepPort] =
      "version=9p2000.L,trans=tcp,port=" ++ toString ninepPort := by
    rw [← String.toList_inj]
    simp
  unfold parseFstabOpt
  rw [split_options, hparts]
  exact Prod.ext rfl hjoin

/-! The mounts of the command. -/

theorem attach_mountEntry (tmpMnt : String) (ninepPort : UInt16) :
    (mountOf (mountEntry tmpMnt ninepPort)).attach =
      (.mount (ninepFs ninepPort) (ninepDir tmpMnt) : Attach (Fs H) Name) := by
  have hopt : parseFstabOpt (mountEntry tmpMnt ninepPort).mntops =
      (.empty, "version=9p2000.L,trans=tcp,port=" ++ toString ninepPort) :=
    parseFstabOpt_options ninepPort
  have hdata : getPtr ("version=9p2000.L,trans=tcp,port=" ++ toString ninepPort) =
      some ("version=9p2000.L,trans=tcp,port=" ++ toString ninepPort) := by
    simp [getPtr]
  have hflags : MsFlags.empty ≠ .MS_BIND := by decide
  unfold Mount.attach mountOf
  dsimp only
  rw [hopt, hdata, if_neg hflags]
  rfl

theorem attach_bindEntry (tmpMnt : String) (b : String × String) :
    (mountOf (bindEntry tmpMnt b.1 b.2)).attach =
      (.bind (bindSource tmpMnt b) (bindTarget b) : Attach (Fs H) Name) := by
  have hopt : parseFstabOpt (bindEntry tmpMnt b.1 b.2).mntops = (.MS_BIND, "") := by
    change parseFstabOpt "defaults,bind" = _
    decide
  have hspec : getPtr (bindEntry tmpMnt b.1 b.2).spec = some (ninepMount tmpMnt ++ b.2) := by
    change getPtr (ninepMount tmpMnt ++ b.2) = _
    simp [getPtr, ninepMount]
  unfold Mount.attach mountOf
  dsimp only
  rw [hopt, hspec, if_pos rfl]
  rfl

theorem ninepDir_eq (tmpMnt : String) :
    ninepDir tmpMnt = tmpDir tmpMnt ++ [strBytes NINEP_MOUNT] := by
  have hbytes : strBytes (ninepMount tmpMnt) = strBytes tmpMnt ++ 0x2f :: strBytes NINEP_MOUNT := by
    unfold ninepMount
    rw [strBytes_append, strBytes_append, List.append_assoc]
    rfl
  have hname : PathBuf.components (strBytes NINEP_MOUNT) = [strBytes NINEP_MOUNT] := by decide
  have hparent : strBytes NINEP_MOUNT ≠ PathBuf.PARENT := by decide
  have hcomponents : PathBuf.components (strBytes (ninepMount tmpMnt)) =
      PathBuf.components (strBytes tmpMnt) ++ [strBytes NINEP_MOUNT] := by
    rw [hbytes, ← hname]
    exact PathBuf.componentsFrom_separator [] _ _
  unfold ninepDir tmpDir PathBuf.resolve PathBuf.ofString
  dsimp only
  rw [hcomponents, List.foldl_append, List.foldl_cons, List.foldl_nil, PathBuf.enter,
    if_neg hparent]

theorem resolve_localDir (cmd : Cmd) :
    (localDir cmd).resolve = tmpDir cmd.tmpMnt ++ [strBytes LOCAL_ROOT_MOUNT] := by
  have hname : nameComponents LOCAL_ROOT_MOUNT = [strBytes LOCAL_ROOT_MOUNT] := by decide
  have hparent : strBytes LOCAL_ROOT_MOUNT ≠ PathBuf.PARENT := by decide
  have hcomponents : PathBuf.components (localDir cmd).bytes =
      PathBuf.components (strBytes cmd.tmpMnt) ++ [strBytes LOCAL_ROOT_MOUNT] := by
    rw [← hname]
    exact PathBuf.components_push (.ofString cmd.tmpMnt) (by decide)
  unfold tmpDir PathBuf.resolve
  rw [hcomponents, List.foldl_append, List.foldl_cons, List.foldl_nil, PathBuf.enter,
    if_neg hparent]
  rfl

/-- A source from the root of the 9p file system is looked up below its mount point. -/
theorem bindSource_eq {tmpMnt : String} {b : String × String} (h : Exported b.2) :
    bindSource tmpMnt b = ninepDir tmpMnt ++ (PathBuf.ofString b.2).resolve := by
  obtain ⟨hslash, hclimb⟩ := h
  have hcomponents : PathBuf.components (strBytes (ninepMount tmpMnt ++ b.2)) =
      PathBuf.components (strBytes (ninepMount tmpMnt)) ++ nameComponents b.2 := by
    rw [strBytes_append]
    rcases hslash with hempty | hhead
    · rw [hempty]
      have hnone : nameComponents "" = [] := by decide
      have hbytes : strBytes "" = [] := by decide
      rw [hnone, hbytes, List.append_nil, List.append_nil]
    · obtain ⟨rest, hrest⟩ := List.head?_eq_some_iff.mp hhead
      have hsource : b.2 = "/" ++ String.ofList rest := by
        rw [← String.toList_inj, String.toList_append, hrest]
        simp
      have hbytes : strBytes b.2 = 0x2f :: strBytes (String.ofList rest) := by
        rw [hsource, strBytes_append]
        rfl
      unfold nameComponents
      rw [hbytes]
      exact PathBuf.componentsFrom_separator [] _ _
  have hbelow : (nameComponents b.2).foldl PathBuf.enter (ninepDir tmpMnt ++ []) = _ :=
    foldl_enter_append (ninepDir tmpMnt) hclimb
  rw [List.append_nil] at hbelow
  unfold bindSource
  change (PathBuf.components (strBytes (ninepMount tmpMnt ++ b.2))).foldl PathBuf.enter [] = _
  rw [hcomponents, List.foldl_append]
  exact hbelow

theorem attach_tmpfsOf (cmd : Cmd) :
    (tmpfsOf cmd).attach = (.mount tmpFs (tmpDir cmd.tmpMnt) : Attach (Fs H) Name) := by
  have hflags : MsFlags.empty ≠ .MS_BIND := by decide
  exact if_neg hflags

theorem attach_localOf (cmd : Cmd) : (localOf cmd).attach =
    (.bind [] (tmpDir cmd.tmpMnt ++ [strBytes LOCAL_ROOT_MOUNT]) : Attach (Fs H) Name) := by
  have hroot : (PathBuf.ofString "/").resolve = [] := by decide
  rw [← resolve_localDir, ← hroot]
  exact if_pos rfl

theorem target_attach (m : Mount) :
    (m.attach : Attach (Fs H) Name).target = m.target.resolve := by
  unfold Mount.attach
  split_ifs
  · rfl
  · rfl

/-- The mounts that every command gets, and the 9p file system. -/
def roots (tmpMnt : String) (ninepPort : UInt16) : List (Attach (Fs H) Name) :=
  [.mount tmpFs (tmpDir tmpMnt), .bind [] (tmpDir tmpMnt ++ [strBytes LOCAL_ROOT_MOUNT]),
    .mount (ninepFs ninepPort) (ninepDir tmpMnt)]

theorem attachAll_roots (v : View (Fs H) Name) (tmpMnt : String) (ninepPort : UInt16) :
    v.attachAll (roots tmpMnt ninepPort) = unbound v tmpMnt ninepPort := by
  funext path
  have hroot : ¬ Covers (tmpDir tmpMnt) [] := fun h => h.1 (List.prefix_nil.mp h.2)
  unfold roots unbound
  simp only [View.attachAll_cons, View.attachAll_nil, View.attach_bind, View.attach_mount]
  rw [if_neg hroot]

/-- A source in the 9p file system is seen there. -/
theorem unbound_bindSource (v : View (Fs H) Name) {tmpMnt : String} (ninepPort : UInt16)
    {b : String × String} (h : Exported b.2) :
    unbound v tmpMnt ninepPort (bindSource tmpMnt b) =
      ⟨ninepFs ninepPort, (PathBuf.ofString b.2).resolve⟩ := by
  have hne : ninepDir tmpMnt ≠ [] := by
    rw [ninepDir_eq]
    exact List.append_ne_nil_of_right_ne_nil _ (List.cons_ne_nil _ _)
  have hcovers : Covers (ninepDir tmpMnt) (bindSource tmpMnt b) := by
    refine ⟨hne, ?_⟩
    rw [bindSource_eq h]
    exact List.prefix_append _ _
  unfold unbound
  rw [if_pos hcovers, bindSource_eq h, List.drop_left]

theorem view_of_mounts (host : View (Fs H) Name) {p₀ p : Process} {cmd : Cmd}
    {ninepPort : UInt16} {bs : List (String × String)} {us : List FsTab}
    (hserved : Served cmd.tmpMnt bs)
    (hmounts : p.mounts = p₀.mounts ++ tmpfsOf cmd :: localOf cmd ::
      (mountEntry cmd.tmpMnt ninepPort ::
        (bs.map (fun b => bindEntry cmd.tmpMnt b.1 b.2) ++ us)).map mountOf)
    {path : List Name} (hpath : ∀ tab ∈ us, ¬ Covers (PathBuf.ofString tab.file).resolve path) :
    p.view host path = seen (p₀.view host) cmd.tmpMnt ninepPort bs path := by
  have hbinds : (bs.map fun b => bindEntry cmd.tmpMnt b.1 b.2).map
      (fun tab => (mountOf tab).attach (H := H)) =
        bs.map fun b => .bind (bindSource cmd.tmpMnt b) (bindTarget b) := by
    rw [List.map_map]
    exact List.map_congr_left fun b _ => attach_bindEntry cmd.tmpMnt b
  have hattach : p.mounts.map (Mount.attach (H := H)) = p₀.mounts.map Mount.attach ++
      (roots cmd.tmpMnt ninepPort ++
      (bs.map (fun b => .bind (bindSource cmd.tmpMnt b) (bindTarget b)) ++
        us.map fun tab => (mountOf tab).attach)) := by
    rw [← hbinds, hmounts, List.map_append, List.map_cons, List.map_cons, List.map_map,
      List.map_cons, List.map_append, attach_tmpfsOf, attach_localOf, Function.comp_apply,
      attach_mountEntry]
    rfl
  have husers : ∀ a ∈ us.map (fun tab => (mountOf tab).attach (H := H)),
      ¬ Covers a.target path := by
    intro a ha
    obtain ⟨tab, htab, rfl⟩ := List.mem_map.mp ha
    rw [target_attach]
    exact hpath tab htab
  unfold Process.view
  rw [hattach, View.attachAll_append, View.attachAll_append, View.attachAll_append,
    View.attachAll_of_uncovered husers, attachAll_roots, attachAll_binds hserved.apart]
  unfold seen
  cases hlast : lastCover bindTarget bs path with
  | none => rfl
  | some b =>
    have hb : b ∈ bs := List.mem_reverse.mp (List.mem_of_find?_eq_some hlast)
    dsimp only
    rw [unbound_bindSource _ _ (hserved.exported b hb)]
    rfl

/-- What the server makes of a command with a namespace. -/
theorem prepare_eq {args : Args} (hninep : args.ninep = true) (program : String)
    (rest : List String) (vars : List EnvVar) (ninepPort : UInt16) :
    Server.prepare (args.command program rest vars) (some ninepPort) =
      .ok { args.command program rest vars with
        fstab := mountEntry args.tmpMnt ninepPort ::
          ((bindings args.nmspace).map (fun b => bindEntry args.tmpMnt b.1 b.2) ++ args.fsTab) } := by
  have hsome : parseNamespace args.nmspace args.tmpMnt ≠ [] := by
    rw [Ne, ← ninep_eq_false_iff, hninep]
    simp
  have hlines : args.fsTabLines = ninepEntry args.tmpMnt ::
      ((bindings args.nmspace).map (fun b => bindEntry args.tmpMnt b.1 b.2) ++ args.fsTab) := by
    unfold Args.fsTabLines
    rw [parseNamespace_eq] at hsome ⊢
    split_ifs at hsome ⊢
    · exact absurd rfl hsome
    · rfl
  have hfilled : fillNinep args.tmpMnt ninepPort args.fsTabLines = mountEntry args.tmpMnt ninepPort ::
      ((bindings args.nmspace).map (fun b => bindEntry args.tmpMnt b.1 b.2) ++ args.fsTab) := by
    rw [hlines]
    exact fillNinep_cons _ _ _
  have hset : (args.command program rest vars).ninep = true := hninep
  unfold Server.prepare
  rw [if_pos hset]
  exact congrArg (fun fstab => Except.ok { args.command program rest vars with fstab }) hfilled

/-- The lines that the system accepts, when the 9p file system is among them. -/
theorem mountedTabs_cases {sys : Sys} {log : List SysCall} {tab : FsTab}
    {binds : List (String × String)} {f : String × String → FsTab} {users : List FsTab}
    (h : (mountedTabs sys log (tab :: (binds.map f ++ users))).head? = some tab) :
    ∃ (bs : List (String × String)) (us : List FsTab), bs.Sublist binds ∧ us.Sublist users ∧
      mountedTabs sys log (tab :: (binds.map f ++ users)) = tab :: (bs.map f ++ us) := by
  obtain ⟨tabs, htabs⟩ := List.head?_eq_some_iff.mp h
  have hsub := mountedTabs_sublist sys log (tab :: (binds.map f ++ users))
  rw [htabs, List.cons_sublist_cons] at hsub
  obtain ⟨bound, us, rfl, hbound, hus⟩ := List.sublist_append_iff.mp hsub
  obtain ⟨bs, hbs, rfl⟩ := List.sublist_map_iff.mp hbound
  exact ⟨bs, us, hbs, hus, htabs⟩

end

/-- The program `a` with the namespace `/n`. -/
def bindArgs : Args where
  nmspace := "/n"
  tty := false
  fsTab := []
  tmpMnt := "/t"
  uid := 0
  gid := 0
  args := ["a"]

def bindCmd : Cmd :=
  { bindArgs.command "a" [] [] with fstab := [mountEntry "/t" 80, bindEntry "/t" "/n" "/n"] }

/-- The fields 1, 4, 4, 5 and 7. -/
def bindBytes : List UInt8 :=
  [0x0a, 1] ++ strBytes "a" ++
  [0x22, 61, 0x0a, 9] ++ strBytes "127.0.0.1" ++ [0x12, 8] ++ strBytes "/t/mnt9p" ++
    [0x1a, 2] ++ strBytes "9p" ++ [0x22, 34] ++ strBytes "version=9p2000.L,trans=tcp,port=80" ++
  [0x22, 37, 0x0a, 10] ++ strBytes "/t/mnt9p/n" ++ [0x12, 2] ++ strBytes "/n" ++
    [0x1a, 4] ++ strBytes "none" ++ [0x22, 13] ++ strBytes "defaults,bind" ++
  [0x28, 1] ++ [0x3a, 2] ++ strBytes "/t"

/-- As much of the codec as `bindCmd` needs. -/
def bindProst : Prost where
  DecodeError := Unit
  encodeToVec cmd := if cmd = bindCmd then some bindBytes else none
  decode bs := if bs = bindBytes then .ok bindCmd else .error ()
  decode_encodeToVec cmd bs h := by
    split_ifs at h with hcmd
    cases h
    rw [if_pos rfl, hcmd]
  length_of_decode bs cmd h := by
    split_ifs at h with hbs
    rw [hbs]
    decide

def bindStream : Incoming IoError := .part 111 ([0, 0, 0, 0, 0, 0, 0] ++ bindBytes) .done

/-- A system on which everything succeeds. -/
def permits : Sys := fun _ _ => .ok ()

end P9cpu.Cpu.Launcher
