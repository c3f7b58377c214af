import P9cpu.Core.Script
import P9cpu.Cpu.Launcher

/-! What becomes of the launched process: the calls that it makes for its command, in their order,
and what they do to its mounts, its environment and its identity. -/
namespace P9cpu.Cpu.Launcher
open Core
open Ninep (Errno IoError PathBuf strBytes)

/-! The calls of `connect` as a script. -/

section
variable {ε : Type}

/-- A call whose error is returned. -/
def must (c : SysCall) (err : c.Error → Error ε) : Item SysCall SysCall.Error (Failure ε) :=
  .call c fun e => .error (err e)

/-- The calls of a process, each with what its failure means. -/
abbrev Calls (ε : Type) := Script SysCall SysCall.Error (Failure ε)

/-- The call that mounts a line of the fstab. -/
def tabMount (tab : FsTab) : SysCall :=
  .mount (getPtr tab.spec) (.ofString tab.file) (getPtr tab.vfstype) (parseFstabOpt tab.mntops).1
    (getPtr (parseFstabOpt tab.mntops).2)

def tabCalls (tab : FsTab) : Calls ε :=
  [must (.createDirAll (.ofString tab.file)) .createDir, .attempt (tabMount tab)]

def varCalls (env : EnvVar) : Calls ε :=
  if env.key = [] ∨ 0x3d ∈ env.key ∨ 0 ∈ env.key ∨ 0 ∈ env.val then [.stop .panic]
  else [.call (.setVar env.key env.val) fun _ => .panic]

/-- A string with a byte 0 is no `CString`. -/
def cstringCalls (s : String) : Calls ε :=
  if 0 ∈ strBytes s then [.stop (.error (.convertCString (strBytes s)))] else []

def tmpMount (cmd : Cmd) : SysCall :=
  .mount (some "p9cpu") (.ofString cmd.tmpMnt) (some "tmpfs") .empty none

def localDir (cmd : Cmd) : PathBuf := (PathBuf.ofString cmd.tmpMnt).join LOCAL_ROOT_MOUNT

def localMount (cmd : Cmd) : SysCall := .mount (some "/") (localDir cmd) none .MS_BIND none

def execCall (cmd : Cmd) : SysCall :=
  .execvp (strBytes cmd.program) (strBytes cmd.program :: cmd.args.map strBytes)

/-- The mounts that every command gets. -/
def rootCalls (cmd : Cmd) : Calls ε :=
  [must mountRoot .mountRoot, must (.createDirAll (.ofString cmd.tmpMnt)) .createDir,
    must (tmpMount cmd) .mountTmp, must (.createDirAll (localDir cmd)) .createDir,
    must (localMount cmd) .mountLocal]

def stringCalls (cmd : Cmd) : Calls ε :=
  cstringCalls cmd.program ++ cmd.args.flatMap cstringCalls

def ttyCalls (cmd : Cmd) : Calls ε :=
  if cmd.tty then
    [must .setsid .setSid, must .setControllingTerminal .setControllingTerminal]
  else []

def idCalls (cmd : Cmd) : Calls ε :=
  [must (.setgid cmd.gid) .setGid, must (.setuid cmd.uid) .setUid, must (execCall cmd) .exec]

/-- What the process does for its command. -/
def cmdCalls (cmd : Cmd) : Calls ε :=
  rootCalls cmd ++ (cmd.fstab.flatMap tabCalls ++ (cmd.envs.flatMap varCalls ++
    (stringCalls cmd ++ (ttyCalls cmd ++ idCalls cmd))))

def connectCalls (prost : Prost) (port : UInt16) (stream : Incoming IoError) :
    Calls prost.DecodeError :=
  [must .unshare (.unshare "CLONE_NEWNS"), must (.connect port) .connectToPort] ++
    match readCmd prost stream with
    | .ok cmd => must .shutdown .shutdownSocket :: cmdCalls cmd
    | .error e => [.stop e]

end

/-! The code makes these calls. -/

section
variable {sys : Sys} {ε α β : Type} {is js : Calls ε}

/-- The code makes the calls of the script, and returns `a` when they pass. -/
def Follows (sys : Sys) (m : Launching ε α) (is : Calls ε) (a : α) : Prop :=
  ∀ log, exec m log = match Script.run sys is log with
    | (.ok _, log) => (.ok a, log)
    | (.error e, log) => (.error e, log)

theorem follows_pure (a : α) : Follows sys (pure a : Launching ε α) [] a := fun _ => rfl

theorem follows_throw (e : Failure ε) (a : α) :
    Follows sys (throw e : Launching ε α) [.stop e] a := by
  intro log
  have hrun : Script.run sys ([.stop e] : Calls ε) log = (.error e, log ++ []) := rfl
  rw [hrun, List.append_nil]
  rfl

theorem follows_bind {m : Launching ε α} {f : α → Launching ε β} {a : α} {b : β}
    (hm : Follows sys m is a) (hf : Follows sys (f a) js b) :
    Follows sys (m >>= f) (is ++ js) b := by
  intro log
  rw [exec_bind, hm log, Script.run_append]
  rcases Script.run sys is log with ⟨e | _, log'⟩
  · rfl
  · exact hf log'

theorem follows_call (c : SysCall) (err : c.Error → Error ε) :
    Follows sys (call sys c err) [must c err] () := by
  intro log
  unfold exec call
  cases hc : sys log c with
  | ok => simp [Script.run, must, Item.failure, Item.calls, hc, ExceptT.mk]
  | error e => simp [Script.run, must, Item.failure, Item.calls, hc, ExceptT.mk]

/-- A call, and what comes behind it. -/
theorem follows_next {c : SysCall} {err : c.Error → Error ε} {f : Unit → Launching ε β} {b : β}
    (hf : Follows sys (f ()) js b) : Follows sys (call sys c err >>= f) (must c err :: js) b :=
  follows_bind (follows_call c err) hf

theorem follows_panicCall (c : SysCall) :
    Follows sys (panicCall sys c : Launching ε Unit) [.call c fun _ => .panic] () := by
  intro log
  unfold exec panicCall
  cases hc : sys log c with
  | ok => simp [Script.run, Item.failure, Item.calls, hc, ExceptT.mk]
  | error e => simp [Script.run, Item.failure, Item.calls, hc, ExceptT.mk]

theorem follows_warnCall (c : SysCall) :
    Follows sys (warnCall c : Launching ε Unit) [.attempt c] () := fun _ => rfl

theorem follows_forM {f : α → Launching ε Unit} {g : α → Calls ε}
    (h : ∀ a, Follows sys (f a) (g a) ()) (as : List α) :
    Follows sys (as.forM f) (as.flatMap g) () := by
  induction as with
  | nil => exact follows_pure ()
  | cons a as ih => exact follows_bind (h a) ih

theorem follows_mapM {f : α → Launching ε β} {g : α → Calls ε} {v : α → β}
    (h : ∀ a, Follows sys (f a) (g a) (v a)) (as : List α) :
    Follows sys (as.mapM f) (as.flatMap g) (as.map v) := by
  rw [← List.mapM'_eq_mapM]
  induction as with
  | nil => exact follows_pure _
  | cons a as ih =>
    have hrest : Follows sys (List.mapM' f as >>= fun bs => pure (v a :: bs)) (as.flatMap g ++ [])
        (v a :: as.map v) := follows_bind ih (follows_pure _)
    rw [List.append_nil] at hrest
    exact follows_bind (h a) hrest

theorem follows_newCString (s : String) :
    Follows sys (newCString s : Launching ε _) (cstringCalls s) (strBytes s) := by
  unfold newCString cstringCalls
  split_ifs
  · exact follows_throw _ _
  · exact follows_pure _

theorem follows_mountTab (tab : FsTab) :
    Follows sys (mountTab sys tab : Launching ε Unit) (tabCalls tab) () :=
  follows_bind (follows_call _ _) (follows_warnCall _)

theorem follows_setVar (env : EnvVar) :
    Follows sys (setVar sys env : Launching ε Unit) (varCalls env) () := by
  unfold setVar varCalls
  split_ifs
  · exact follows_throw _ _
  · exact follows_panicCall _

theorem follows_idCalls (cmd : Cmd) : Follows sys (do
    call sys (.setgid cmd.gid) .setGid
    call sys (.setuid cmd.uid) .setUid
    call sys (execCall cmd) .exec : Launching ε Unit) (idCalls cmd) () :=
  follows_next (follows_next (follows_call _ _))

theorem follows_mountPhase (cmd : Cmd) :
    Follows sys (mountPhase sys cmd : Launching ε Unit) (cmdCalls cmd) () := by
  have hend : Follows sys (do
      if cmd.tty then
        call sys .setsid .setSid
        call sys .setControllingTerminal .setControllingTerminal
      call sys (.setgid cmd.gid) .setGid
      call sys (.setuid cmd.uid) .setUid
      call sys (execCall cmd) .exec : Launching ε Unit) (ttyCalls cmd ++ idCalls cmd) () := by
    unfold ttyCalls
    dsimp only
    split_ifs
    · exact follows_next (follows_next (follows_idCalls cmd))
    · exact follows_idCalls cmd
  have hstrings : Follows sys (do
      let arg0 ← newCString cmd.program
      let args ← cmd.args.mapM newCString
      if cmd.tty then
        call sys .setsid .setSid
        call sys .setControllingTerminal .setControllingTerminal
      call sys (.setgid cmd.gid) .setGid
      call sys (.setuid cmd.uid) .setUid
      call sys (.execvp arg0 (arg0 :: args)) .exec : Launching ε Unit)
      (stringCalls cmd ++ (ttyCalls cmd ++ idCalls cmd)) () := by
    unfold stringCalls
    rw [List.append_assoc]
    exact follows_bind (follows_newCString _)
      (follows_bind (follows_mapM follows_newCString _) hend)
  have hfrom : Follows sys (do
      cmd.fstab.forM (mountTab sys)
      cmd.envs.forM (setVar sys)
      let arg0 ← newCString cmd.program
      let args ← cmd.args.mapM newCString
      if cmd.tty then
        call sys .setsid .setSid
        call sys .setControllingTerminal .setControllingTerminal
      call sys (.setgid cmd.gid) .setGid
      call sys (.setuid cmd.uid) .setUid
      call sys (.execvp arg0 (arg0 :: args)) .exec : Launching ε Unit)
      (cmd.fstab.flatMap tabCalls ++ (cmd.envs.flatMap varCalls ++
        (stringCalls cmd ++ (ttyCalls cmd ++ idCalls cmd)))) () :=
    follows_bind (follows_forM follows_mountTab _)
      (follows_bind (follows_forM follows_setVar _) hstrings)
  exact follows_next (follows_next (follows_next (follows_next (follows_next hfrom))))

theorem follows_connect (prost : Prost) (port : UInt16) (stream : Incoming IoError) :
    Follows sys (connect sys prost port stream) (connectCalls prost port stream) () := by
  have hbind : ∀ {α β γ : Type} (m : Launching prost.DecodeError α)
      (f : α → Launching prost.DecodeError β) (g : β → Launching prost.DecodeError γ),
      m >>= f >>= g = m >>= fun a => f a >>= g := fun m f g => bind_assoc m f g
  unfold connect receiveCmd connectCalls
  rw [hbind, List.cons_append, List.cons_append, List.nil_append]
  apply follows_next
  rw [hbind]
  apply follows_next
  rw [hbind]
  cases readCmd prost stream with
  | ok cmd =>
    have hshutdown : Follows sys (do
        call sys .shutdown .shutdownSocket
        return cmd : Launching prost.DecodeError Cmd)
        [must .shutdown .shutdownSocket] cmd := follows_next (follows_pure cmd)
    exact follows_bind (follows_pure cmd) (follows_bind hshutdown (follows_mountPhase cmd))
  | error e =>
    intro log
    have hrun : Script.run sys ([.stop e] : Calls prost.DecodeError) log = (.error e, log ++ []) :=
      rfl
    rw [exec_bind, hrun, List.append_nil]
    rfl

end

/-! What the calls do to the process. -/

inductive MountNs
  | host
  /-- a copy of that of the host, to which the mounts propagate -/
  | shared
  /-- the mounts of the process do not leave it -/
  | isolated
deriving DecidableEq

structure Mount where
  source : Option String
  target : PathBuf
  fstype : Option String
  flags : MsFlags
  data : Option String

structure Process where
  mountNs : MountNs
  mounts : List Mount
  /-- the mounts that the host has got from the process -/
  hostMounts : List Mount
  env : List UInt8 → Option (List UInt8)
  uid : UInt32
  gid : UInt32
  /-- it leads a session -/
  leader : Bool
  /-- its stdin is its controlling terminal -/
  terminal : Bool
  /-- the program that it has become, with the arguments -/
  image : Option (List UInt8 × List (List UInt8))

namespace Process

def mount (p : Process) (m : Mount) : Process :=
  match p.mountNs with
  | .isolated => { p with mounts := p.mounts ++ [m] }
  | .host | .shared => { p with mounts := p.mounts ++ [m], hostMounts := p.hostMounts ++ [m] }

/-- A call that succeeds. -/
def apply (p : Process) : SysCall → Process
  | .unshare => { p with mountNs := if p.mountNs = .host then .shared else p.mountNs }
  | .mount source target fstype flags data =>
    if flags = .union .MS_REC .MS_PRIVATE ∧ target = .ofString "/" then
      { p with mountNs := if p.mountNs = .shared then .isolated else p.mountNs }
    else p.mount ⟨source, target, fstype, flags, data⟩
  | .setVar key val => { p with env := Function.update p.env key (some val) }
  | .setsid => { p with leader := true }
  | .setControllingTerminal => { p with terminal := p.leader }
  | .setgid gid => { p with gid := gid }
  | .setuid uid => { p with uid := uid }
  | .execvp filename args => { p with image := some (filename, args) }
  | .connect _ | .shutdown | .createDirAll _ => p

end Process

/-- The mount of a line of the fstab. -/
def mountOf (tab : FsTab) : Mount where
  source := getPtr tab.spec
  target := .ofString tab.file
  fstype := getPtr tab.vfstype
  flags := (parseFstabOpt tab.mntops).1
  data := getPtr (parseFstabOpt tab.mntops).2

def setVars (env : List UInt8 → Option (List UInt8)) (vars : List EnvVar) :
    List UInt8 → Option (List UInt8) :=
  vars.foldl (fun env var => Function.update env var.key (some var.val)) env

def tmpfsOf (cmd : Cmd) : Mount := ⟨some "p9cpu", .ofString cmd.tmpMnt, some "tmpfs", .empty, none⟩

def localOf (cmd : Cmd) : Mount := ⟨some "/", localDir cmd, none, .MS_BIND, none⟩

/-- What is called for the lines of an fstab. -/
def tabLog (tabs : List FsTab) : List SysCall :=
  tabs.flatMap fun tab => [.createDirAll (.ofString tab.file), tabMount tab]

/-- The lines whose mounts the system accepts, `log` being the calls before them. -/
def mountedTabs (sys : Sys) : List SysCall → List FsTab → List FsTab
  | _, [] => []
  | log, tab :: tabs =>
    let rest := mountedTabs sys (log ++ [.createDirAll (.ofString tab.file), tabMount tab]) tabs
    match sys (log ++ [.createDirAll (.ofString tab.file)]) (tabMount tab) with
    | .ok _ => tab :: rest
    | .error _ => rest

theorem mountedTabs_append (sys : Sys) (log : List SysCall) (tabs tabs' : List FsTab) :
    mountedTabs sys log (tabs ++ tabs') =
      mountedTabs sys log tabs ++ mountedTabs sys (log ++ tabLog tabs) tabs' := by
  induction tabs generalizing log with
  | nil => simp [mountedTabs, tabLog]
  | cons tab tabs ih =>
    have hlog : log ++ tabLog (tab :: tabs) =
        log ++ [.createDirAll (.ofString tab.file), tabMount tab] ++ tabLog tabs := by
      simp [tabLog]
    rw [List.cons_append, mountedTabs, mountedTabs, hlog, ih]
    cases sys (log ++ [.createDirAll (.ofString tab.file)]) (tabMount tab) with
    | ok => rfl
    | error e => rfl

theorem mountedTabs_sublist (sys : Sys) (log : List SysCall) (tabs : List FsTab) :
    (mountedTabs sys log tabs).Sublist tabs := by
  induction tabs generalizing log with
  | nil => exact List.Sublist.refl _
  | cons tab tabs ih =>
    rw [mountedTabs]
    cases sys (log ++ [.createDirAll (.ofString tab.file)]) (tabMount tab) with
    | ok => exact (ih _).cons_cons tab
    | error e => exact (ih _).cons tab

/-- What is called before the first line of the fstab. -/
def beforeTabs (port : UInt16) (cmd : Cmd) : List SysCall :=
  [.unshare, .connect port, .shutdown, mountRoot, .createDirAll (.ofString cmd.tmpMnt),
    tmpMount cmd, .createDirAll (localDir cmd), localMount cmd]

/-- With the mounts that every command gets. -/
def Process.rooted (p : Process) (cmd : Cmd) : Process :=
  { p with mountNs := .isolated, mounts := p.mounts ++ [tmpfsOf cmd, localOf cmd] }

/-- The process has become the program of the command, `log` being the calls before the fstab. -/
structure Became (sys : Sys) (log : List SysCall) (p₀ : Process) (cmd : Cmd) (p : Process) :
    Prop where
  image : p.image = some (strBytes cmd.program, strBytes cmd.program :: cmd.args.map strBytes)
  uid : p.uid = cmd.uid
  gid : p.gid = cmd.gid
  mountNs : p.mountNs = .isolated
  hostMounts : p.hostMounts = p₀.hostMounts
  mounts : p.mounts = p₀.mounts ++ tmpfsOf cmd :: localOf cmd ::
    (mountedTabs sys log cmd.fstab).map mountOf
  env : p.env = setVars p₀.env cmd.envs
  terminal : cmd.tty = true → p.leader = true ∧ p.terminal = true

section
variable {sys : Sys} {ε : Type} {p₀ p : Process}

/-- The process after the calls of the log. -/
def after (sys : Sys) (p₀ : Process) (log : List SysCall) : Process :=
  effects sys Process.apply p₀ [] log

def At (sys : Sys) (p₀ p : Process) (log : List SysCall) : Prop := after sys p₀ log = p

/-- The host has got no mount, and the process runs no other program. -/
def Process.Unseen (p₀ p : Process) : Prop := p.hostMounts = p₀.hostMounts ∧ p.image = none

def Aborted (sys : Sys) (p₀ : Process) (log : List SysCall) : Prop :=
  p₀.Unseen (after sys p₀ log)

theorem triple_must {c : SysCall} {err : c.Error → Error ε} (hp : p₀.Unseen p) :
    Script.Triple sys (At sys p₀ p) [must c err] (At sys p₀ (p.apply c)) (Aborted sys p₀) := by
  refine Script.triple_call (fun log hlog hc => ?_) (fun log e hlog hc => ?_)
  · unfold At after at hlog ⊢
    rw [effects_ok hc, hlog]
  · unfold Aborted after
    unfold At after at hlog
    rw [effects_error hc, hlog]
    exact hp

/-- A call that succeeds, and what comes behind it. -/
theorem triple_next {c : SysCall} {err : c.Error → Error ε} {is : Calls ε}
    {Q : List SysCall → Prop} (hp : p₀.Unseen p)
    (his : Script.Triple sys (At sys p₀ (p.apply c)) is Q (Aborted sys p₀)) :
    Script.Triple sys (At sys p₀ p) (must c err :: is) Q (Aborted sys p₀) :=
  Script.triple_append (triple_must hp) his

theorem parseFstabOpts_flags (fs : List String) (flag : MsFlags) (opts : List String)
    (h : flag = .empty ∨ flag = .MS_BIND) :
    (parseFstabOpts fs flag opts).1 = .empty ∨ (parseFstabOpts fs flag opts).1 = .MS_BIND := by
  induction fs generalizing flag opts with
  | nil => exact h
  | cons f fs ih =>
    unfold parseFstabOpts
    split_ifs
    · exact ih flag opts h
    · refine ih _ opts (.inr ?_)
      rcases h with rfl | rfl <;> decide
    · exact ih flag _ h

/-- No line of an fstab changes the propagation. -/
theorem flags_ne_private (tab : FsTab) :
    (parseFstabOpt tab.mntops).1 ≠ .union .MS_REC .MS_PRIVATE := by
  have hflags := parseFstabOpts_flags (split tab.mntops ',') .empty [] (.inl rfl)
  intro heq
  have hsame : (parseFstabOpts (split tab.mntops ',') .empty []).1 =
      .union .MS_REC .MS_PRIVATE := heq
  rw [hsame] at hflags
  revert hflags
  decide

/-- A mount that does not leave the process. -/
theorem apply_mount (hns : p.mountNs = .isolated) {flags : MsFlags}
    (hflags : flags ≠ .union .MS_REC .MS_PRIVATE) (source : Option String) (target : PathBuf)
    (fstype data : Option String) : p.apply (.mount source target fstype flags data) =
      { p with mounts := p.mounts ++ [⟨source, target, fstype, flags, data⟩] } := by
  have hmount : p.apply (.mount source target fstype flags data) =
      p.mount ⟨source, target, fstype, flags, data⟩ := if_neg fun h => hflags h.1
  rw [hmount]
  unfold Process.mount
  rw [hns]

theorem triple_mount (hp : p₀.Unseen p) (hns : p.mountNs = .isolated) {flags : MsFlags}
    (hflags : flags ≠ .union .MS_REC .MS_PRIVATE) (source : Option String) (target : PathBuf)
    (fstype data : Option String) (err : Errno → Error ε) :
    Script.Triple sys (At sys p₀ p) [must (.mount source target fstype flags data) err]
      (At sys p₀ { p with mounts := p.mounts ++ [⟨source, target, fstype, flags, data⟩] })
      (Aborted sys p₀) := by
  rw [← apply_mount hns hflags]
  exact triple_must hp

/-- The lines that the system accepts are mounted. -/
def Mounted (sys : Sys) (p₀ p : Process) (before : List SysCall) (tabs : List FsTab)
    (log : List SysCall) : Prop :=
  log = before ++ tabLog tabs ∧
    At sys p₀ { p with mounts := p.mounts ++ (mountedTabs sys before tabs).map mountOf } log

theorem triple_tab (hp : p₀.Unseen p) (hns : p.mountNs = .isolated) (before : List SysCall)
    (tabs : List FsTab) (tab : FsTab) :
    Script.Triple sys (Mounted sys p₀ p before tabs) (tabCalls tab : Calls ε)
      (Mounted sys p₀ p before (tabs ++ [tab])) (Aborted sys p₀) := by
  let p' : Process :=
    { p with mounts := p.mounts ++ (mountedTabs sys before tabs).map mountOf }
  have hp' : p₀.Unseen p' := hp
  have hns' : p'.mountNs = .isolated := hns
  have hdir : Script.Triple sys (Mounted sys p₀ p before tabs)
      ([must (.createDirAll (.ofString tab.file)) .createDir] : Calls ε)
      (fun log => log = before ++ tabLog tabs ++ [.createDirAll (.ofString tab.file)] ∧
        At sys p₀ p' log) (Aborted sys p₀) :=
    Script.triple_calls (triple_must hp') (before ++ tabLog tabs)
  refine Script.triple_append hdir (Script.triple_attempt ?_)
  rintro log ⟨rfl, hlog⟩
  constructor
  · simp [tabLog]
  · unfold At after at hlog ⊢
    rw [mountedTabs_append]
    cases hc : sys (before ++ tabLog tabs ++ [.createDirAll (.ofString tab.file)])
      (tabMount tab) with
    | ok =>
      have hone : mountedTabs sys (before ++ tabLog tabs) [tab] = [tab] := by
        rw [mountedTabs, hc]
        rfl
      rw [effects_ok hc, hlog, hone, List.map_append, ← List.append_assoc]
      exact apply_mount hns' (flags_ne_private tab) _ _ _ _
    | error e =>
      have hnone : mountedTabs sys (before ++ tabLog tabs) [tab] = [] := by
        rw [mountedTabs, hc]
        rfl
      rw [effects_error hc, hlog, hnone, List.append_nil]

theorem triple_var (hp : p₀.Unseen p) (done : List EnvVar) (var : EnvVar) :
    Script.Triple sys (At sys p₀ { p with env := setVars p.env done }) (varCalls var : Calls ε)
      (At sys p₀ { p with env := setVars p.env (done ++ [var]) }) (Aborted sys p₀) := by
  have hset : setVars p.env (done ++ [var]) =
      Function.update (setVars p.env done) var.key (some var.val) := by
    unfold setVars
    rw [List.foldl_append]
    rfl
  rw [hset]
  unfold varCalls
  split_ifs
  · refine Script.triple_stop fun log hlog => ?_
    unfold At at hlog
    unfold Aborted
    rw [hlog]
    exact hp
  · refine Script.triple_call (fun log hlog hc => ?_) (fun log e hlog hc => ?_)
    · unfold At after at hlog ⊢
      rw [effects_ok hc, hlog]
      rfl
    · unfold Aborted after
      unfold At after at hlog
      rw [effects_error hc, hlog]
      exact hp

theorem triple_vars (hp : p₀.Unseen p) (vars : List EnvVar) :
    Script.Triple sys (At sys p₀ p) (vars.flatMap varCalls : Calls ε)
      (At sys p₀ { p with env := setVars p.env vars }) (Aborted sys p₀) :=
  Script.triple_flatMap (P := fun done => At sys p₀ { p with env := setVars p.env done })
    (triple_var hp) [] vars

theorem triple_cstring (hp : p₀.Unseen p) (s : String) :
    Script.Triple sys (At sys p₀ p) (cstringCalls s : Calls ε) (At sys p₀ p) (Aborted sys p₀) := by
  unfold cstringCalls
  split_ifs
  · refine Script.triple_stop fun log hlog => ?_
    unfold At at hlog
    unfold Aborted
    rw [hlog]
    exact hp
  · exact fun log hlog => hlog

theorem triple_strings (hp : p₀.Unseen p) (cmd : Cmd) :
    Script.Triple sys (At sys p₀ p) (stringCalls cmd : Calls ε) (At sys p₀ p)
      (Aborted sys p₀) := by
  have hargs : Script.Triple sys (At sys p₀ p) (cmd.args.flatMap cstringCalls : Calls ε)
      (At sys p₀ p) (Aborted sys p₀) :=
    Script.triple_flatMap (P := fun _ => At sys p₀ p) (fun _ arg => triple_cstring hp arg) []
      cmd.args
  exact Script.triple_append (triple_cstring hp cmd.program) hargs

/-- The last calls, for a process that has its mounts and its environment. -/
theorem triple_last (hp : p₀.Unseen p) (cmd : Cmd) :
    Script.Triple sys (At sys p₀ p) (ttyCalls cmd ++ idCalls cmd : Calls ε)
      (At sys p₀ { p with
        leader := cmd.tty || p.leader
        terminal := cmd.tty || p.terminal
        gid := cmd.gid
        uid := cmd.uid
        image := some (strBytes cmd.program, strBytes cmd.program :: cmd.args.map strBytes) })
      (Aborted sys p₀) := by
  unfold ttyCalls
  cases htty : cmd.tty with
  | false => exact triple_next hp (triple_next hp (triple_must hp))
  | true =>
    exact triple_next hp (triple_next hp (triple_next hp (triple_next hp (triple_must hp))))

/-- What the command has made of a process with its mounts. -/
def Process.finished (p : Process) (cmd : Cmd) : Process :=
  { p with
    env := setVars p.env cmd.envs
    leader := cmd.tty || p.leader
    terminal := cmd.tty || p.terminal
    gid := cmd.gid
    uid := cmd.uid
    image := some (strBytes cmd.program, strBytes cmd.program :: cmd.args.map strBytes) }

theorem triple_finish (hp : p₀.Unseen p) (cmd : Cmd) :
    Script.Triple sys (At sys p₀ p)
      (cmd.envs.flatMap varCalls ++ (stringCalls cmd ++ (ttyCalls cmd ++ idCalls cmd)) : Calls ε)
      (At sys p₀ (p.finished cmd)) (Aborted sys p₀) := by
  have hseen : p₀.Unseen { p with env := setVars p.env cmd.envs } := hp
  exact Script.triple_append (triple_vars hp cmd.envs)
    (Script.triple_append (triple_strings hseen cmd) (triple_last hseen cmd))

/-- The calls of `rootCalls`, in a log that is known. -/
theorem triple_root (hp : p₀.Unseen p) (hns : p.mountNs = .shared) (cmd : Cmd)
    (log : List SysCall) : Script.Triple sys (fun l => l = log ∧ At sys p₀ p l)
      (rootCalls cmd : Calls ε)
      (Mounted sys p₀ (p.rooted cmd) (log ++ Script.calls (rootCalls cmd : Calls ε)) [])
      (Aborted sys p₀) := by
  -- nothing is mounted before the mounts are isolated
  have hroot : p.apply mountRoot = { p with mountNs := .isolated } := by
    change { p with mountNs := if p.mountNs = MountNs.shared then .isolated else p.mountNs } = _
    rw [if_pos hns]
  have hfirst : p₀.Unseen { p with mountNs := .isolated } := hp
  have hsecond : p₀.Unseen { p with mountNs := .isolated, mounts := p.mounts ++ [tmpfsOf cmd] } :=
    hp
  have hempty : MsFlags.empty ≠ .union .MS_REC .MS_PRIVATE := by decide
  have hbind : MsFlags.MS_BIND ≠ .union .MS_REC .MS_PRIVATE := by decide
  have htmp : Script.Triple sys (At sys p₀ { p with mountNs := .isolated })
      ([must (tmpMount cmd) .mountTmp] : Calls ε) (At sys p₀ { p with
        mountNs := .isolated
        mounts := p.mounts ++ [tmpfsOf cmd] }) (Aborted sys p₀) :=
    triple_mount hfirst rfl hempty _ _ _ _ _
  have hlocal : Script.Triple sys (At sys p₀ { p with
        mountNs := .isolated
        mounts := p.mounts ++ [tmpfsOf cmd] })
      ([must (localMount cmd) .mountLocal] : Calls ε) (At sys p₀ (p.rooted cmd))
      (Aborted sys p₀) := by
    refine Script.triple_weaken (triple_mount hsecond rfl hbind _ _ _ _ _) fun log hlog => ?_
    unfold At at hlog ⊢
    rw [hlog]
    simp [Process.rooted, localOf]
  have hcalls : Script.Triple sys (At sys p₀ p) (rootCalls cmd : Calls ε)
      (At sys p₀ (p.rooted cmd)) (Aborted sys p₀) := by
    refine triple_next hp ?_
    rw [hroot]
    exact triple_next hp (Script.triple_append htmp (triple_next hp hlocal))
  refine Script.triple_weaken (Script.triple_calls hcalls log) fun l hl => ?_
  constructor
  · rw [hl.1]
    exact (List.append_nil _).symm
  · have hat := hl.2
    unfold At at hat ⊢
    rw [hat]
    simp [mountedTabs]

theorem triple_cmd (hp : p₀.Unseen p) (hns : p.mountNs = .shared) (cmd : Cmd)
    (log : List SysCall) : Script.Triple sys (fun l => l = log ∧ At sys p₀ p l)
      (cmdCalls cmd : Calls ε)
      (fun l => Became sys (log ++ Script.calls (rootCalls cmd : Calls ε)) p cmd (after sys p₀ l))
      (Aborted sys p₀) := by
  have hrooted : p₀.Unseen (p.rooted cmd) := hp
  have htabs : Script.Triple sys _ (cmd.fstab.flatMap tabCalls : Calls ε)
      (Mounted sys p₀ (p.rooted cmd) (log ++ Script.calls (rootCalls cmd : Calls ε)) cmd.fstab)
      (Aborted sys p₀) :=
    Script.triple_flatMap
      (P := Mounted sys p₀ (p.rooted cmd) (log ++ Script.calls (rootCalls cmd : Calls ε)))
      (triple_tab hrooted rfl _) [] cmd.fstab
  refine Script.triple_append (triple_root hp hns cmd log) (Script.triple_append htabs ?_)
  rintro l ⟨-, hat⟩
  have hseen : p₀.Unseen { p.rooted cmd with
      mounts := (p.rooted cmd).mounts ++ (mountedTabs sys
        (log ++ Script.calls (rootCalls cmd : Calls ε)) cmd.fstab).map mountOf } := hp
  refine Script.triple_weaken (triple_finish hseen cmd) (fun l hl => ?_) l hat
  unfold At at hl
  rw [hl]
  refine ⟨rfl, rfl, rfl, rfl, rfl, ?_, rfl, fun htty => ?_⟩
  · simp [Process.rooted, Process.finished]
  · simp [Process.finished, htty]

theorem triple_connect (hp : p₀.image = none) (hns : p₀.mountNs = .host) (prost : Prost)
    (port : UInt16) (stream : Incoming IoError) :
    Script.Triple sys (fun l => l = [] ∧ At sys p₀ p₀ l) (connectCalls prost port stream)
      (fun l => ∃ cmd, readCmd prost stream = .ok cmd ∧
        Became sys (beforeTabs port cmd) p₀ cmd (after sys p₀ l)) (Aborted sys p₀) := by
  have hunshared : p₀.apply .unshare = { p₀ with mountNs := .shared } := by
    change { p₀ with mountNs := if p₀.mountNs = MountNs.host then .shared else p₀.mountNs } = _
    rw [if_pos hns]
  have hseen : p₀.Unseen { p₀ with mountNs := .shared } := ⟨rfl, hp⟩
  have hstart : Script.Triple sys (fun l => l = [] ∧ At sys p₀ p₀ l)
      ([must .unshare (.unshare "CLONE_NEWNS"), must (.connect port) .connectToPort] :
        Calls prost.DecodeError)
      (fun l => l = [.unshare, .connect port] ∧ At sys p₀ { p₀ with mountNs := .shared } l)
      (Aborted sys p₀) := by
    have hboth : Script.Triple sys (At sys p₀ p₀)
        ([must .unshare (.unshare "CLONE_NEWNS"), must (.connect port) .connectToPort] :
          Calls prost.DecodeError) (At sys p₀ { p₀ with mountNs := .shared })
        (Aborted sys p₀) := by
      refine triple_next ⟨rfl, hp⟩ ?_
      rw [hunshared]
      exact triple_must hseen
    exact Script.triple_calls hboth []
  refine Script.triple_append hstart ?_
  cases hcmd : readCmd prost stream with
  | ok cmd =>
    have hshutdown : Script.Triple sys _ ([must .shutdown .shutdownSocket] :
        Calls prost.DecodeError) _ (Aborted sys p₀) :=
      Script.triple_calls (triple_must hseen) [.unshare, .connect port]
    refine Script.triple_append hshutdown ?_
    refine Script.triple_weaken (triple_cmd hseen rfl cmd _) fun l hl => ⟨cmd, rfl, ?_⟩
    exact ⟨hl.image, hl.uid, hl.gid, hl.mountNs, hl.hostMounts, hl.mounts, hl.env, hl.terminal⟩
  | error e =>
    refine Script.triple_stop fun l hl => ?_
    have hl' : after sys p₀ l = { p₀ with mountNs := .shared } := hl.2
    unfold Aborted
    rw [hl']
    exact hseen

end

/-- The launched process makes the calls for its command in their order up to the first one that
fails, other than the mounts of the fstab, and fails with the error of that one. The host gets no
mount of it. When all succeed it has become the program of the command, with the ids and the
environment of the command and those of its mounts that the system accepts, and otherwise it
executes nothing. -/
theorem launch_outcome (sys : Sys) (prost : Prost) (port : UInt16) (stream : Incoming IoError)
    (p₀ : Process) (hns : p₀.mountNs = .host) (himage : p₀.image = none) :
    (after sys p₀ (exec (connect sys prost port stream) []).2).hostMounts = p₀.hostMounts ∧
    ((Script.Passes sys (connectCalls prost port stream) [] ∧
      exec (connect sys prost port stream) [] =
        (.ok (), Script.calls (connectCalls prost port stream)) ∧
      ∃ cmd, stream.error = none ∧ Carries prost stream.bytes cmd ∧
        Became sys (beforeTabs port cmd) p₀ cmd
          (after sys p₀ (Script.calls (connectCalls prost port stream)))) ∨
    ∃ before i behind e, connectCalls prost port stream = before ++ i :: behind ∧
      Script.Passes sys before [] ∧ i.failure sys (Script.calls before) = some e ∧
      exec (connect sys prost port stream) [] = (.error e, Script.calls before ++ i.calls) ∧
      (after sys p₀ (Script.calls before ++ i.calls)).image = none) := by
  have hfollows : Follows sys (connect sys prost port stream) (connectCalls prost port stream) () :=
    follows_connect prost port stream
  have hends : Script.Triple sys _ (connectCalls prost port stream) _ _ :=
    triple_connect himage hns prost port stream
  have hcases : Script.Passes sys (connectCalls prost port stream) [] ∨ _ :=
    Script.passes_or_fails (connectCalls prost port stream) []
  have hconnect := hfollows []
  have htriple := hends [] ⟨rfl, rfl⟩
  rcases hcases with hpass | ⟨before, i, behind, e, hscript, hbefore, hi⟩
  · rw [Script.run_of_passes hpass] at hconnect htriple
    obtain ⟨cmd, hcmd, hbecame⟩ := htriple
    obtain ⟨herror, hcarries⟩ := readCmd_eq_ok_iff.mp hcmd
    rw [hconnect]
    exact ⟨hbecame.hostMounts, .inl ⟨hpass, rfl, cmd, herror, hcarries, hbecame⟩⟩
  · rw [hscript, Script.run_of_failure hbefore hi] at hconnect htriple
    obtain ⟨hmounts, hnone⟩ := htriple
    rw [hconnect]
    exact ⟨hmounts, .inr ⟨before, i, behind, e, hscript, hbefore, hi, rfl, hnone⟩⟩

/-- The process of a server that has made no mount. -/
def serverProcess : Process where
  mountNs := .host
  mounts := []
  hostMounts := []
  env _ := none
  uid := 0
  gid := 0
  leader := false
  terminal := false
  image := none

/-- A system on which the process may not change its user. -/
def keepsUser : Sys := fun _ c =>
  match c with
  | .setuid _ => .error .EPERM
  | _ => .ok ()

theorem launch_outcome_keepsUser :
    (exec (connect keepsUser shortProst 80 shortStream) []).1 =
        .error (.error (.setUid .EPERM)) ∧
      (after keepsUser serverProcess
        (exec (connect keepsUser shortProst 80 shortStream) []).2).hostMounts = [] :=
  ⟨rfl, (launch_outcome keepsUser shortProst 80 shortStream serverProcess rfl rfl).1⟩

end P9cpu.Cpu.Launcher
