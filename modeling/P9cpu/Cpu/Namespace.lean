import P9cpu.Cpu.Server

/-! The namespace that a user asks for, from its text to the fstab that the server sends. -/
namespace P9cpu.Cpu

/-- `str::split` with a character: `n` separators make `n + 1` parts. -/
def split (s : String) (sep : Char) : List String := (s.toList.splitOn sep).map String.ofList

/-- The mount point of the 9p file system. -/
def ninepMount (tmpMnt : String) : String := tmpMnt ++ "/" ++ NINEP_MOUNT

def ninepEntry (tmpMnt : String) : FsTab where
  spec := ""
  file := ninepMount tmpMnt
  vfstype := "9p"
  mntops := ""
  freq := 0
  passno := 0

def bindEntry (tmpMnt target source : String) : FsTab where
  spec := ninepMount tmpMnt ++ source
  file := target
  vfstype := "none"
  mntops := "defaults,bind"
  freq := 0
  passno := 0

/-- The target and the source of a part; a part with two `=` is invalid. -/
def parsePart (part : String) : Option (String × String) :=
  match split part '=' with
  | [target] => some (target, target)
  | [target, source] => some (target, source)
  | _ => none

/-- The loop of `parse_namespace`, with the set of the targets that came before. -/
def bindEntries (tmpMnt : String) : List String → List String → List FsTab
  | _, [] => []
  | targets, part :: parts =>
    match parsePart part with
    | none => bindEntries tmpMnt targets parts
    | some (target, source) =>
      if target ∈ targets then bindEntries tmpMnt targets parts
      else bindEntry tmpMnt target source :: bindEntries tmpMnt (target :: targets) parts

/-- `parse_namespace` -/
def parseNamespace (nmspace tmpMnt : String) : List FsTab :=
  if nmspace.isEmpty then []
  else
    let result := ninepEntry tmpMnt :: bindEntries tmpMnt [] (split nmspace ':')
    if result.length = 1 then [] else result

/-- What `parse_namespace` returns starts with the entry of the 9p file system. -/
theorem parseNamespace_cases (nmspace tmpMnt : String) :
    parseNamespace nmspace tmpMnt = [] ∨
      parseNamespace nmspace tmpMnt =
        ninepEntry tmpMnt :: bindEntries tmpMnt [] (split nmspace ':') := by
  unfold parseNamespace
  split
  · exact .inl rfl
  · dsimp only
    split
    · exact .inl rfl
    · exact .inr rfl

/-- Every entry after the first one is a bind from below the mount point. -/
theorem eq_bindEntry_of_mem {tmpMnt : String} {targets parts : List String} {tab : FsTab}
    (h : tab ∈ bindEntries tmpMnt targets parts) :
    ∃ target source, tab = bindEntry tmpMnt target source := by
  induction parts generalizing targets with
  | nil => cases h
  | cons part parts ih =>
    unfold bindEntries at h
    split at h
    · exact ih h
    · rename_i target source _
      split at h
      · exact ih h
      · cases h with
        | head => exact ⟨target, source, rfl⟩
        | tail _ h => exact ih h

/-- The arguments of `p9cpu` that end up in the command, with the lines of its `fs_tab` file. -/
structure Args where
  nmspace : String
  tty : Bool
  fsTab : List FsTab
  tmpMnt : String
  uid : UInt32
  gid : UInt32
  args : List String

inductive AppError
  | emptyTmpMnt
  /-- `args.args[0]` is out of bounds -/
  | noProgram
deriving DecidableEq

def AppError.message : AppError → String
  | .emptyTmpMnt => "`tmp_mnt` cannot be empty"
  | .noProgram => "index out of bounds: the len is 0 but the index is 0"

namespace Args

def ninep (args : Args) : Bool := !(parseNamespace args.nmspace args.tmpMnt).isEmpty

def fsTabLines (args : Args) : List FsTab :=
  parseNamespace args.nmspace args.tmpMnt ++ args.fsTab

/-- The command that `app` builds for `program`. -/
def command (args : Args) (program : String) (rest : List String) (vars : List EnvVar) : Cmd where
  program := program
  args := rest
  envs := vars
  fstab := args.fsTabLines
  ninep := args.ninep
  tty := args.tty
  tmpMnt := args.tmpMnt
  uid := args.uid
  gid := args.gid

/-- `app` up to its connection to the server; `vars` is its environment. -/
def app (args : Args) (vars : List EnvVar) : Except AppError Cmd :=
  if args.tmpMnt.isEmpty then .error .emptyTmpMnt
  else
    match args.args with
    | [] => .error .noProgram
    | program :: rest => .ok (args.command program rest vars)

end Args

/-- The entry of the 9p file system as the server sends it. -/
def mountEntry (tmpMnt : String) (ninepPort : UInt16) : FsTab where
  spec := "127.0.0.1"
  file := ninepMount tmpMnt
  vfstype := "9p"
  mntops := "version=9p2000.L,trans=tcp,port=" ++ toString ninepPort
  freq := 0
  passno := 0

/-- Only the first entry for the mount point is filled in. -/
theorem fillNinep_cons (tmpMnt : String) (ninepPort : UInt16) (fstab : List FsTab) :
    fillNinep tmpMnt ninepPort (ninepEntry tmpMnt :: fstab) =
      mountEntry tmpMnt ninepPort :: fstab := by
  unfold fillNinep
  exact if_pos ⟨rfl, rfl⟩

theorem ninep_eq_false_iff {args : Args} :
    args.ninep = false ↔ parseNamespace args.nmspace args.tmpMnt = [] := by
  unfold Args.ninep
  rw [Bool.not_eq_false', List.isEmpty_iff]

/-- With a namespace the server sends the 9p mount first and the other entries as they were,
the binds from it and then the lines of the user; without one it sends the command as it is. -/
theorem ninep_mounted (args : Args) (program : String) (rest : List String)
    (vars : List EnvVar) (ninepPort : UInt16) :
    let cmd := args.command program rest vars
    let fstab := parseNamespace args.nmspace args.tmpMnt ++ args.fsTab
    cmd.fstab = fstab ∧
    (cmd.ninep = true ↔ parseNamespace args.nmspace args.tmpMnt ≠ []) ∧
    (cmd.ninep = true → ∃ binds : List FsTab,
      fstab = ninepEntry args.tmpMnt :: (binds ++ args.fsTab) ∧
      (∀ tab ∈ binds, ∃ target source, tab = bindEntry args.tmpMnt target source) ∧
      Server.prepare cmd (some ninepPort) =
        .ok { cmd with fstab := mountEntry args.tmpMnt ninepPort :: (binds ++ args.fsTab) }) ∧
    (cmd.ninep = false → Server.prepare cmd (some ninepPort) = .ok cmd) := by
  intro cmd fstab
  have hninep : cmd.ninep = false ↔ parseNamespace args.nmspace args.tmpMnt = [] :=
    ninep_eq_false_iff
  refine ⟨rfl, ?_, fun hset => ?_, fun hunset => ?_⟩
  · rw [← Bool.not_eq_false, hninep]
  · have hne : parseNamespace args.nmspace args.tmpMnt ≠ [] := by
      rw [Ne, ← hninep, hset]
      simp
    have hparsed := (parseNamespace_cases args.nmspace args.tmpMnt).resolve_left hne
    have hfstab : fstab = ninepEntry args.tmpMnt ::
        (bindEntries args.tmpMnt [] (split args.nmspace ':') ++ args.fsTab) :=
      congrArg (· ++ args.fsTab) hparsed
    refine ⟨bindEntries args.tmpMnt [] (split args.nmspace ':'), hfstab,
      fun tab htab => eq_bindEntry_of_mem htab, ?_⟩
    have hfilled : fillNinep cmd.tmpMnt ninepPort cmd.fstab = mountEntry args.tmpMnt ninepPort ::
        (bindEntries args.tmpMnt [] (split args.nmspace ':') ++ args.fsTab) := by
      change fillNinep args.tmpMnt ninepPort fstab = _
      rw [hfstab]
      exact fillNinep_cons args.tmpMnt ninepPort _
    unfold Server.prepare
    rw [if_pos hset]
    dsimp only
    rw [hfilled]
  · unfold Server.prepare
    rw [hunset]
    rfl

end P9cpu.Cpu
