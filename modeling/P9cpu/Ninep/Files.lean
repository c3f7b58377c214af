import P9cpu.Ninep.Locks
import P9cpu.Ninep.Stages

/-! Open files that finish their writes in the background, as those of `tokio::fs` do. -/
namespace P9cpu.Ninep

/-- Bytes at an offset of a file. -/
structure Extent where
  offset : ℕ
  bytes : List UInt8
deriving DecidableEq

def Extent.get (e : Extent) (x : ℕ) : Option UInt8 :=
  if e.offset ≤ x then e.bytes[x - e.offset]? else none

/-- `pwrite`: what is skipped at the end of the file is zero. -/
def Extent.writeTo (e : Extent) (content : List UInt8) : List UInt8 :=
  if e.bytes = [] then content
  else content.take e.offset ++ List.replicate (e.offset - content.length) 0 ++ e.bytes ++
    content.drop (e.offset + e.bytes.length)

def setLen (content : List UInt8) (size : ℕ) : List UInt8 :=
  content.take size ++ List.replicate (size - content.length) 0

/-- `tokio::fs::File`. A write is `pending` from its return to the end of its work in the
background, and the next operation on the file waits for it. -/
structure OpenFile where
  /-- the file that is open -/
  node : ℕ
  pos : ℕ
  pending : Option Extent
deriving DecidableEq

/-- The open file that an operation moves. -/
def HostOp.moves : HostOp → Option FileId
  | .seek f _ | .read f _ | .write f _ => some f
  | _ => none

/-- The rest of the host, which finds files by their paths. -/
structure Names where
  State : Type
  /-- all that is not about open files -/
  exec : (o : HostOp) → State → HostRes o × State
  find : PathBuf → UInt32 → UInt32 → State → Except Errno ℕ × State
  findWrite : PathBuf → State → Except IoError ℕ × State

structure Files (σ : Type) where
  names : σ
  content : ℕ → List UInt8
  files : List OpenFile

/-- `O_TRUNC` -/
def truncates (oflags : UInt32) : Bool := oflags &&& 0o1000 ≠ 0

def EINVAL : IoError := .os 22
def EBADF : IoError := .os 9

namespace Files

variable {σ : Type}

def setFile (s : Files σ) (f : FileId) (file : OpenFile) : Files σ :=
  { s with files := s.files.set f file }

def setContent (s : Files σ) (node : ℕ) (content : List UInt8) : Files σ :=
  { s with content := Function.update s.content node content }

/-- A new `File` object. -/
def add (s : Files σ) (node : ℕ) : Files σ := { s with files := s.files ++ [⟨node, 0, none⟩] }

/-- The writes of other objects on the same file that are still under way. -/
def underway (s : Files σ) (f : FileId) (node : ℕ) : List Extent :=
  ((s.files.eraseIdx f).filter (fun file => file.node = node)).filterMap OpenFile.pending

/-- One operation. At most `cap` bytes fit in the buffer of a `File`. -/
def exec (N : Names) (cap : ℕ) :
    (o : HostOp) → Files N.State → Option (HostRes o × Files N.State)
  | .open path oflags omode, s =>
    match N.find path oflags omode s.names with
    | (.ok node, names) =>
      let s := { s with names := names }
      let s := if truncates oflags then s.setContent node [] else s
      some (.ok s.files.length, s.add node)
    | (.error e, names) => some (.error e, { s with names := names })
  | .openWrite path, s =>
    match N.findWrite path s.names with
    | (.ok node, names) => some (.ok s.files.length, { s with names := names }.add node)
    | (.error e, names) => some (.error e, { s with names := names })
  | .setLen f size, s =>
    match s.files[f]? with
    | some ⟨node, _, none⟩ =>
      some (.ok (), s.setContent node (Ninep.setLen (s.content node) size.toNat))
    | some _ => none
    | none => some (.error EBADF, s)
  | .seek f offset, s =>
    match s.files[f]? with
    | some ⟨node, _, none⟩ =>
      if offset.toNat < 2 ^ 63 then some (.ok offset, s.setFile f ⟨node, offset.toNat, none⟩)
      else some (.error EINVAL, s)
    | some _ => none
    | none => some (.error EBADF, s)
  | .read f count, s =>
    match s.files[f]? with
    | some ⟨node, pos, none⟩ =>
      let bytes := ((s.content node).drop pos).take (min count cap)
      some (.ok ⟨bytes, (List.length_take_le ..).trans (Nat.min_le_left ..)⟩,
        s.setFile f ⟨node, pos + bytes.length, none⟩)
    | some _ => none
    | none => some (.error EBADF, s)
  | .write f data, s =>
    match s.files[f]? with
    | some ⟨node, pos, none⟩ =>
      let n := min data.length cap
      some (.ok ⟨n, Nat.min_le_left ..⟩,
        s.setFile f ⟨node, pos + n, some ⟨pos, data.take n⟩⟩)
    | some _ => none
    | none => some (.error EBADF, s)
  | .syncAll f, s =>
    match s.files[f]? with
    | some ⟨_, _, none⟩ => some (.ok (), s)
    | some _ => none
    | none => some (.error EBADF, s)
  | o, s => some ((N.exec o s.names).1, { s with names := (N.exec o s.names).2 })

/-- The work in the background for one `File` ends. -/
def finish (f : FileId) (s : Files σ) : Option (Files σ) :=
  match s.files[f]? with
  | some ⟨node, pos, some e⟩ =>
    some ((s.setContent node (e.writeTo (s.content node))).setFile f ⟨node, pos, none⟩)
  | _ => none

end Files

def fileHost (N : Names) (cap : ℕ) : SharedHost where
  State := Files N.State
  Event := FileId
  exec := Files.exec N cap
  tick := Files.finish

section
variable {N : Names} {cap : ℕ} {s t : Files N.State}

/-- What an operation answers and does. -/
inductive Executes (N : Names) (cap : ℕ) (s : Files N.State) :
    (o : HostOp) → HostRes o → Files N.State → Prop
  | opened (path : PathBuf) (oflags omode : UInt32) (node : ℕ) (names : N.State)
      (h : truncates oflags = false) :
      Executes N cap s (.open path oflags omode) (.ok s.files.length)
        ({ s with names := names }.add node)
  | emptied (path : PathBuf) (oflags omode : UInt32) (node : ℕ) (names : N.State)
      (h : truncates oflags = true) :
      Executes N cap s (.open path oflags omode) (.ok s.files.length)
        (({ s with names := names }.setContent node []).add node)
  | notOpened (path : PathBuf) (oflags omode : UInt32) (e : Errno) (names : N.State) :
      Executes N cap s (.open path oflags omode) (.error e) { s with names := names }
  | openedWrite (path : PathBuf) (node : ℕ) (names : N.State) :
      Executes N cap s (.openWrite path) (.ok s.files.length) ({ s with names := names }.add node)
  | notOpenedWrite (path : PathBuf) (e : IoError) (names : N.State) :
      Executes N cap s (.openWrite path) (.error e) { s with names := names }
  | resized (f : FileId) (size : UInt64) (node pos : ℕ) (h : s.files[f]? = some ⟨node, pos, none⟩) :
      Executes N cap s (.setLen f size) (.ok ())
        (s.setContent node (setLen (s.content node) size.toNat))
  | notResized (f : FileId) (size : UInt64) (e : IoError) :
      Executes N cap s (.setLen f size) (.error e) s
  | sought (f : FileId) (offset : UInt64) (node pos : ℕ)
      (h : s.files[f]? = some ⟨node, pos, none⟩) :
      Executes N cap s (.seek f offset) (.ok offset) (s.setFile f ⟨node, offset.toNat, none⟩)
  | notSought (f : FileId) (offset : UInt64) (e : IoError) :
      Executes N cap s (.seek f offset) (.error e) s
  | read (f : FileId) (count node pos : ℕ) (bytes : { bytes : List UInt8 // bytes.length ≤ count })
      (h : s.files[f]? = some ⟨node, pos, none⟩)
      (hbytes : bytes.val = ((s.content node).drop pos).take (min count cap)) :
      Executes N cap s (.read f count) (.ok bytes)
        (s.setFile f ⟨node, pos + bytes.val.length, none⟩)
  | notRead (f : FileId) (count : ℕ) (e : IoError) : Executes N cap s (.read f count) (.error e) s
  | wrote (f : FileId) (data : List UInt8) (node pos : ℕ) (n : { n : ℕ // n ≤ data.length })
      (h : s.files[f]? = some ⟨node, pos, none⟩) (hn : n.val = min data.length cap) :
      Executes N cap s (.write f data) (.ok n)
        (s.setFile f ⟨node, pos + n.val, some ⟨pos, data.take n.val⟩⟩)
  | notWritten (f : FileId) (data : List UInt8) (e : IoError) :
      Executes N cap s (.write f data) (.error e) s
  | synced (f : FileId) (r : Except IoError Unit) : Executes N cap s (.syncAll f) r s
  | other (o : HostOp) (r : HostRes o) (names : N.State)
      (h : o.moves = none ∧ (UnpfsOp.host o).Plain) : Executes N cap s o r { s with names := names }

theorem executes_of_exec {o : HostOp} {r : HostRes o} (h : Files.exec N cap o s = some (r, t)) :
    Executes N cap s o r t := by
  cases o with
  | «open» path oflags omode =>
    simp only [Files.exec] at h
    split at h
    next node names hfind =>
      cases htrunc : truncates oflags with
      | true =>
        simp only [htrunc, if_true] at h
        cases h
        exact .emptied path oflags omode node names htrunc
      | false =>
        simp only [htrunc, Bool.false_eq_true, if_false] at h
        cases h
        exact .opened path oflags omode node names htrunc
    next e names hfind =>
      cases h
      exact .notOpened path oflags omode e names
  | openWrite path =>
    simp only [Files.exec] at h
    split at h
    next node names hfind =>
      cases h
      exact .openedWrite path node names
    next e names hfind =>
      cases h
      exact .notOpenedWrite path e names
  | setLen f size =>
    simp only [Files.exec] at h
    split at h
    next node pos hfile =>
      cases h
      exact .resized f size node pos hfile
    next => cases h
    next =>
      cases h
      exact .notResized f size EBADF
  | seek f offset =>
    simp only [Files.exec] at h
    split at h
    next node pos hfile =>
      split_ifs at h
      · cases h
        exact .sought f offset node pos hfile
      · cases h
        exact .notSought f offset EINVAL
    next => cases h
    next =>
      cases h
      exact .notSought f offset EBADF
  | read f count =>
    simp only [Files.exec] at h
    split at h
    next node pos hfile =>
      cases h
      exact .read f count node pos _ hfile rfl
    next => cases h
    next =>
      cases h
      exact .notRead f count EBADF
  | write f data =>
    simp only [Files.exec] at h
    split at h
    next node pos hfile =>
      cases h
      exact .wrote f data node pos _ hfile rfl
    next => cases h
    next =>
      cases h
      exact .notWritten f data EBADF
  | syncAll f =>
    simp only [Files.exec] at h
    split at h
    next =>
      cases h
      exact .synced f _
    next => cases h
    next =>
      cases h
      exact .synced f _
  | _ =>
    simp only [Files.exec] at h
    cases h
    exact .other _ _ _ ⟨rfl, True.intro⟩

end

/-! What happens to the bytes of files. -/

inductive Access
  | read (task : ℕ) (file : FileId) (node count : ℕ) (data : Extent) (underway : List Extent)
  | write (task : ℕ) (file : FileId) (node : ℕ) (data : Extent) (underway : List Extent)
  | truncate (task node size : ℕ)

def Access.task : Access → ℕ
  | .read i .. | .write i .. | .truncate i .. => i

/-- The access may change a byte. -/
def Access.Hits (node x : ℕ) : Access → Prop
  | .write _ _ n e _ => n = node ∧ e.get x ≠ none
  | .truncate _ n size => n = node ∧ size ≤ x
  | .read .. => False

/-- What an operation of a task from `s` to `t` does to the bytes of a file. -/
def Files.access {σ : Type} (i : ℕ) (s t : Files σ) : (o : HostOp) → HostRes o → Option Access
  | .read f count, .ok bytes =>
    s.files[f]?.map (fun file =>
      .read i f file.node count ⟨file.pos, bytes.val⟩ (s.underway f file.node))
  | .write f data, .ok n =>
    s.files[f]?.map (fun file =>
      .write i f file.node ⟨file.pos, data.take n.val⟩ (s.underway f file.node))
  | .setLen f size, .ok _ =>
    s.files[f]?.map (fun file => .truncate i file.node size.toNat)
  | .open _ oflags _, .ok f =>
    if truncates oflags then t.files[f]?.map (fun file => .truncate i file.node 0) else none
  | _, _ => none

end P9cpu.Ninep
