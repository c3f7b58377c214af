import P9cpu.Ninep.Unpfs

/-! The objects of fids and a host whose calls take effect one after the other. -/
namespace P9cpu.Ninep
open Core

/-- `UnpfsFid`: the path of a fid and its open file. -/
structure UnpfsFid where
  realpath : PathBuf
  file : Option FileId
deriving DecidableEq

/-- `UnpfsFid::default()`. -/
def UnpfsFid.default : UnpfsFid := ⟨⟨[]⟩, none⟩

structure Host where
  State : Type
  exec : (o : HostOp) → State → HostRes o × State
  /-- `lstat` only looks -/
  lstat_state : ∀ path s, (exec (.symlinkMetadata path) s).2 = s

namespace Host

def lstat (h : Host) (s : h.State) (path : PathBuf) : Except IoError Metadata :=
  (h.exec (.symlinkMetadata path) s).1

structure Objs (σ : Type) where
  objs : ObjId → UnpfsFid
  host : σ

namespace Objs

variable {σ : Type}

/-- The object of a new fid. -/
def create (s : Objs σ) (a : ObjId) : Objs σ :=
  { s with objs := Function.update s.objs a UnpfsFid.default }

def setRealpath (s : Objs σ) (a : ObjId) (path : PathBuf) : Objs σ :=
  { s with objs := Function.update s.objs a { s.objs a with realpath := path } }

def setFile (s : Objs σ) (a : ObjId) (file : FileId) : Objs σ :=
  { s with objs := Function.update s.objs a { s.objs a with file := some file } }

@[simp] theorem create_host (s : Objs σ) (a : ObjId) : (s.create a).host = s.host := rfl

theorem create_of_ne (s : Objs σ) {a b : ObjId} (h : b ≠ a) :
    (s.create a).objs b = s.objs b := by simp [create, h]

@[simp] theorem setRealpath_host (s : Objs σ) (a : ObjId) (path : PathBuf) :
    (s.setRealpath a path).host = s.host := rfl

@[simp] theorem setRealpath_self (s : Objs σ) (a : ObjId) (path : PathBuf) :
    ((s.setRealpath a path).objs a).realpath = path := by simp [setRealpath]

@[simp] theorem setRealpath_of_ne (s : Objs σ) {a b : ObjId} (path : PathBuf) (h : b ≠ a) :
    (s.setRealpath a path).objs b = s.objs b := by simp [setRealpath, h]

end Objs

/-- Handlers one at a time: no lock has to be waited for. -/
def objsExec (h : Host) : (o : UnpfsOp) → Objs h.State → UnpfsRes o × Objs h.State
  | .realpathRead a, s => ((s.objs a).realpath, s)
  | .realpathUnread _, s => ((), s)
  | .realpathWrite a path, s => ((), s.setRealpath a path)
  | .fileLock a, s => ((s.objs a).file, s)
  | .fileSet a file, s => ((), s.setFile a file)
  | .fileUnlock _, s => ((), s)
  | .host o, s => ((h.exec o s.host).1, { s with host := (h.exec o s.host).2 })

abbrev backend (h : Host) : Backend UnpfsOp UnpfsRes where
  State := Objs h.State
  create a s := s.create a
  exec := h.objsExec

variable {h : Host} {α β : Type}

/-- A handler from a state to its result and the state after it. -/
def runs (h : Host) (p : UnpfsHandler α) (s : Objs h.State) : Except Error α × Objs h.State :=
  p.run.run h.objsExec s

@[simp] theorem runs_pure (a : α) (s : Objs h.State) :
    h.runs (pure a : UnpfsHandler α) s = (.ok a, s) := rfl

@[simp] theorem runs_throw (e : Error) (s : Objs h.State) :
    h.runs (throw e : UnpfsHandler α) s = (.error e, s) := rfl

theorem runs_bind (p : UnpfsHandler α) (f : α → UnpfsHandler β) (s : Objs h.State) :
    h.runs (p >>= f) s = match h.runs p s with
      | (.ok a, s) => h.runs (f a) s
      | (.error e, s) => (.error e, s) := by
  simp only [runs, ExceptT.run_bind, Prog.run_bind]
  cases p.run.run h.objsExec s with
  | mk r s =>
    cases r with
    | ok a => rfl
    | error e => rfl

@[simp] theorem runs_realpath (fid : Fid) (s : Objs h.State) :
    h.runs (realpath fid) s = (.ok (s.objs fid.aux).realpath, s) := rfl

@[simp] theorem runs_setRealpath (fid : Fid) (path : PathBuf) (s : Objs h.State) :
    h.runs (setRealpath fid path) s = (.ok (), s.setRealpath fid.aux path) := rfl

theorem runs_symlinkMetadata (path : PathBuf) (s : Objs h.State) :
    h.runs (liftIo (op (.host (.symlinkMetadata path)))) s =
      ((h.lstat s.host path).mapError Error.io, s) := by
  have hrun : h.runs (liftIo (op (.host (.symlinkMetadata path)))) s =
      ((h.lstat s.host path).mapError Error.io,
        { s with host := (h.exec (.symlinkMetadata path) s.host).2 }) := rfl
  rw [hrun, h.lstat_state]

theorem runs_getQid (path : PathBuf) (s : Objs h.State) :
    h.runs (getQid path) s =
      (((h.lstat s.host path).map qidFromAttr).mapError Error.io, s) := by
  rw [getQid, runs_bind, runs_symlinkMetadata]
  cases h.lstat s.host path with
  | ok attr => rfl
  | error e => rfl

theorem runs_attempt (p : UnpfsHandler α) (s : Objs h.State) :
    h.runs (attempt p) s = (.ok (h.runs p s).1, (h.runs p s).2) := by
  simp only [runs, attempt, ExceptT.run_mk, map_eq_pure_bind, Prog.run_bind]
  rfl

end Host
end P9cpu.Ninep
