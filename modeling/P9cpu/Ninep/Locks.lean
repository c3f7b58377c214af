import P9cpu.Ninep.Host

/-! The objects of fids behind their locks, shared by the tasks of a connection, and a host
whose calls take effect between other things that happen to it. -/
namespace P9cpu.Ninep
open Core

/-- A host that may let a call wait and that moves on its own. -/
structure SharedHost where
  State : Type
  Event : Type
  exec : (o : HostOp) → State → Option (HostRes o × State)
  tick : Event → State → Option State

/-- `UnpfsFid` with the state of its two locks. -/
structure LockedFid extends UnpfsFid where
  /-- how many tasks hold the read lock of `realpath` -/
  readers : ℕ
  /-- a task holds the lock of `file` -/
  locked : Bool

def LockedFid.default : LockedFid := ⟨UnpfsFid.default, 0, false⟩

structure LockedObjs (σ : Type) where
  objs : ObjId → LockedFid
  host : σ

namespace LockedObjs

variable {σ : Type}

def set (s : LockedObjs σ) (a : ObjId) (fid : LockedFid) : LockedObjs σ :=
  { s with objs := Function.update s.objs a fid }

def realpath (s : LockedObjs σ) (a : ObjId) : PathBuf := (s.objs a).realpath

@[simp] theorem set_host (s : LockedObjs σ) (a : ObjId) (fid : LockedFid) :
    (s.set a fid).host = s.host := rfl

@[simp] theorem realpath_set_self (s : LockedObjs σ) (a : ObjId) (fid : LockedFid) :
    (s.set a fid).realpath a = fid.realpath := by simp [set, realpath]

theorem realpath_set_of_ne (s : LockedObjs σ) {a b : ObjId} (fid : LockedFid) (h : b ≠ a) :
    (s.set a fid).realpath b = s.realpath b := by simp [set, realpath, h]

theorem realpath_set_of_eq {s : LockedObjs σ} {a : ObjId} {fid : LockedFid}
    (h : fid.realpath = s.realpath a) (b : ObjId) :
    (s.set a fid).realpath b = s.realpath b := by
  by_cases hb : b = a
  · subst hb
    rw [realpath_set_self, h]
  · exact s.realpath_set_of_ne fid hb

end LockedObjs

namespace SharedHost

variable (h : SharedHost)

/-- An operation waits while another task holds the lock that it needs. -/
def lockedExec : (o : UnpfsOp) → LockedObjs h.State → Option (UnpfsRes o × LockedObjs h.State)
  | .realpathRead a, s =>
    some (s.realpath a, s.set a { s.objs a with readers := (s.objs a).readers + 1 })
  | .realpathUnread a, s => some ((), s.set a { s.objs a with readers := (s.objs a).readers - 1 })
  | .realpathWrite a path, s =>
    if (s.objs a).readers = 0 then some ((), s.set a { s.objs a with realpath := path }) else none
  | .fileLock a, s =>
    if (s.objs a).locked then none
    else some ((s.objs a).file, s.set a { s.objs a with locked := true })
  | .fileSet a file, s => some ((), s.set a { s.objs a with file := some file })
  | .fileUnlock a, s => some ((), s.set a { s.objs a with locked := false })
  | .host o, s => (h.exec o s.host).map fun x => (x.1, { s with host := x.2 })

/-- What the tasks of a connection of `Unpfs` share. -/
def world : World UnpfsOp UnpfsRes where
  State := LockedObjs h.State
  Event := h.Event
  create a s := s.set a LockedFid.default
  exec := h.lockedExec
  tick e s := (h.tick e s.host).map fun host => { s with host := host }

variable {h}

/-- A step of a handler writes a path only by `realpathWrite`. -/
theorem realpath_of_exec {o : UnpfsOp} {s t : LockedObjs h.State} {r : UnpfsRes o}
    (hexec : h.lockedExec o s = some (r, t)) {a : ObjId}
    (hw : ∀ path, o ≠ .realpathWrite a path) : t.realpath a = s.realpath a := by
  cases o with
  | realpathRead b =>
    cases hexec
    apply LockedObjs.realpath_set_of_eq
    rfl
  | realpathUnread b =>
    cases hexec
    apply LockedObjs.realpath_set_of_eq
    rfl
  | realpathWrite b path =>
    simp only [lockedExec] at hexec
    split_ifs at hexec
    cases hexec
    have hne : a ≠ b := by
      rintro rfl
      exact hw path rfl
    exact s.realpath_set_of_ne _ hne
  | fileLock b =>
    simp only [lockedExec] at hexec
    split_ifs at hexec
    cases hexec
    apply LockedObjs.realpath_set_of_eq
    rfl
  | fileSet b file =>
    cases hexec
    apply LockedObjs.realpath_set_of_eq
    rfl
  | fileUnlock b =>
    cases hexec
    apply LockedObjs.realpath_set_of_eq
    rfl
  | host o =>
    obtain ⟨x, -, hx⟩ := Option.map_eq_some_iff.mp hexec
    cases hx
    rfl

theorem realpath_of_write {a : ObjId} {path : PathBuf} {s t : LockedObjs h.State} {r : Unit}
    (hexec : h.lockedExec (.realpathWrite a path) s = some (r, t)) : t.realpath a = path := by
  simp only [lockedExec] at hexec
  split_ifs at hexec
  cases hexec
  exact s.realpath_set_self a _

/-- A step of a handler stores a file only by `fileSet`. -/
theorem file_of_exec {o : UnpfsOp} {s t : LockedObjs h.State} {r : UnpfsRes o}
    (hexec : h.lockedExec o s = some (r, t)) {a : ObjId} (hw : ∀ file, o ≠ .fileSet a file) :
    (t.objs a).file = (s.objs a).file := by
  have hset (b : ObjId) (fid : LockedFid) (hfid : a = b → fid.file = (s.objs a).file) :
      ((s.set b fid).objs a).file = (s.objs a).file := by
    by_cases hab : a = b
    · subst hab
      simp [LockedObjs.set, hfid rfl]
    · simp [LockedObjs.set, hab]
  cases o with
  | realpathRead b | realpathUnread b | fileUnlock b =>
    cases hexec
    apply hset
    rintro rfl
    rfl
  | realpathWrite b path =>
    simp only [lockedExec] at hexec
    split_ifs at hexec
    cases hexec
    apply hset
    rintro rfl
    rfl
  | fileLock b =>
    simp only [lockedExec] at hexec
    split_ifs at hexec
    cases hexec
    apply hset
    rintro rfl
    rfl
  | fileSet b file =>
    cases hexec
    apply hset
    rintro rfl
    exact absurd rfl (hw file)
  | host o =>
    obtain ⟨x, -, hx⟩ := Option.map_eq_some_iff.mp hexec
    cases hx
    rfl

theorem file_of_store {a : ObjId} {file : FileId} {s t : LockedObjs h.State} {r : Unit}
    (hexec : h.lockedExec (.fileSet a file) s = some (r, t)) : (t.objs a).file = some file := by
  cases hexec
  simp [LockedObjs.set]

/-- Operations on objects leave the host as it is. -/
theorem host_of_exec {o : UnpfsOp} {s t : LockedObjs h.State} {r : UnpfsRes o}
    (hexec : h.lockedExec o s = some (r, t)) (ho : ∀ call, o ≠ .host call) : t.host = s.host := by
  cases o with
  | realpathRead | realpathUnread | fileSet | fileUnlock =>
    cases hexec
    rfl
  | realpathWrite | fileLock =>
    simp only [lockedExec] at hexec
    split_ifs at hexec
    cases hexec
    rfl
  | host o => exact absurd rfl (ho o)

theorem eq_of_read {a : ObjId} {path : PathBuf} {s t : LockedObjs h.State}
    (hexec : h.lockedExec (.realpathRead a) s = some (path, t)) : path = s.realpath a := by
  cases hexec
  rfl

end SharedHost
end P9cpu.Ninep
