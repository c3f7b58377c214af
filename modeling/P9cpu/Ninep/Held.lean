import P9cpu.Ninep.Files
import P9cpu.Ninep.Stages

/-! Open files and the tasks that hold them: no two tasks are at one open file at a time. -/
namespace P9cpu.Ninep
open Core

/-- The file that a task has locked, with its object. -/
def Stage.file : Stage → Option (ObjId × Option FileId)
  | .locked a file _ => some (a, file)
  | .sought a file _ => some (a, some file)
  | _ => none

/-- The file that a task has opened and not stored yet. -/
def Stage.new : Stage → Option FileId
  | .opened file | .storing _ file => some file
  | _ => none

theorem holds_of_file {q : Stage} {a : ObjId} {file : Option FileId} (h : q.file = some (a, file)) :
    q.holds = some a := by
  cases q <;> simp_all [Stage.file, Stage.holds]

section
variable {N : Names} {cap : ℕ} {s t : Files N.State}

/-- An operation keeps all open files that it does not move. -/
theorem file_of_executes {o : HostOp} {r : HostRes o} (h : Executes N cap s o r t) {g : FileId}
    {file : OpenFile} (hg : s.files[g]? = some file) (hmoves : o.moves ≠ some g) :
    t.files[g]? = some file := by
  have hadd : ∀ node : ℕ, (s.files ++ [⟨node, 0, none⟩])[g]? = some file := by
    intro node
    rw [List.getElem?_append_left (List.getElem?_eq_some_iff.mp hg).1, hg]
  have hset : ∀ (f : FileId) (file' : OpenFile), o.moves = some f →
      (s.files.set f file')[g]? = some file := by
    intro f file' hf
    have hne : f ≠ g := fun hfg => hmoves (hfg ▸ hf)
    rw [List.getElem?_set, if_neg hne, hg]
  cases h with
  | opened | emptied | openedWrite => exact hadd _
  | sought | read | wrote => exact hset _ _ rfl
  | _ => exact hg

/-- A file that is opened is the last one. -/
theorem last_of_open {path : PathBuf} {oflags omode : UInt32} {f : FileId}
    (h : Executes N cap s (.open path oflags omode) (.ok f) t) :
    f = s.files.length ∧ f < t.files.length := by
  cases h with
  | opened | emptied => exact ⟨rfl, by simp [Files.add, Files.setContent]⟩
  | other _ _ names ho => exact ho.2.elim

theorem last_of_openWrite {path : PathBuf} {f : FileId}
    (h : Executes N cap s (.openWrite path) (.ok f) t) :
    f = s.files.length ∧ f < t.files.length := by
  cases h with
  | openedWrite => exact ⟨rfl, by simp [Files.add]⟩
  | other _ _ names ho => exact ho.2.elim

theorem length_of_executes {o : HostOp} {r : HostRes o} (h : Executes N cap s o r t) :
    s.files.length ≤ t.files.length := by
  cases h <;> simp [Files.add, Files.setFile, Files.setContent]

end

/-- Where the tasks are with the open files. -/
structure Held {σ : Type} (st : ℕ → Stage) (w : LockedObjs (Files σ)) : Prop where
  locked : ∀ i a, (st i).holds = some a → (w.objs a).locked = true
  exclusive : ∀ i k a, (st i).holds = some a → (st k).holds = some a → i = k
  file : ∀ i a file, (st i).file = some (a, file) → (w.objs a).file = file
  exists' : ∀ a f, (w.objs a).file = some f → f < w.host.files.length
  distinct : ∀ a b f, (w.objs a).file = some f → (w.objs b).file = some f → a = b
  new : ∀ i f, (st i).new = some f → f < w.host.files.length ∧ ∀ a, (w.objs a).file ≠ some f
  only : ∀ i k f, (st i).new = some f → (st k).new = some f → i = k
  /-- a file that was positioned stays there until it is used -/
  pos : ∀ i a f offset, st i = .sought a f offset →
    ∃ file, w.host.files[f]? = some file ∧ file.pos = offset.toNat

section
variable {σ : Type} {st : ℕ → Stage} {w w' : LockedObjs (Files σ)} {i : ℕ} {q : Stage}

/-- At first no task is anywhere, and no object has a file. -/
theorem held_start (host : Files σ) :
    Held (fun _ => .free none) (⟨fun _ => LockedFid.default, host⟩ : LockedObjs (Files σ)) where
  locked _ _ hk := nomatch hk
  exclusive _ _ _ hk := nomatch hk
  file _ _ _ hk := nomatch hk
  exists' _ _ hf := nomatch hf
  distinct _ _ _ hf := nomatch hf
  new _ _ hk := nomatch hk
  only _ _ _ hk := nomatch hk
  pos _ _ _ _ hk := nomatch hk

/-- What is so of a task once task `i` is at `q` is so of `q`, or was so before. -/
theorem of_update (P : Stage → Prop) {k : ℕ} (h : P (Function.update st i q k)) :
    k = i ∧ P q ∨ k ≠ i ∧ P (st k) := by
  by_cases hki : k = i
  · rw [hki, Function.update_self] at h
    exact .inl ⟨hki, h⟩
  · rw [Function.update_of_ne hki] at h
    exact .inr ⟨hki, h⟩

/-- A task that leaves the files of the objects alone; the locks are left to the caller. -/
theorem Held.moved (h : Held st w) (hobjs : ∀ a, (w'.objs a).file = (w.objs a).file)
    (hlen : w.host.files.length ≤ w'.host.files.length)
    (hlocked : ∀ k a, (Function.update st i q k).holds = some a → (w'.objs a).locked = true)
    (hexclusive : ∀ k l a, (Function.update st i q k).holds = some a →
      (Function.update st i q l).holds = some a → k = l)
    (hfile : ∀ a file, q.file = some (a, file) → (w.objs a).file = file)
    (hnew : ∀ f, q.new = some f → (st i).new = some f ∨
      f = w.host.files.length ∧ f < w'.host.files.length)
    (hothers : ∀ k a f offset, k ≠ i → st k = .sought a f offset →
      ∀ file, w.host.files[f]? = some file → w'.host.files[f]? = some file)
    (hpos : ∀ a f offset, q = .sought a f offset →
      ∃ file, w'.host.files[f]? = some file ∧ file.pos = offset.toNat) :
    Held (Function.update st i q) w' := by
  have hnew' : ∀ k f, (Function.update st i q k).new = some f → (st k).new = some f ∨
      k = i ∧ f = w.host.files.length ∧ f < w'.host.files.length := by
    intro k f hk
    rcases of_update (fun p => p.new = some f) hk with ⟨rfl, hq⟩ | ⟨-, hk⟩
    · exact (hnew f hq).imp_right fun hlast => ⟨rfl, hlast⟩
    · exact .inl hk
  constructor
  case locked => exact hlocked
  case exclusive => exact hexclusive
  case file =>
    intro k a file hk
    rw [hobjs]
    rcases of_update (fun p => p.file = some (a, file)) hk with ⟨-, hq⟩ | ⟨-, hk⟩
    · exact hfile a file hq
    · exact h.file k a file hk
  case exists' =>
    intro a f hf
    rw [hobjs] at hf
    exact lt_of_lt_of_le (h.exists' a f hf) hlen
  case distinct =>
    intro a b f ha hb
    rw [hobjs] at ha hb
    exact h.distinct a b f ha hb
  case new =>
    intro k f hk
    have hfresh : f < w'.host.files.length ∧ ∀ a, (w.objs a).file ≠ some f := by
      rcases hnew' k f hk with hold | ⟨-, hlast, hlt⟩
      · exact ⟨lt_of_lt_of_le (h.new k f hold).1 hlen, (h.new k f hold).2⟩
      · refine ⟨hlt, fun a ha => ?_⟩
        exact ne_of_lt (h.exists' a f ha) hlast
    exact ⟨hfresh.1, fun a => hobjs a ▸ hfresh.2 a⟩
  case only =>
    intro k l f hk hl
    rcases hnew' k f hk with hk' | ⟨rfl, hlast, -⟩
    · rcases hnew' l f hl with hl' | ⟨rfl, hlast, -⟩
      · exact h.only k l f hk' hl'
      · exact absurd hlast (ne_of_lt (h.new k f hk').1)
    · rcases hnew' l f hl with hl' | ⟨rfl, -, -⟩
      · exact absurd hlast (ne_of_lt (h.new l f hl').1)
      · rfl
  case pos =>
    intro k a f offset hk
    rcases of_update (fun p => p = .sought a f offset) hk with ⟨-, hq⟩ | ⟨hki, hk⟩
    · exact hpos a f offset hq
    · obtain ⟨file, hf, hfpos⟩ := h.pos k a f offset hk
      exact ⟨file, hothers k a f offset hki hk file hf, hfpos⟩

/-- A task that does not touch locks or the files of fids. -/
theorem Held.goesOn (h : Held st w)
    (hobjs : ∀ a, (w'.objs a).file = (w.objs a).file ∧ (w'.objs a).locked = (w.objs a).locked)
    (hlen : w.host.files.length ≤ w'.host.files.length) (hholds : q.holds = (st i).holds)
    (hfile : ∀ a file, q.file = some (a, file) → (st i).file = some (a, file))
    (hnew : ∀ f, q.new = some f → (st i).new = some f ∨
      f = w.host.files.length ∧ f < w'.host.files.length)
    (hothers : ∀ k a f offset, k ≠ i → st k = .sought a f offset →
      ∀ file, w.host.files[f]? = some file → w'.host.files[f]? = some file)
    (hpos : ∀ a f offset, q = .sought a f offset →
      ∃ file, w'.host.files[f]? = some file ∧ file.pos = offset.toNat) :
    Held (Function.update st i q) w' := by
  have hst : ∀ k a, (Function.update st i q k).holds = some a → (st k).holds = some a := by
    intro k a hk
    rcases of_update (fun p => p.holds = some a) hk with ⟨rfl, hq⟩ | ⟨-, hk⟩
    · exact hholds.symm.trans hq
    · exact hk
  refine h.moved (fun a => (hobjs a).1) hlen (fun k a hk => ?_) (fun k l a hk hl => ?_)
    (fun a file hq => h.file i a file (hfile a file hq)) hnew hothers hpos
  · exact (hobjs a).2.trans (h.locked k a (hst k a hk))
  · exact h.exclusive k l a (hst k a hk) (hst l a hl)

/-- Tasks that have locked different objects are at different files. -/
theorem Held.ne_file (h : Held st w) {k : ℕ} {a b : ObjId} {f g : FileId} (hki : k ≠ i)
    (hi : (st i).file = some (a, some f)) (hk : (st k).file = some (b, some g)) : f ≠ g := by
  rintro rfl
  have hab := h.distinct a b f (h.file i a _ hi) (h.file k b _ hk)
  subst hab
  exact hki (h.exclusive k i a (holds_of_file hk) (holds_of_file hi))

/-- The lock of an object is not its file. -/
theorem file_relock (w : LockedObjs (Files σ)) (a b : ObjId) (locked : Bool) :
    ((w.set a { w.objs a with locked := locked }).objs b).file = (w.objs b).file := by
  by_cases hb : b = a
  · subst hb
    simp [LockedObjs.set]
  · simp [LockedObjs.set, hb]

/-- A task takes the lock of a file, with the new file that it may have. -/
theorem Held.locks (h : Held st w) {a : ObjId} (hfree : (w.objs a).locked = false)
    (hholds : q.holds = some a)
    (hfile : ∀ b file, q.file = some (b, file) → b = a ∧ (w.objs a).file = file)
    (hnew : ∀ f, q.new = some f → (st i).new = some f)
    (hpos : ∀ b f offset, q ≠ .sought b f offset) :
    Held (Function.update st i q) (w.set a { w.objs a with locked := true }) := by
  have hfresh : ∀ k, (st k).holds ≠ some a := by
    intro k hk
    have hlocked := h.locked k a hk
    simp [hfree] at hlocked
  have hholds' : ∀ k b, (Function.update st i q k).holds = some b →
      k = i ∧ b = a ∨ b ≠ a ∧ (st k).holds = some b := by
    intro k b hk
    rcases of_update (fun p => p.holds = some b) hk with ⟨hki, hq⟩ | ⟨-, hk⟩
    · rw [hholds] at hq
      exact .inl ⟨hki, (Option.some.inj hq).symm⟩
    · refine .inr ⟨?_, hk⟩
      rintro rfl
      exact hfresh k hk
  refine h.moved (fun b => file_relock w a b true) le_rfl (fun k b hk => ?_) (fun k l b hk hl => ?_)
    (fun b file hq => ?_) (fun f hq => .inl (hnew f hq)) (fun _ _ _ _ _ _ file hf => hf)
    fun b f offset hq => absurd hq (hpos b f offset)
  · rcases hholds' k b hk with ⟨-, rfl⟩ | ⟨hb, hk⟩
    · simp [LockedObjs.set]
    · simpa [LockedObjs.set, hb] using h.locked k b hk
  · rcases hholds' k b hk with ⟨rfl, rfl⟩ | ⟨hb, hk⟩
    · rcases hholds' l b hl with ⟨rfl, -⟩ | ⟨hb, -⟩
      · rfl
      · exact absurd rfl hb
    · rcases hholds' l b hl with ⟨-, rfl⟩ | ⟨-, hl⟩
      · exact absurd rfl hb
      · exact h.exclusive k l b hk hl
  · obtain ⟨rfl, hb⟩ := hfile b file hq
    exact hb

/-- A task gives the lock of a file back. -/
theorem Held.unlocks (h : Held st w) {a : ObjId} (hi : (st i).holds = some a)
    (hholds : q.holds = none) (hnew : q.new = none) :
    Held (Function.update st i q) (w.set a { w.objs a with locked := false }) := by
  have hold : ∀ k b, (Function.update st i q k).holds = some b → k ≠ i ∧ (st k).holds = some b := by
    intro k b hk
    rcases of_update (fun p => p.holds = some b) hk with ⟨-, hq⟩ | hk
    · simp [hholds] at hq
    · exact hk
  refine h.moved (fun b => file_relock w a b false) le_rfl (fun k b hk => ?_)
    (fun k l b hk hl => ?_) (fun b file hq => ?_) (fun f hq => ?_)
    (fun _ _ _ _ _ _ file hf => hf) fun b f offset hq => ?_
  · obtain ⟨hki, hk⟩ := hold k b hk
    have hb : b ≠ a := by
      rintro rfl
      exact hki (h.exclusive k i b hk hi)
    simpa [LockedObjs.set, hb] using h.locked k b hk
  · exact h.exclusive k l b (hold k b hk).2 (hold l b hl).2
  · have hsome := holds_of_file hq
    simp [hholds] at hsome
  · simp [hnew] at hq
  · subst hq
    cases hholds

/-- A task stores the file that it has opened. -/
theorem Held.stores (h : Held st w) {a : ObjId} {f : FileId} (hi : st i = .storing a f) :
    Held (Function.update st i (.locked a (some f) none))
      (w.set a { w.objs a with file := some f }) := by
  have hnew : (st i).new = some f := by rw [hi]; rfl
  have hholds : (st i).holds = some a := by rw [hi]; rfl
  have hself : ((w.set a { w.objs a with file := some f }).objs a).file = some f := by
    simp [LockedObjs.set]
  have hne : ∀ b, b ≠ a → (w.set a { w.objs a with file := some f }).objs b = w.objs b := by
    intro b hb
    simp [LockedObjs.set, hb]
  have hlocked : ∀ b, ((w.set a { w.objs a with file := some f }).objs b).locked =
      (w.objs b).locked := by
    intro b
    by_cases hb : b = a
    · subst hb
      simp [LockedObjs.set]
    · rw [hne b hb]
  have hfile : ∀ b g, ((w.set a { w.objs a with file := some f }).objs b).file = some g →
      b = a ∧ g = f ∨ (w.objs b).file = some g ∧ g ≠ f := by
    intro b g hg
    by_cases hb : b = a
    · rw [hb, hself] at hg
      exact .inl ⟨hb, (Option.some.inj hg).symm⟩
    · rw [hne b hb] at hg
      refine .inr ⟨hg, ?_⟩
      rintro rfl
      exact (h.new i g hnew).2 b hg
  have hst : ∀ k b, (Function.update st i (.locked a (some f) none) k).holds = some b →
      (st k).holds = some b := by
    intro k b hk
    rcases of_update (fun p => p.holds = some b) hk with ⟨rfl, hq⟩ | ⟨-, hk⟩
    · exact hholds.trans hq
    · exact hk
  have hnew' : ∀ k g, (Function.update st i (.locked a (some f) none) k).new = some g →
      k ≠ i ∧ (st k).new = some g := by
    intro k g hk
    rcases of_update (fun p => p.new = some g) hk with ⟨-, hq⟩ | hk
    · cases hq
    · exact hk
  constructor
  case locked =>
    intro k b hk
    rw [hlocked]
    exact h.locked k b (hst k b hk)
  case exclusive =>
    intro k l b hk hl
    exact h.exclusive k l b (hst k b hk) (hst l b hl)
  case file =>
    intro k b file hk
    rcases of_update (fun p => p.file = some (b, file)) hk with ⟨-, hq⟩ | ⟨hki, hold⟩
    · cases hq
      exact hself
    · have hb : b ≠ a := by
        rintro rfl
        exact hki (h.exclusive k i b (holds_of_file hold) hholds)
      rw [hne b hb]
      exact h.file k b file hold
  case exists' =>
    intro b g hg
    rcases hfile b g hg with ⟨-, rfl⟩ | ⟨hold, -⟩
    · exact (h.new i g hnew).1
    · exact h.exists' b g hold
  case distinct =>
    intro b c g hb hc
    rcases hfile b g hb with ⟨rfl, hgf⟩ | ⟨hb, hgf⟩
    · rcases hfile c g hc with ⟨hc, -⟩ | ⟨-, hne⟩
      · exact hc.symm
      · exact absurd hgf hne
    · rcases hfile c g hc with ⟨-, rfl⟩ | ⟨hc, -⟩
      · exact absurd rfl hgf
      · exact h.distinct b c g hb hc
  case new =>
    intro k g hk
    obtain ⟨hki, hold⟩ := hnew' k g hk
    obtain ⟨hlt, hfresh⟩ := h.new k g hold
    refine ⟨hlt, fun b hb => ?_⟩
    rcases hfile b g hb with ⟨-, rfl⟩ | ⟨hb, -⟩
    · exact hki (h.only k i g hold hnew)
    · exact hfresh b hb
  case only =>
    intro k l g hk hl
    exact h.only k l g (hnew' k g hk).2 (hnew' l g hl).2
  case pos =>
    intro k b g offset hk
    rcases of_update (fun p => p = .sought b g offset) hk with ⟨-, hq⟩ | ⟨-, hk⟩
    · cases hq
    · exact h.pos k b g offset hk

/-- A new object has no file and no lock; nobody knows it yet. -/
theorem Held.create (h : Held st w) {a : ObjId} (hfree : ∀ k, (st k).holds ≠ some a) :
    Held st (w.set a LockedFid.default) := by
  have hne : ∀ b, b ≠ a → (w.set a LockedFid.default).objs b = w.objs b := by
    intro b hb
    simp [LockedObjs.set, hb]
  have hnone : ((w.set a LockedFid.default).objs a).file = none := by
    simp [LockedObjs.set, LockedFid.default, UnpfsFid.default]
  have hfile : ∀ b f, ((w.set a LockedFid.default).objs b).file = some f →
      (w.objs b).file = some f := by
    intro b f hf
    by_cases hb : b = a
    · rw [hb, hnone] at hf
      cases hf
    · rwa [hne b hb] at hf
  have hother : ∀ k b, (st k).holds = some b → b ≠ a := by
    rintro k b hk rfl
    exact hfree k hk
  refine ⟨fun k b hk => ?_, h.exclusive, fun k b file hk => ?_, fun b f hf => ?_,
    fun b c f hb hc => ?_, fun k f hk => ?_, h.only, h.pos⟩
  · rw [hne b (hother k b hk)]
    exact h.locked k b hk
  · rw [hne b (hother k b (holds_of_file hk))]
    exact h.file k b file hk
  · exact h.exists' b f (hfile b f hf)
  · exact h.distinct b c f (hfile b f hb) (hfile c f hc)
  · exact ⟨(h.new k f hk).1, fun b hb => (h.new k f hk).2 b (hfile b f hb)⟩

/-- Work in the background moves no open file. -/
theorem files_of_finish {s t : Files σ} {f : FileId} (hfinish : s.finish f = some t) :
    ∃ file : OpenFile, t.files = s.files.set f file ∧
      ∀ file', s.files[f]? = some file' → file.pos = file'.pos := by
  unfold Files.finish at hfinish
  split at hfinish
  next node pos e hf =>
    cases hfinish
    refine ⟨_, rfl, fun file' hf' => ?_⟩
    rw [hf] at hf'
    cases hf'
    rfl
  · cases hfinish

theorem length_of_finish {s t : Files σ} {f : FileId} (hfinish : s.finish f = some t) :
    t.files.length = s.files.length := by
  obtain ⟨file, hset, -⟩ := files_of_finish hfinish
  rw [hset, List.length_set]

theorem Held.finish (h : Held st w) {f : FileId} {host : Files σ}
    (hfinish : w.host.finish f = some host) : Held st { w with host := host } := by
  obtain ⟨file, hset, hpos⟩ := files_of_finish hfinish
  have hlen : host.files.length = w.host.files.length := length_of_finish hfinish
  refine ⟨h.locked, h.exclusive, h.file, fun a g hg => ?_, h.distinct, fun k g hk => ?_, h.only,
    fun k a g offset hk => ?_⟩
  · change g < host.files.length
    rw [hlen]
    exact h.exists' a g hg
  · change g < host.files.length ∧ _
    rw [hlen]
    exact h.new k g hk
  · obtain ⟨file', hg, hgpos⟩ := h.pos k a g offset hk
    change ∃ file, host.files[g]? = some file ∧ _
    by_cases hfg : f = g
    · subst hfg
      refine ⟨file, ?_, (hpos file' hg).trans hgpos⟩
      rw [hset, List.getElem?_set_self (List.getElem?_eq_some_iff.mp hg).1]
    · refine ⟨file', ?_, hgpos⟩
      rw [hset, List.getElem?_set_ne hfg, hg]

end

section
variable {N : Names} {cap : ℕ} {st : ℕ → Stage} {w w' : LockedObjs (Files N.State)} {i : ℕ}
  {q : Stage}

/-- A call to the host by a task that moves its own file only. -/
theorem Held.host {o : HostOp} {r : HostRes o} {host : Files N.State} (h : Held st w)
    (hexec : Executes N cap w.host o r host)
    (hmoves : ∀ f, o.moves = some f → ∃ a, (st i).file = some (a, some f))
    (hholds : q.holds = (st i).holds)
    (hfile : ∀ a file, q.file = some (a, file) → (st i).file = some (a, file))
    (hnew : ∀ f, q.new = some f → (st i).new = some f ∨
      f = w.host.files.length ∧ f < host.files.length)
    (hpos : ∀ a f offset, q = .sought a f offset →
      ∃ file, host.files[f]? = some file ∧ file.pos = offset.toNat) :
    Held (Function.update st i q) { w with host := host } := by
  refine h.goesOn (fun _ => ⟨rfl, rfl⟩) (length_of_executes hexec) hholds hfile hnew ?_ hpos
  intro k b g offset hki hk file hg
  refine file_of_executes hexec hg fun hmove => ?_
  obtain ⟨a, ha⟩ := hmoves g hmove
  exact h.ne_file (b := b) (g := g) hki ha (by rw [hk]; rfl) rfl

/-- A call to the host is one of its operations. -/
theorem executes_of_lockedExec {o : HostOp} {r : HostRes o}
    (h : (fileHost N cap).lockedExec (.host o) w = some (r, w')) :
    ∃ host, Executes N cap w.host o r host ∧ w' = { w with host := host } := by
  obtain ⟨⟨r', host⟩, hrun, heq⟩ := Option.map_eq_some_iff.mp h
  cases heq
  exact ⟨host, executes_of_exec hrun, rfl⟩

theorem lockedExec_fileLock {a : ObjId} {r : Option FileId}
    (h : (fileHost N cap).lockedExec (.fileLock a) w = some (r, w')) :
    (w.objs a).locked = false ∧ (w.objs a).file = r ∧
      w' = w.set a { w.objs a with locked := true } := by
  simp only [SharedHost.lockedExec] at h
  split_ifs at h with hlocked
  cases h
  exact ⟨by simpa using hlocked, rfl, rfl⟩

/-- An operation that is not about open files. -/
theorem Held.plain {o : UnpfsOp} {r : UnpfsRes o} (h : Held st w) (ho : o.Plain)
    (hexec : (fileHost N cap).lockedExec o w = some (r, w')) :
    Held (Function.update st i (st i)) w' := by
  have hstay : ∀ a fid, fid.file = (w.objs a).file → fid.locked = (w.objs a).locked →
      Held (Function.update st i (st i)) (w.set a fid) := by
    intro a fid hfile hlocked
    refine h.goesOn (fun b => ?_) le_rfl rfl (fun _ _ hf => hf) (fun f hf => .inl hf)
      (fun _ _ _ _ _ _ file hf => hf) (h.pos i)
    by_cases hb : b = a
    · subst hb
      simp [LockedObjs.set, hfile, hlocked]
    · simp [LockedObjs.set, hb]
  cases o with
  | realpathRead a =>
    cases hexec
    exact hstay a _ rfl rfl
  | realpathUnread a =>
    cases hexec
    exact hstay a _ rfl rfl
  | realpathWrite a path =>
    simp only [SharedHost.lockedExec] at hexec
    split_ifs at hexec
    cases hexec
    exact hstay a _ rfl rfl
  | fileLock | fileSet | fileUnlock => exact ho.elim
  | host o =>
    obtain ⟨host, hrun, rfl⟩ := executes_of_lockedExec hexec
    have hmoves : o.moves = none := by
      cases o with
      | seek | read | write => exact ho.elim
      | _ => rfl
    refine h.host hrun (by simp [hmoves]) rfl (fun _ _ hf => hf) (fun f hf => .inl hf) ?_
    intro a f offset hsought
    obtain ⟨file, hf, hpos⟩ := h.pos i a f offset hsought
    exact ⟨file, file_of_executes hrun hf (by simp [hmoves]), hpos⟩

/-- Every step that the protocol of open files allows. -/
theorem Held.exec {Uses : ObjId → Prop} {o : UnpfsOp} {r : UnpfsRes o} (h : Held st w)
    (hnext : Next Uses (st i) o r q) (hexec : (fileHost N cap).lockedExec o w = some (r, w')) :
    Held (Function.update st i q) w' := by
  generalize hq : st i = q₀ at hnext
  have hown : ∀ {o : HostOp} (a : ObjId) (file : FileId), (st i).file = some (a, some file) →
      o.moves = some file → ∀ f, o.moves = some f → ∃ a, (st i).file = some (a, some f) := by
    intro o a file hfile hmoves f hf
    rw [hmoves] at hf
    cases hf
    exact ⟨a, hfile⟩
  cases hnext with
  | plain _ o r ho =>
    subst hq
    exact h.plain ho hexec
  | opens path oflags omode file =>
    obtain ⟨host, hrun, rfl⟩ := executes_of_lockedExec hexec
    refine h.host hrun (by simp [HostOp.moves]) (by rw [hq]; rfl) (by simp [Stage.file]) ?_
      (by simp)
    intro f hf
    cases hf
    exact .inr (last_of_open hrun)
  | notOpens path oflags omode e =>
    obtain ⟨host, hrun, rfl⟩ := executes_of_lockedExec hexec
    exact h.host hrun (by simp [HostOp.moves]) (by rw [hq]) (by simp [Stage.file])
      (by simp [Stage.new]) (by simp)
  | opensWrite path file =>
    obtain ⟨host, hrun, rfl⟩ := executes_of_lockedExec hexec
    refine h.host hrun (by simp [HostOp.moves]) (by rw [hq]; rfl) (by simp [Stage.file]) ?_
      (by simp)
    intro f hf
    cases hf
    exact .inr (last_of_openWrite hrun)
  | notOpensWrite path e =>
    obtain ⟨host, hrun, rfl⟩ := executes_of_lockedExec hexec
    exact h.host hrun (by simp [HostOp.moves]) (by rw [hq]) (by simp [Stage.file])
      (by simp [Stage.new]) (by simp)
  | resizes file size r =>
    obtain ⟨host, hrun, rfl⟩ := executes_of_lockedExec hexec
    exact h.host hrun (by simp [HostOp.moves]) (by rw [hq]) (by simp [Stage.file])
      (fun f hf => .inl (by rw [hq]; exact hf)) (by simp)
  | locks a file ha =>
    obtain ⟨hfree, hr, rfl⟩ := lockedExec_fileLock hexec
    refine h.locks hfree rfl (fun b file' hfile => ?_) (by simp [Stage.new]) (by simp)
    cases hfile
    exact ⟨rfl, hr⟩
  | locksToStore a file old ha =>
    obtain ⟨hfree, -, rfl⟩ := lockedExec_fileLock hexec
    exact h.locks hfree rfl (by simp [Stage.file]) (fun f hf => by rw [hq]; exact hf) (by simp)
  | stores a file =>
    cases hexec
    exact h.stores hq
  | unlocks a file moved =>
    cases hexec
    exact h.unlocks (by rw [hq]; rfl) rfl rfl
  | seeks a file offset pos =>
    obtain ⟨host, hrun, rfl⟩ := executes_of_lockedExec hexec
    refine h.host hrun (hown a file (by rw [hq]; rfl) rfl) (by rw [hq]; rfl) ?_
      (by simp [Stage.new]) fun b f offset' hsought => ?_
    · rw [hq]
      exact fun b file' hfile => hfile
    · cases hsought
      cases hrun with
      | sought _ _ node pos' hf =>
        refine ⟨⟨node, offset.toNat, none⟩, ?_, rfl⟩
        exact List.getElem?_set_self (List.getElem?_eq_some_iff.mp hf).1
      | other _ _ names ho => exact ho.2.elim
  | notSeeks a file offset e =>
    obtain ⟨host, hrun, rfl⟩ := executes_of_lockedExec hexec
    exact h.host hrun (hown a file (by rw [hq]; rfl) rfl) (by rw [hq]) (by rw [hq]; simp)
      (by simp [Stage.new]) (by simp)
  | reads a file offset count bytes =>
    obtain ⟨host, hrun, rfl⟩ := executes_of_lockedExec hexec
    exact h.host hrun (hown a file (by rw [hq]; rfl) rfl) (by rw [hq]; rfl)
      (by rw [hq]; exact fun b file' hfile => hfile) (by simp [Stage.new]) (by simp)
  | notReads a file offset count e =>
    obtain ⟨host, hrun, rfl⟩ := executes_of_lockedExec hexec
    exact h.host hrun (hown a file (by rw [hq]; rfl) rfl) (by rw [hq]; rfl)
      (by rw [hq]; exact fun b file' hfile => hfile) (by simp [Stage.new]) (by simp)
  | writes a file offset data n =>
    obtain ⟨host, hrun, rfl⟩ := executes_of_lockedExec hexec
    exact h.host hrun (hown a file (by rw [hq]; rfl) rfl) (by rw [hq]; rfl)
      (by rw [hq]; exact fun b file' hfile => hfile) (by simp [Stage.new]) (by simp)
  | notWrites a file offset data e =>
    obtain ⟨host, hrun, rfl⟩ := executes_of_lockedExec hexec
    exact h.host hrun (hown a file (by rw [hq]; rfl) rfl) (by rw [hq]; rfl)
      (by rw [hq]; exact fun b file' hfile => hfile) (by simp [Stage.new]) (by simp)
  | syncs a file r =>
    obtain ⟨host, hrun, rfl⟩ := executes_of_lockedExec hexec
    exact h.host hrun (by simp [HostOp.moves]) (by rw [hq]) (by rw [hq]; simp)
      (by simp [Stage.new]) (by simp)

end

end P9cpu.Ninep
