import Mathlib.Data.List.Nodup
import P9cpu.Ninep.Positioned
import P9cpu.Ninep.Visible

/-! `Tread` and `Twrite` of one open file at the same time, in any interleaving of their tasks. -/
namespace P9cpu.Ninep
open Core Prog

section
variable {N : Names} {room : N.State → ℕ}

/-- The `Tread` or `Twrite` that takes the lock of an open file in this step, and the file. -/
def taken (s : Conn (shortHost N room).world) :
    Label (shortHost N room).world → Option (ℕ × FileId)
  | .run i =>
    match s.tasks[i]? with
    | some ⟨msg, _, .handling _ (.op (.fileLock a) _)⟩ =>
      match msg.body.position, (LockedObjs.objs s.world a).file with
      | some _, some f => some (i, f)
      | _, _ => none
    | _ => none
  | _ => none

/-- What this step does to the bytes of `node` other than through `f`. -/
def changed (f : FileId) (node : ℕ) (s : Conn (shortHost N room).world) :
    Label (shortHost N room).world → Option Change
  | .run i =>
    match s.tasks[i]? with
    | some ⟨_, _, .handling _ (.op (.host o) _)⟩ =>
      match (shortHost N room).exec o (LockedObjs.host s.world) with
      | some (r, host) =>
        (Files.access i (LockedObjs.host s.world) host o r).bind (Access.resizes node)
      | none => none
    | _ => none
  | .world (.inl g) =>
    match (LockedObjs.host s.world).files[g]? with
    | some ⟨n, _, some e⟩ => if g ≠ f ∧ n = node then some (.write e) else none
    | _ => none
  | _ => none

/-- The tasks that took the lock of `f`, in the order in which they did. -/
def lockers (f : FileId) (locks : List (ℕ × FileId)) : List ℕ :=
  locks.filterMap fun x => if x.2 = f then some x.1 else none

/-- The `Tread` and `Twrite` tasks that took the lock of the open file in a run, in this order. -/
abbrev lockOrder (root : PathBuf) (f : FileId) (s : Conn (shortHost N room).world)
    (ls : List (Label (shortHost N room).world)) : List ℕ :=
  lockers f (observed (step (Unpfs root)) taken s ls)

/-- What was done in a run to the bytes of the file other than through `f`. -/
abbrev otherChanges (root : PathBuf) (f : FileId) (node : ℕ) (s : Conn (shortHost N room).world)
    (ls : List (Label (shortHost N room).world)) : List Change :=
  observed (step (Unpfs root)) (changed f node) s ls

/-- A new connection; the host may already have open files. -/
def Files.shortStart (room : N.State → ℕ) (nextAux : ObjId) (host : Files N.State) :
    Conn (shortHost N room).world :=
  .start .new nextAux ⟨fun _ => LockedFid.default, host⟩

/-- The requests to an open file had their turns one at a time: from `content` to `after`, the
bytes of the file and all responses are those of the requests alone, in the order of the `locks`,
with the `changes` by others between them. Only the last one to lock may not have had its turn. -/
inductive Serialized (locks : List ℕ) (changes : List Change) (requests : List Msg)
    (written : List (ℕ × Msg)) (content after : List UInt8) : Prop
  | intro (turns : List Turn) (bytes : Serially Turn.Does turns content after)
      (others : turns.filterMap Turn.changed = changes)
      (order : turns.filterMap Turn.task <+: locks) (once : locks.Nodup)
      (last : locks.length ≤ (turns.filterMap Turn.task).length + 1)
      (asked : ∀ i request response, .call i request response ∈ turns →
        ∃ tag, requests[i]? = some ⟨tag, request⟩)
      (answered : ∀ i m, (i, m) ∈ written → i ∈ locks → ∃ request,
        .call i request m.body ∈ turns)

end

section
variable {N : Names} {room : N.State → ℕ} {w w' : LockedObjs (Files N.State)} {o : UnpfsOp}
  {r : UnpfsRes o}

/-- One step of the host has room for one transfer. -/
theorem lockedExec_short (h : (shortHost N room).lockedExec o w = some (r, w')) :
    (fileHost N (room w.host.names)).lockedExec o w = some (r, w') := by
  cases o <;> exact h

theorem exec_of_short {o : HostOp} {r : HostRes o}
    (h : (shortHost N room).lockedExec (.host o) w = some (r, w')) :
    ∃ host, Files.exec N (room w.host.names) o w.host = some (r, host) ∧
      w' = { w with host := host } := by
  obtain ⟨⟨r', host⟩, hexec, heq⟩ := Option.map_eq_some_iff.mp h
  cases heq
  exact ⟨host, hexec, rfl⟩

theorem length_of_exec (h : (shortHost N room).lockedExec o w = some (r, w')) :
    w.host.files.length ≤ w'.host.files.length := by
  cases o with
  | host o =>
    obtain ⟨host, hexec, rfl⟩ := exec_of_short h
    exact length_of_executes (executes_of_exec hexec)
  | _ =>
    have hhost : w'.host = w.host := SharedHost.host_of_exec h (by simp)
    rw [hhost]

/-- A file that a handler has opened is the last one. -/
theorem new_of_exec {Uses : ObjId → Prop} {q q' : Stage} {f : FileId} (hnext : Next Uses q o r q')
    (h : (shortHost N room).lockedExec o w = some (r, w')) (hf : q'.new = some f) :
    q.new = some f ∨ f = w.host.files.length := by
  cases hnext with
  | opens path oflags omode file =>
    obtain ⟨host, hexec, -⟩ := exec_of_short h
    cases hf
    exact .inr (last_of_open (executes_of_exec hexec)).1
  | opensWrite path file =>
    obtain ⟨host, hexec, -⟩ := exec_of_short h
    cases hf
    exact .inr (last_of_openWrite (executes_of_exec hexec)).1
  | plain | resizes | locksToStore => exact .inl hf
  | _ => cases hf

/-- A file that is stored is one that a handler has opened. -/
theorem stored_of_exec {Uses : ObjId → Prop} {q q' : Stage} {a : ObjId} {f : FileId}
    (hnext : Next Uses q o r q') (h : (shortHost N room).lockedExec o w = some (r, w'))
    (hf : (w'.objs a).file = some f) : (w.objs a).file = some f ∨ q.new = some f := by
  cases hnext with
  | stores b file =>
    by_cases hab : a = b
    · subst hab
      rw [SharedHost.file_of_store h] at hf
      cases hf
      exact .inr rfl
    · have hsame : (w'.objs a).file = (w.objs a).file :=
        SharedHost.file_of_exec h fun g heq => hab (by cases heq; rfl)
      exact .inl (hsame ▸ hf)
  | plain q o r ho =>
    have hsame : (w'.objs a).file = (w.objs a).file :=
      SharedHost.file_of_exec h fun g heq => by
        subst heq
        exact ho
    exact .inl (hsame ▸ hf)
  | _ =>
    have hsame : (w'.objs a).file = (w.objs a).file := SharedHost.file_of_exec h (by simp)
    exact .inl (hsame ▸ hf)

end

section
variable {N : Names} {room : N.State → ℕ} {root : PathBuf} {n : ℕ}
  {s t : Conn (shortHost N room).world} {l : Label (shortHost N room).world}
  {locks : List (ℕ × FileId)} {st st' : ℕ → Course} {i : ℕ} {msg : Msg} {aux : ObjId}
  {newfid : Option Fid} {o : UnpfsOp} {k : UnpfsRes o → UnpfsProg (Except Error Fcall)}
  {r : UnpfsRes o} {v : Course} {world : LockedObjs (Files N.State)}

/-- Where the tasks are, and the locks that they took; all files of fids were opened after the
first `n`. -/
structure Conn.Takes (n : ℕ) (locks : List (ℕ × FileId)) (st : ℕ → Course)
    (s : Conn (shortHost N room).world) : Prop where
  governed : s.Governed courses st
  held : Held (fun i => (st i).stage) s.world
  made : ∀ i a, (st i).stage.holds = some a → Made s a
  small : ∀ i a g offset, st i = .sought a g offset → offset.toNat < 2 ^ 63
  grown : n ≤ (LockedObjs.host s.world).files.length
  stored : ∀ a g, (LockedObjs.objs s.world a).file = some g → n ≤ g
  new : ∀ i g, (st i).stage.new = some g → n ≤ g
  locked : ∀ i g, (i, g) ∈ locks ↔ (st i).file = some g
  nodup : locks.Nodup
  opened : ∀ i g, (i, g) ∈ locks → n ≤ g ∧ g < (LockedObjs.host s.world).files.length

/-- Who locks the file of a fid first takes the lock. -/
theorem taken_of_ran {Uses : ObjId → Prop}
    (ht : s.tasks[i]? = some ⟨msg, aux, .handling newfid (.op o k)⟩)
    (hexec : (shortHost N room).lockedExec o s.world = some (r, world))
    (hnext : Proceeds Uses msg.body (st i) o r v) :
    taken s (.run i) = none ∧ v.file = (st i).file ∨
      ∃ a f, st i = .other (.free none) ∧ v = .locked a f ∧ taken s (.run i) = some (i, f) ∧
        (LockedObjs.objs s.world a).file = some f ∧
          (LockedObjs.objs s.world a).locked = false := by
  generalize hi : st i = v₀ at hnext
  cases hnext with
  | other q q' o r hbody ho h =>
    left
    cases o with
    | fileLock a => simp [taken, ht, hbody, Course.file]
    | _ => simp [taken, ht, Course.file]
  | locks a f ha hbody =>
    obtain ⟨hfree, hfile, -⟩ := lockedExec_fileLock (lockedExec_short hexec)
    obtain ⟨offset, hoffset⟩ := Option.ne_none_iff_exists'.mp hbody
    exact .inr ⟨a, f, rfl, rfl, by simp [taken, ht, hoffset, hfile], hfile, hfree⟩
  | locksUnopened a ha hbody =>
    obtain ⟨-, hfile, -⟩ := lockedExec_fileLock (lockedExec_short hexec)
    left
    simp [taken, ht, hfile, Course.file]
  | _ => exact .inl ⟨by simp [taken, ht], rfl⟩

/-- The stages of the tasks when one of them goes on. -/
theorem stage_update (st : ℕ → Course) (i : ℕ) (v : Course) :
    (fun k => (Function.update st i v k).stage) =
      Function.update (fun k => (st k).stage) i v.stage := by
  funext k
  by_cases hki : k = i
  · subst hki
    simp
  · simp [hki]

/-- A handler that has the lock of an open file is at a file that exists. -/
theorem Conn.Takes.file_of_stage (h : s.Takes n locks st) {a : ObjId} {f : FileId}
    (hi : (st i).stage.file = some (a, some f)) :
    ∃ file, (LockedObjs.host s.world).files[f]? = some file := by
  have hlt := h.held.exists' a f (h.held.file i a (some f) hi)
  exact ⟨_, List.getElem?_eq_getElem hlt⟩

/-- A position to which a handler went is one that files can have. -/
theorem Conn.Takes.small_of_ran (h : s.Takes n locks st) {Uses : ObjId → Prop} {body : Fcall}
    (hexec : (shortHost N room).lockedExec o s.world = some (r, world))
    (hnext : Proceeds Uses body (st i) o r v) {a : ObjId} {g : FileId} {offset : UInt64}
    (hv : v = .sought a g offset) : offset.toNat < 2 ^ 63 := by
  generalize hi : st i = v₀ at hnext
  cases hnext with
  | seeks b f pos hbody =>
    cases hv
    have hstage : (st i).stage.file = some (a, some g) := by rw [hi]; rfl
    obtain ⟨file, hfile⟩ := h.file_of_stage hstage
    obtain ⟨host, hseek, -⟩ := exec_of_short hexec
    rcases (exec_seek hfile hseek).2 with ⟨hlt, -⟩ | ⟨-, herr, -⟩
    · exact hlt
    · cases herr
  | _ => cases hv

/-- An operation of a handler. -/
theorem Conn.Takes.ran (h : s.Takes n locks st)
    (ht : s.tasks[i]? = some ⟨msg, aux, .handling newfid (.op o k)⟩)
    (hexec : (shortHost N room).lockedExec o s.world = some (r, t.world))
    (hnext : Proceeds (Made s) msg.body (st i) o r v)
    (hgoverned : t.Governed courses (Function.update st i v))
    (hmade : ∀ a, Made s a → Made t a) :
    t.Takes n (locks ++ (taken s (.run i)).toList) (Function.update st i v) := by
  have hlen := length_of_exec hexec
  have hstored : ∀ a g, (LockedObjs.objs t.world a).file = some g → n ≤ g := by
    intro a g hg
    rcases stored_of_exec hnext.next hexec hg with hold | hnew
    · exact h.stored a g hold
    · exact h.new i g hnew
  have hnew : ∀ k g, (Function.update st i v k).stage.new = some g → n ≤ g := by
    refine (Function.forall_update_iff st fun _ v => ∀ g, v.stage.new = some g → n ≤ g).mpr
      ⟨fun g hg => ?_, fun k _ => h.new k⟩
    rcases new_of_exec hnext.next hexec hg with hold | rfl
    · exact h.new i g hold
    · exact h.grown
  have hheld : Held (fun k => (Function.update st i v k).stage) t.world := by
    rw [stage_update]
    exact h.held.exec hnext.next (lockedExec_short hexec)
  have hholds : ∀ k a, (Function.update st i v k).stage.holds = some a → Made t a := by
    refine (Function.forall_update_iff st
      fun _ v => ∀ a, v.stage.holds = some a → Made t a).mpr
      ⟨fun a ha => ?_, fun k _ a ha => hmade a (h.made k a ha)⟩
    rcases holds_of_next hnext.next ha with hold | hnew
    · exact hmade a (h.made i a hold)
    · exact hmade a hnew
  have hsmall : ∀ k a g offset, Function.update st i v k = .sought a g offset →
      offset.toNat < 2 ^ 63 := by
    refine (Function.forall_update_iff st fun _ v => ∀ a g offset,
      v = .sought a g offset → offset.toNat < 2 ^ 63).mpr ⟨fun a g offset hv => ?_,
      fun k _ => h.small k⟩
    exact h.small_of_ran hexec hnext hv
  have hopened : ∀ k g, (k, g) ∈ locks → n ≤ g ∧ g < (LockedObjs.host t.world).files.length :=
    fun k g hk => ⟨(h.opened k g hk).1, lt_of_lt_of_le (h.opened k g hk).2 hlen⟩
  rcases taken_of_ran ht hexec hnext with ⟨hnone, hfile⟩ | ⟨a, f, hi, rfl, hsome, hfile, -⟩
  · rw [hnone, Option.toList_none, List.append_nil]
    refine ⟨hgoverned, hheld, hholds, hsmall, le_trans h.grown hlen, hstored, hnew,
      fun k g => ?_, h.nodup, hopened⟩
    rw [update_of_eq Course.file hfile]
    exact h.locked k g
  · rw [hsome, Option.toList_some]
    have hnot : ∀ g, (i, g) ∉ locks := by
      intro g hmem
      have hg := (h.locked i g).mp hmem
      rw [hi] at hg
      cases hg
    refine ⟨hgoverned, hheld, hholds, hsmall, le_trans h.grown hlen, hstored, hnew,
      fun k g => ?_, ?_, fun k g hk => ?_⟩
    · by_cases hki : k = i
      · subst hki
        rw [Function.update_self]
        simp [hnot, Course.file, eq_comm]
      · rw [Function.update_of_ne hki, ← h.locked k g]
        simp [hki]
    · refine List.nodup_append.mpr ⟨h.nodup, by simp, ?_⟩
      rintro x hx y hy rfl
      rw [List.mem_singleton] at hy
      subst hy
      exact hnot f hx
    · rw [List.mem_append, List.mem_singleton] at hk
      rcases hk with hold | hlast
      · exact hopened k g hold
      · cases hlast
        exact ⟨h.stored a f hfile, lt_of_lt_of_le (h.held.exists' a f hfile) hlen⟩

/-- A step that is not an operation of a handler. -/
theorem Conn.Takes.goesOn (h : s.Takes n locks st) (hgoverned : t.Governed courses st)
    (hmade : ∀ a, Made s a → Made t a) (hheld : Held (fun i => (st i).stage) t.world)
    (hlen : (LockedObjs.host t.world).files.length = (LockedObjs.host s.world).files.length)
    (hfile : ∀ a g, (LockedObjs.objs t.world a).file = some g →
      (LockedObjs.objs s.world a).file = some g) : t.Takes n locks st where
  governed := hgoverned
  held := hheld
  made i a hi := hmade a (h.made i a hi)
  small := h.small
  grown := hlen ▸ h.grown
  stored a g hg := h.stored a g (hfile a g hg)
  new := h.new
  locked := h.locked
  nodup := h.nodup
  opened := hlen ▸ h.opened

theorem taken_of_ne (hl : ∀ i, l ≠ .run i) : taken s l = none := by
  cases l with
  | run i => exact absurd rfl (hl i)
  | _ => rfl

/-- Other things that happen to the host leave the tasks where they are. -/
theorem Held.tick {w : LockedObjs (Files N.State)} {q : ℕ → Stage} {e : FileId ⊕ N.State}
    {host : Files N.State} (h : Held q w) (htick : (shortHost N room).tick e w.host = some host) :
    Held q { w with host := host } ∧ host.files.length = w.host.files.length := by
  cases e with
  | inl f => exact ⟨h.finish htick, length_of_finish htick⟩
  | inr names =>
    cases htick
    exact ⟨⟨h.locked, h.exclusive, h.file, h.exists', h.distinct, h.new, h.only, h.pos⟩, rfl⟩

theorem takes_step {st st' : ℕ → courses.Stage} (h : s.Takes n locks st)
    (hstep : step (Unpfs root) s l = some t)
    (hworld : WorldStep courses s st l st' t.world) (hgoverned : t.Governed courses st') :
    t.Takes n (locks ++ (taken s l).toList) st' := by
  have hmade : ∀ a, Made s a → Made t a := fun a => made_of_step hstep
  have hnone : (∀ i, l ≠ .run i) → locks ++ (taken s l).toList = locks := by
    intro hl
    rw [taken_of_ne hl, Option.toList_none, List.append_nil]
  generalize hw : t.world = w at hworld
  cases hworld with
  | still l hrun hworld =>
    rw [hnone hrun]
    refine h.goesOn hgoverned hmade ?_ (by rw [hw]) fun a g hg => ?_
    · rw [hw]
      exact h.held
    · rwa [hw] at hg
  | created i msg aux ht =>
    rw [hnone (by simp)]
    have hfree : ∀ k, (st k).stage.holds ≠ some aux :=
      fun k hk => (h.made k aux hk).made i msg ht
    refine h.goesOn hgoverned hmade ?_ (by rw [hw]; rfl) fun a g hg => ?_
    · rw [hw]
      exact h.held.create hfree
    · rw [hw] at hg
      change ((LockedObjs.set s.world aux LockedFid.default).objs a).file = some g at hg
      by_cases ha : a = aux
      · subst ha
        simp [LockedObjs.set, LockedFid.default, UnpfsFid.default] at hg
      · simpa [LockedObjs.set, ha] using hg
  | ran i msg aux newfid o k r v w ht hexec hnext =>
    rw [← hw] at hexec
    exact h.ran ht hexec hnext hgoverned hmade
  | ticked e w htick =>
    rw [hnone (by simp)]
    obtain ⟨host, hhost, rfl⟩ := Option.map_eq_some_iff.mp htick
    obtain ⟨hheld, hlen⟩ := h.held.tick hhost
    refine h.goesOn hgoverned hmade ?_ ?_ fun a g hg => ?_
    · rw [hw]
      exact hheld
    · rw [hw]
      exact hlen
    · rwa [hw] at hg

end

/-! The turns of a run. -/

theorem stage_of_waits {v : Course} {f : FileId} (h : v.Waits f) :
    ∃ a, v.stage.file = some (a, some f) := by
  cases v with
  | locked a g | sought a g offset =>
    cases h
    exact ⟨a, rfl⟩
  | _ => exact h.elim

theorem lockers_append (f : FileId) (locks more : List (ℕ × FileId)) :
    lockers f (locks ++ more) = lockers f locks ++ lockers f more :=
  List.filterMap_append

section
variable {N : Names} {room : N.State → ℕ} {root : PathBuf} {n : ℕ} {f : FileId} {node : ℕ}
  {content : List UInt8} {s t : Conn (shortHost N room).world}
  {l : Label (shortHost N room).world}
  {locks : List (ℕ × FileId)} {order : List ℕ} {changes : List Change}
  {st st' : ℕ → Course} {i : ℕ} {msg : Msg} {aux : ObjId} {newfid : Option Fid} {o : UnpfsOp}
  {k : UnpfsRes o → UnpfsProg (Except Error Fcall)} {r : UnpfsRes o} {v : Course}
  {world : LockedObjs (Files N.State)} {bodies : List Fcall} {turns late : List Turn}

theorem changed_host {o : HostOp} {k : HostRes o → UnpfsProg (Except Error Fcall)} {r : HostRes o}
    {host : Files N.State} (ht : s.tasks[i]? = some ⟨msg, aux, .handling newfid (.op (.host o) k)⟩)
    (hexec : Files.exec N (room (LockedObjs.host s.world).names) o (LockedObjs.host s.world) =
      some (r, host)) :
    changed f node s (.run i) =
      (Files.access i (LockedObjs.host s.world) host o r).bind (Access.resizes node) := by
  have hshort : (shortHost N room).exec o (LockedObjs.host s.world) = some (r, host) := hexec
  simp only [changed, ht, hshort]

theorem changed_of_ne (ht : s.tasks[i]? = some ⟨msg, aux, .handling newfid (.op o k)⟩)
    (ho : ∀ call, o ≠ .host call) : changed f node s (.run i) = none := by
  cases o with
  | host call => exact absurd rfl (ho call)
  | _ => simp [changed, ht]

/-- A request that is not `Tread` or `Twrite` has no turn. -/
theorem turns_other {q q' : Stage}
    (ht : s.tasks[i]? = some ⟨msg, aux, .handling newfid (.op o k)⟩)
    (hexec : (shortHost N room).lockedExec o s.world = some (r, world)) (ho : o.Unmoved)
    (hi : st i = .other q)
    (hturns : Turns f node content order changes bodies st (LockedObjs.host s.world) turns late) :
    HasTurns f node content order (changes ++ (changed f node s (.run i)).toList) bodies
      (Function.update st i (.other q')) world.host := by
  have hwaits : (Course.other q').Waits f = (st i).Waits f := by
    rw [hi]
    rfl
  have hanswer : (Course.other q').answer f = (st i).answer f := by
    rw [hi]
    rfl
  by_cases hcall : ∃ call, o = .host call
  · obtain ⟨call, rfl⟩ := hcall
    obtain ⟨host, hcall, rfl⟩ := exec_of_short hexec
    have hrun := executes_of_exec hcall
    have hmoves : call.moves = none := ho
    have hpending : host.pendingOf f = (LockedObjs.host s.world).pendingOf f :=
      pendingOf_of_executes hrun (by simp [hmoves])
    have hcontent := content_of_fileStep (fileStep_of_exec (i := i) hrun) node
    rw [← changed_host (f := f) ht hcall] at hcontent
    generalize changed f node s (.run i) = change at hcontent ⊢
    cases change with
    | none =>
      rw [Option.toList_none, List.append_nil]
      exact hturns.kept hcontent hpending hwaits hanswer
    | some c => exact (hturns.change hcontent hpending).kept rfl rfl hwaits hanswer
  · have hcall' : ∀ call, o ≠ .host call := fun call heq => hcall ⟨call, heq⟩
    have hhost : world.host = LockedObjs.host s.world := SharedHost.host_of_exec hexec hcall'
    rw [changed_of_ne ht hcall', Option.toList_none, List.append_nil, hhost]
    exact hturns.kept rfl rfl hwaits hanswer

/-- Nobody waits at a file whose lock is free. -/
theorem Conn.Takes.turns_locks (h : s.Takes n locks st) {a : ObjId} {g : FileId}
    (hi : st i = .other (.free none)) (hfile : (LockedObjs.objs s.world a).file = some g)
    (hfree : (LockedObjs.objs s.world a).locked = false)
    (hturns : Turns f node content (lockers f locks) changes bodies st (LockedObjs.host s.world)
      turns late) :
    HasTurns f node content (lockers f (locks ++ [(i, g)])) changes bodies
      (Function.update st i (.locked a g)) (LockedObjs.host s.world) := by
  rw [lockers_append]
  by_cases hgf : g = f
  · subst hgf
    have hlockers : lockers g [(i, g)] = [i] := by simp [lockers]
    have hnobody : ∀ j, ¬ (st j).Waits g := by
      intro j hj
      obtain ⟨b, hb⟩ := stage_of_waits hj
      have hba := h.held.distinct b a g (h.held.file j b _ hb) hfile
      subst hba
      have hlocked := h.held.locked j b (holds_of_file hb)
      rw [hfree] at hlocked
      cases hlocked
    rw [hlockers]
    refine ⟨turns, late, hturns.lock hnobody (by rw [Function.update_self]; exact rfl)
      (fun j hj => Function.update_of_ne hj ..) ?_⟩
    rw [Function.update_self, hi]
    rfl
  · have hlockers : lockers f [(i, g)] = [] := by simp [lockers, hgf]
    rw [hlockers, List.append_nil]
    refine hturns.kept rfl rfl ?_ ?_
    · rw [hi]
      exact eq_false hgf
    · rw [hi]
      rfl

/-- An operation of a handler, with its turn if it has one. -/
theorem Conn.Takes.turns_ran (h : s.Takes n locks st)
    (ht : s.tasks[i]? = some ⟨msg, aux, .handling newfid (.op o k)⟩)
    (hexec : (shortHost N room).lockedExec o s.world = some (r, world))
    (hnext : Proceeds (Made s) msg.body (st i) o r v) (hbody : bodies[i]? = some msg.body)
    (hon : (LockedObjs.host s.world).On f node)
    (hturns : Turns f node content (lockers f locks) changes bodies st (LockedObjs.host s.world)
      turns late) :
    HasTurns f node content (lockers f (locks ++ (taken s (.run i)).toList))
      (changes ++ (changed f node s (.run i)).toList) bodies (Function.update st i v)
      world.host := by
  have hquiet : ∀ {w : Files N.State} {v : Course},
      taken s (.run i) = none → changed f node s (.run i) = none →
      HasTurns f node content (lockers f locks) changes bodies (Function.update st i v) w →
      HasTurns f node content (lockers f (locks ++ (taken s (.run i)).toList))
        (changes ++ (changed f node s (.run i)).toList) bodies (Function.update st i v) w := by
    intro w v htaken hchanged hall
    rwa [htaken, hchanged, Option.toList_none, Option.toList_none, List.append_nil,
      List.append_nil]
  generalize hi : st i = v₀ at hnext
  cases hnext with
  | other q q' o r hposition ho hnext =>
    have htaken : taken s (.run i) = none := by
      cases o with
      | fileLock a => simp [taken, ht, hposition]
      | _ => simp [taken, ht]
    rw [htaken, Option.toList_none, List.append_nil]
    exact turns_other ht hexec ho hi hturns
  | locks a g ha hposition =>
    obtain ⟨hfree, hfile, rfl⟩ := lockedExec_fileLock (lockedExec_short hexec)
    obtain ⟨offset, hoffset⟩ := Option.ne_none_iff_exists'.mp hposition
    have htaken : taken s (.run i) = some (i, g) := by simp [taken, ht, hoffset, hfile]
    rw [htaken, changed_of_ne ht (by simp), Option.toList_some, Option.toList_none,
      List.append_nil]
    exact h.turns_locks hi hfile hfree hturns
  | locksUnopened a ha hposition =>
    obtain ⟨-, hfile, rfl⟩ := lockedExec_fileLock (lockedExec_short hexec)
    refine hquiet (by simp [taken, ht, hfile]) (changed_of_ne ht (by simp)) ?_
    exact hturns.kept rfl rfl (by rw [hi]; rfl) (by rw [hi]; rfl)
  | unlocksUnopened a =>
    cases hexec
    refine hquiet (by simp [taken, ht]) (changed_of_ne ht (by simp)) ?_
    exact hturns.kept rfl rfl (by rw [hi]; rfl) (by rw [hi]; rfl)
  | unlocks a g outcome =>
    cases hexec
    refine hquiet (by simp [taken, ht]) (changed_of_ne ht (by simp)) ?_
    exact hturns.kept rfl rfl (by rw [hi]; rfl) (by rw [hi]; rfl)
  | seeks a g offset pos hposition =>
    obtain ⟨host, hcall, rfl⟩ := exec_of_short hexec
    obtain ⟨file, hfile⟩ := h.file_of_stage (a := a) (f := g) (by rw [hi]; rfl)
    obtain ⟨hpending, ⟨-, -, rfl⟩ | ⟨-, herr, -⟩⟩ := exec_seek hfile hcall
    · refine hquiet (by simp [taken, ht]) (changed_host ht hcall) ?_
      refine hturns.kept rfl ?_ (by rw [hi]; rfl) (by rw [hi]; rfl)
      exact pendingOf_setFile hfile hpending.symm
    · cases herr
  | notSeeks a g offset e hposition =>
    obtain ⟨host, hcall, rfl⟩ := exec_of_short hexec
    obtain ⟨file, hfile⟩ := h.file_of_stage (a := a) (f := g) (by rw [hi]; rfl)
    obtain ⟨hpending, ⟨-, hok, -⟩ | ⟨hoffset, herr, rfl⟩⟩ := exec_seek hfile hcall
    · cases hok
    · cases herr
      refine hquiet (by simp [taken, ht]) (changed_host ht hcall) ?_
      exact hturns.refused hi hfile hpending hbody hposition hoffset
  | reads a g fid offset count bytes hrequest =>
    obtain ⟨host, hcall, rfl⟩ := exec_of_short hexec
    obtain ⟨file, hfile, hpos⟩ := h.held.pos i a g offset (by rw [hi]; rfl)
    obtain ⟨hpending, bytes', heq, hbytes, rfl⟩ := exec_read hfile hcall
    cases heq
    have hchanged : changed f node s (.run i) = none := by
      rw [changed_host ht hcall, access_read hfile]
      rfl
    refine hquiet (by simp [taken, ht]) hchanged ?_
    exact hturns.read hon hi hfile hpos hpending (hrequest ▸ hbody) (h.small i a g offset hi) hbytes
  | notReads a g offset count e =>
    obtain ⟨host, hcall, rfl⟩ := exec_of_short hexec
    obtain ⟨file, hfile⟩ := h.file_of_stage (a := a) (f := g) (by rw [hi]; rfl)
    obtain ⟨-, bytes, herr, -⟩ := exec_read hfile hcall
    cases herr
  | writes a g fid offset data m hrequest =>
    obtain ⟨host, hcall, rfl⟩ := exec_of_short hexec
    obtain ⟨file, hfile, hpos⟩ := h.held.pos i a g offset (by rw [hi]; rfl)
    obtain ⟨hpending, m', heq, rfl⟩ := exec_write hfile hcall
    cases heq
    have hchanged : changed f node s (.run i) = none := by
      rw [changed_host ht hcall, access_write hfile]
      rfl
    refine hquiet (by simp [taken, ht]) hchanged ?_
    exact hturns.write hi hfile hpos hpending (hrequest ▸ hbody) (h.small i a g offset hi)
      m.property
  | notWrites a g offset data e =>
    obtain ⟨host, hcall, rfl⟩ := exec_of_short hexec
    obtain ⟨file, hfile⟩ := h.file_of_stage (a := a) (f := g) (by rw [hi]; rfl)
    obtain ⟨-, m, herr, -⟩ := exec_write hfile hcall
    cases herr

/-- The turns at an open file, as far as it is on the node. -/
def Conn.Serves (f : FileId) (node : ℕ) (content : List UInt8) (locks : List (ℕ × FileId))
    (changes : List Change) (st : ℕ → Course) (s : Conn (shortHost N room).world) : Prop :=
  (LockedObjs.host s.world).On f node →
    HasTurns f node content (lockers f locks) changes ((s.tasks.map Task.msg).map Msg.body) st
      (LockedObjs.host s.world)

theorem on_of_exec {w w' : LockedObjs (Files N.State)}
    (hexec : (shortHost N room).lockedExec o w = some (r, w')) (h : w'.host.On f node) :
    w.host.On f node := by
  cases o with
  | host call =>
    obtain ⟨host, hcall, rfl⟩ := exec_of_short hexec
    intro file hfile
    obtain ⟨file', hfile', hnode⟩ := node_of_executes (executes_of_exec hcall) hfile
    exact hnode.symm.trans (h file' hfile')
  | _ =>
    have hhost : w'.host = w.host := SharedHost.host_of_exec hexec (by simp)
    exact hhost ▸ h

theorem changed_of_still (hrun : ∀ i, l ≠ .run i) (hworld : ∀ e, l ≠ .world e) :
    changed f node s l = none := by
  cases l with
  | run i => exact absurd rfl (hrun i)
  | world e => exact absurd rfl (hworld e)
  | _ => rfl

theorem body_of_step (hstep : step (Unpfs root) s l = some t) {body : Fcall}
    (h : ((s.tasks.map Task.msg).map Msg.body)[i]? = some body) :
    ((t.tasks.map Task.msg).map Msg.body)[i]? = some body := by
  rw [map_msg_of_step hstep, List.map_append,
    List.getElem?_append_left (List.getElem?_eq_some_iff.mp h).1]
  exact h

/-- A write through an open file ends. -/
theorem turns_finished {w w' : Files N.State} {g : FileId} (hfinish : w.finish g = some w')
    (hon : w'.On f node) (hworld : LockedObjs.host s.world = w)
    (hturns : w.On f node → HasTurns f node content order changes bodies st w) :
    HasTurns f node content order
      (changes ++ (changed f node s (.world (.inl g : FileId ⊕ N.State))).toList) bodies st w' := by
  obtain ⟨m, pos, e, hg, rfl⟩ := finish_cases hfinish
  generalize hu : w.setContent m (e.writeTo (w.content m)) = u at hon ⊢
  have hfiles : u.files = w.files := by
    rw [← hu]
    rfl
  have hg' : u.files[g]? = some ⟨m, pos, some e⟩ := by rw [hfiles, hg]
  have hon' : w.On f node := by
    intro file hfile
    rw [← hfiles] at hfile
    by_cases hgf : g = f
    · subst hgf
      rw [hg'] at hfile
      cases hfile
      exact hon ⟨m, pos, none⟩ (file_setFile hg' _)
    · exact hon file ((setFile_of_ne _ (Ne.symm hgf)).trans hfile)
  have hchanged : changed f node s (.world (.inl g : FileId ⊕ N.State)) =
      if g ≠ f ∧ m = node then some (.write e) else none := by
    simp only [changed, hworld, hg]
  obtain ⟨turns, late, hturns⟩ := hturns hon'
  by_cases hgf : g = f
  · subst hgf
    obtain rfl : m = node := hon' _ hg
    rw [hchanged, if_neg (by simp), Option.toList_none, List.append_nil]
    have hcontent : u.content m = e.writeTo (w.content m) := by rw [← hu, setContent_self]
    exact ⟨_, _, hturns.finish (pendingOf_of_file hg) hcontent
      (pendingOf_of_file (file_setFile hg' _))⟩
  · have hpending : (u.setFile g ⟨m, pos, none⟩).pendingOf f = w.pendingOf f := by
      rw [pendingOf_setFile_of_ne _ hgf]
      unfold Files.pendingOf
      rw [hfiles]
    by_cases hm : m = node
    · subst hm
      rw [hchanged, if_pos ⟨hgf, rfl⟩, Option.toList_some]
      have hcontent : u.content m = e.writeTo (w.content m) := by rw [← hu, setContent_self]
      exact ⟨_, _, hturns.change (c := .write e) hcontent hpending⟩
    · rw [hchanged, if_neg (fun hand => hm hand.2), Option.toList_none, List.append_nil]
      have hcontent : u.content node = w.content node := by
        rw [← hu, setContent_of_ne _ (Ne.symm hm)]
      exact ⟨_, _, hturns.goesOn hcontent hpending (fun _ _ hb => hb) (fun _ => rfl)
        (fun _ => rfl)⟩

theorem serves_step {st st' : ℕ → courses.Stage} (h : s.Takes n locks st)
    (hs : s.Serves f node content locks changes st) (hstep : step (Unpfs root) s l = some t)
    (hworld : WorldStep courses s st l st' t.world) :
    t.Serves f node content (locks ++ (taken s l).toList)
      (changes ++ (changed f node s l).toList) st' := by
  intro hon
  have hbodies : ∀ (i : ℕ) (body : Fcall), ((s.tasks.map Task.msg).map Msg.body)[i]? = some body →
      ((t.tasks.map Task.msg).map Msg.body)[i]? = some body := fun i body => body_of_step hstep
  have hlater : ∀ {locks : List ℕ} {changes : List Change} {st : ℕ → Course} {w : Files N.State},
      HasTurns f node content locks changes ((s.tasks.map Task.msg).map Msg.body) st w →
      HasTurns f node content locks changes ((t.tasks.map Task.msg).map Msg.body) st w := by
    rintro locks changes st w ⟨turns, late, hturns⟩
    exact ⟨turns, late, hturns.goesOn rfl rfl hbodies (fun _ => rfl) (fun _ => rfl)⟩
  apply hlater
  generalize hw : t.world = w at hworld hon
  cases hworld with
  | still l hrun hworld =>
    rw [taken_of_ne hrun, changed_of_still hrun hworld, Option.toList_none, Option.toList_none,
      List.append_nil, List.append_nil]
    exact hs hon
  | created i msg aux ht =>
    rw [taken_of_ne (by simp), changed_of_still (by simp) (by simp), Option.toList_none,
      Option.toList_none, List.append_nil, List.append_nil]
    exact hs hon
  | ran i msg aux newfid o k r v w ht hexec hnext =>
    have hon' := on_of_exec hexec hon
    obtain ⟨turns, late, hturns⟩ := hs hon'
    exact h.turns_ran ht hexec hnext (by simp [ht]) hon' hturns
  | ticked e w htick =>
    obtain ⟨host, hhost, rfl⟩ := Option.map_eq_some_iff.mp htick
    rw [taken_of_ne (by simp), Option.toList_none, List.append_nil]
    cases e with
    | inl g => exact turns_finished hhost hon rfl hs
    | inr names =>
      cases hhost
      obtain ⟨turns, late, hturns⟩ := hs hon
      have hnone : changed f node s (.world (.inr names : FileId ⊕ N.State)) = none := rfl
      rw [hnone, Option.toList_none, List.append_nil]
      exact ⟨turns, late, hturns.goesOn rfl rfl (fun _ _ hb => hb) (fun _ => rfl) (fun _ => rfl)⟩

theorem serves_run {ls : List (Label (shortHost N room).world)} {st : ℕ → courses.Stage}
    (h : s.Takes n locks st) (hs : s.Serves f node content locks changes st)
    (hrun : runs (step (Unpfs root)) s ls = some t) : ∃ st',
      t.Takes n (locks ++ observed (step (Unpfs root)) taken s ls) st' ∧
        t.Serves f node content (locks ++ observed (step (Unpfs root)) taken s ls)
          (changes ++ otherChanges root f node s ls) st' := by
  induction ls generalizing s locks changes st with
  | nil =>
    cases hrun
    simp only [otherChanges, observed, List.append_nil]
    exact ⟨st, h, hs⟩
  | cons l ls ih =>
    obtain ⟨u, hu, hrun⟩ := runs_cons_eq_some.mp hrun
    obtain ⟨st', hworld, hgoverned⟩ := governed_step (courses_governs root) h.governed hu
    have hu' := takes_step h hu hworld hgoverned
    have hall := ih hu' (serves_step h hs hu hworld) hrun
    simpa only [otherChanges, observed_cons hu, List.append_assoc] using hall

theorem takes_start (nextAux : ObjId) (host : Files N.State) :
    (host.shortStart room nextAux).Takes host.files.length [] (fun _ => .other (.free none)) where
  governed := governed_start nextAux _
  held := held_start host
  made _ _ hi := nomatch hi
  small _ _ _ _ hi := nomatch hi
  grown := le_rfl
  stored _ _ hg := nomatch hg
  new _ _ hi := nomatch hi
  locked _ _ := iff_of_false (by simp) (by simp [Course.file])
  nodup := List.nodup_nil
  opened _ _ hi := nomatch hi

theorem serves_start (nextAux : ObjId) {host : Files N.State} (hf : host.files.length ≤ f) :
    (host.shortStart room nextAux).Serves f node (host.content node) [] []
      (fun _ => .other (.free none)) := by
  have hnone : host.pendingOf f = none := by
    simp [Files.pendingOf, List.getElem?_eq_none_iff.mpr hf]
  refine fun _ => ⟨[], [], rfl, ?_, rfl, ⟨none, rfl, fun i => ?_⟩, ?_, ?_⟩
  · change Late (host.pendingOf f) []
    rw [hnone]
    exact rfl
  · exact iff_of_false (by simp) (by simp [Course.Waits])
  · simp
  · simp [Course.answer]

theorem mem_lockers : i ∈ lockers f locks ↔ (i, f) ∈ locks := by
  simp [lockers]

theorem nodup_lockers (h : locks.Nodup) (f : FileId) : (lockers f locks).Nodup := by
  refine List.Nodup.filterMap (fun x y j hx hy => ?_) h
  simp only [Option.mem_def, Option.ite_none_right_eq_some, Option.some.injEq] at hx hy
  exact Prod.ext (hx.2.trans hy.2.symm) (hx.1.trans hy.1.symm)

/-- A task that had the lock answers what its turn says. -/
theorem answer_of_ends {body response : Fcall} (h : v.Ends body response)
    (hv : v.file = some f) : v.answer f = some response := by
  cases v with
  | finished g outcome =>
    cases hv
    cases h
    exact if_pos rfl
  | other => cases hv
  | _ => exact h.elim

end

/-- `Tattach` of fid 0 and `Tlopen` of it; `Twrite` of three bytes at 1, of which two are moved, and
`Tread` of four at 0, which takes the lock while the write is under way. -/
def writesAndReads : List (Label (shortHost oneFile fun _ => 2).world) :=
  [.recv [104, 1, 0, 0, 0, 0, 0, 255, 255, 255, 255, 0, 0, 0, 0, 0, 0, 0, 0], .lookup 0, .run 0,
    .run 0, .finish 0, .insert 0, .send 0,
    .recv [12, 1, 0, 0, 0, 0, 0, 2, 0, 0, 0], .lookup 1, .run 1, .run 1, .run 1, .run 1, .run 1,
    .run 1, .run 1, .finish 1, .send 1,
    .recv [118, 1, 0, 0, 0, 0, 0, 1, 0, 0, 0, 0, 0, 0, 0, 3, 0, 0, 0, 120, 121, 122],
    .recv [116, 2, 0, 0, 0, 0, 0, 0, 0, 0, 0, 0, 0, 0, 0, 4, 0, 0, 0], .lookup 3, .lookup 2,
    .run 2, .run 2, .run 2, .run 2, .run 3, .world (.inl (0 : ℕ)), .run 3, .finish 2, .run 3,
    .run 3, .send 2, .finish 3, .send 3]

end P9cpu.Ninep
