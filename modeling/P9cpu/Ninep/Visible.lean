import P9cpu.Ninep.Held
import P9cpu.Ninep.Objects
import P9cpu.Ninep.Walk
import P9cpu.Ninep.WriteBack

/-! When a read that comes after the reply to a write sees what was written. -/
namespace P9cpu.Ninep
open Core Prog

variable {N : Names} {cap : ℕ} {root : PathBuf} {s t u : Conn (fileHost N cap).world}
  {l : Label (fileHost N cap).world} {log : List Access} {st : ℕ → Stage} {i : ℕ} {msg : Msg}
  {aux : ObjId} {p q : Phase UnpfsOp UnpfsRes}

/-- What a step does to the bytes of files. -/
def accessOf (s : Conn (fileHost N cap).world) : Label (fileHost N cap).world → Option Access
  | .run i =>
    match s.tasks[i]? with
    | some ⟨_, _, .handling _ (.op (.host o) _)⟩ =>
      match Files.exec N cap o (LockedObjs.host s.world) with
      | some (r, host) => Files.access i (LockedObjs.host s.world) host o r
      | none => none
    | _ => none
  | _ => none

/-- All accesses of a run, in their order. -/
def accesses (root : PathBuf) :
    Conn (fileHost N cap).world → List (Label (fileHost N cap).world) → List Access
  | _, [] => []
  | s, l :: ls => (accessOf s l).toList ++
    match step (Unpfs root) s l with
    | some t => accesses root t ls
    | none => []

/-- What a handler has moved so far. -/
def Stage.moved : Stage → Option Transfer
  | .free moved | .locked _ _ moved => moved
  | _ => none

/-- The transfer of a task is one of the accesses. -/
def Transfer.Logged (log : List Access) (i : ℕ) : Transfer → Prop
  | .read f offset count bytes =>
    ∃ node underway, .read i f node count ⟨offset.toNat, bytes⟩ underway ∈ log
  | .write f offset data n =>
    ∃ node underway, .write i f node ⟨offset.toNat, data.take n⟩ underway ∈ log

def Phase.Tracked (s : Conn (fileHost N cap).world) (msg : Msg) (q : Stage) :
    Phase UnpfsOp UnpfsRes → Prop
  | .received => q = .free none
  | .handling _ p => p.Follows (Next (Made s)) (fun q r => match r with
    | .ok response => q.Answers msg.body response
    | .error _ => q.released) q
  | .clunking _ _ response | .inserting _ response | .replying response =>
    q.Answers msg.body response
  | .done | .panicked => q.released

/-- The stages of the tasks and the accesses so far. -/
structure Conn.Tracked (log : List Access) (st : ℕ → Stage) (s : Conn (fileHost N cap).world) :
    Prop where
  fresh : s.Fresh
  consistent : s.Consistent
  held : Held st s.world
  logged : Logged cap log (LockedObjs.host s.world)
  made : ∀ i a, (st i).holds = some a → Made s a
  phase : ∀ (i : ℕ) (msg : Msg) (aux : ObjId) (p : Phase UnpfsOp UnpfsRes),
    s.tasks[i]? = some ⟨msg, aux, p⟩ → p.Tracked s msg (st i)
  idle : ∀ i, s.tasks.length ≤ i → st i = .free none
  moved : ∀ i transfer, (st i).moved = some transfer → transfer.Logged log i
  tasks : ∀ e ∈ log, e.task < s.tasks.length
  written : ∀ (i : ℕ) (m : Msg), (i, m) ∈ s.written → ∃ msg aux p,
    s.tasks[i]? = some ⟨msg, aux, p⟩ ∧ p.ended = true ∧ (st i).Answers msg.body m.body

theorem Transfer.Logged.append {transfer : Transfer} (h : transfer.Logged log i)
    (more : List Access) : transfer.Logged (log ++ more) i := by
  cases transfer with
  | read f offset count bytes =>
    obtain ⟨node, underway, hmem⟩ := h
    exact ⟨node, underway, List.mem_append_left _ hmem⟩
  | write f offset data n =>
    obtain ⟨node, underway, hmem⟩ := h
    exact ⟨node, underway, List.mem_append_left _ hmem⟩

theorem Phase.Tracked.mono {q : Stage} (h : p.Tracked s msg q) (hmade : ∀ a, Made s a → Made t a) :
    p.Tracked t msg q := by
  cases p with
  | handling newfid p => exact Follows.imp h (Next.imp hmade)
  | _ => exact h

/-- A task goes on: it alone changes its stage, and what it does is logged. -/
theorem tracked_setPhase (h : s.Tracked log st) {st' : ℕ → Stage} {more : List Access}
    (hfresh : (u.setPhase i q).Fresh) (hconsistent : (u.setPhase i q).Consistent)
    (ht : s.tasks[i]? = some ⟨msg, aux, p⟩) (hp : p.ended = false) (htasks : u.tasks = s.tasks)
    (hmade : ∀ a, Made s a → Made (u.setPhase i q) a)
    (hst : ∀ k, k ≠ i → st' k = st k) (hheld : Held st' u.world)
    (hlogged : Logged cap (log ++ more) (LockedObjs.host u.world))
    (hholds : ∀ a, (st' i).holds = some a → Made s a)
    (hphase : q.Tracked (u.setPhase i q) msg (st' i))
    (hmoved : ∀ transfer, (st' i).moved = some transfer → transfer.Logged (log ++ more) i)
    (hmore : ∀ e ∈ more, e.task = i)
    (hwritten : ∀ j m, (j, m) ∈ u.written →
      (j, m) ∈ s.written ∨ j = i ∧ q.ended = true ∧ (st' i).Answers msg.body m.body) :
    (u.setPhase i q).Tracked (log ++ more) st' := by
  have hi : (u.setPhase i q).tasks[i]? = some ⟨msg, aux, q⟩ := Conn.setPhase_task_self htasks ht
  have hj : ∀ j, j ≠ i → (u.setPhase i q).tasks[j]? = s.tasks[j]? :=
    fun j hij => Conn.setPhase_task_of_ne q htasks (Ne.symm hij)
  have hlen : (u.setPhase i q).tasks.length = s.tasks.length := by
    rw [Conn.setPhase_length, htasks]
  have hlt : i < s.tasks.length := (List.getElem?_eq_some_iff.mp ht).1
  have hnot : ∀ m, (i, m) ∉ s.written := by
    intro m hm
    obtain ⟨msg', aux', p', ht', hended, -⟩ := h.written i m hm
    rw [ht] at ht'
    cases ht'
    rw [hp] at hended
    cases hended
  refine ⟨hfresh, hconsistent, hheld, hlogged, fun k a hk => ?_, fun k m a p' hk => ?_,
    fun k hk => ?_, fun k transfer hk => ?_, fun e he => ?_, fun k m hk => ?_⟩
  · by_cases hki : k = i
    · subst hki
      exact hmade a (hholds a hk)
    · exact hmade a (h.made k a (hst k hki ▸ hk))
  · rcases Conn.task_setPhase htasks ht hk with ⟨rfl, rfl, rfl, rfl⟩ | ⟨hki, hk⟩
    · exact hphase
    · rw [hst k hki]
      exact (h.phase k m a p' hk).mono hmade
  · rw [hlen] at hk
    have hki : k ≠ i := by omega
    rw [hst k hki]
    exact h.idle k hk
  · by_cases hki : k = i
    · subst hki
      exact hmoved transfer hk
    · rw [hst k hki] at hk
      exact (h.moved k transfer hk).append more
  · rw [hlen]
    rcases List.mem_append.mp he with hold | hnew
    · exact h.tasks e hold
    · rw [hmore e hnew]
      exact hlt
  · rcases hwritten k m hk with hold | ⟨rfl, hended, hnew⟩
    · have hki : k ≠ i := by
        rintro rfl
        exact hnot m hold
      obtain ⟨msg', aux', p', ht', hended, hans⟩ := h.written k m hold
      exact ⟨msg', aux', p', (hj k hki).trans ht', hended, hst k hki ▸ hans⟩
    · exact ⟨msg, aux, q, hi, hended, hnew⟩

/-- A task goes on without an operation. -/
theorem tracked_quiet (h : s.Tracked log st) (hfresh : (u.setPhase i q).Fresh)
    (hconsistent : (u.setPhase i q).Consistent) (ht : s.tasks[i]? = some ⟨msg, aux, p⟩)
    (hp : p.ended = false) (htasks : u.tasks = s.tasks)
    (hmade : ∀ a, Made s a → Made (u.setPhase i q) a) (hheld : Held st u.world)
    (hhost : LockedObjs.host u.world = LockedObjs.host s.world)
    (hphase : q.Tracked (u.setPhase i q) msg (st i))
    (hwritten : ∀ j m, (j, m) ∈ u.written →
      (j, m) ∈ s.written ∨ j = i ∧ q.ended = true ∧ (st i).Answers msg.body m.body) :
    (u.setPhase i q).Tracked log st := by
  have hlogged : Logged cap (log ++ []) (LockedObjs.host u.world) := by
    rw [hhost, List.append_nil]
    exact h.logged
  have hmoved : ∀ transfer, (st i).moved = some transfer → transfer.Logged (log ++ []) i :=
    fun transfer htransfer => (h.moved i transfer htransfer).append []
  have hall : (u.setPhase i q).Tracked (log ++ []) st :=
    tracked_setPhase h hfresh hconsistent ht hp htasks hmade (fun _ _ => rfl) hheld hlogged
      (h.made i) hphase hmoved (by simp) hwritten
  rwa [List.append_nil] at hall

theorem tracked_afterHandler {body response : Fcall} (newfid : Option Fid) {q : Stage}
    {msg : Msg} (h : q.Answers msg.body response) :
    (afterHandler body newfid response : Phase UnpfsOp UnpfsRes).Tracked s msg q := by
  have hafter : (afterClunk newfid response : Phase UnpfsOp UnpfsRes).Tracked s msg q := by
    cases newfid <;> exact h
  cases body with
  | tclunk fid => exact h
  | _ => exact hafter

theorem task_of_access {σ : Type} {w w' : Files σ} {o : HostOp} {r : HostRes o} {a : Access}
    (h : Files.access i w w' o r = some a) : a.task = i := by
  unfold Files.access at h
  split at h
  · obtain ⟨file, -, rfl⟩ := Option.map_eq_some_iff.mp h
    rfl
  · obtain ⟨file, -, rfl⟩ := Option.map_eq_some_iff.mp h
    rfl
  · obtain ⟨file, -, rfl⟩ := Option.map_eq_some_iff.mp h
    rfl
  · split_ifs at h
    obtain ⟨file, -, rfl⟩ := Option.map_eq_some_iff.mp h
    rfl
  · cases h

theorem accessOf_host {newfid : Option Fid} {o : HostOp}
    {k : HostRes o → UnpfsProg (Except Error Fcall)} {r : HostRes o} {host : Files N.State}
    (ht : s.tasks[i]? = some ⟨msg, aux, .handling newfid (.op (.host o) k)⟩)
    (hexec : Files.exec N cap o (LockedObjs.host s.world) = some (r, host)) :
    accessOf s (.run i) = Files.access i (LockedObjs.host s.world) host o r := by
  unfold accessOf
  simp only [ht, hexec]

/-- The accesses of an operation, and how the open files show it. -/
theorem logged_ran {newfid : Option Fid} {o : UnpfsOp}
    {k : UnpfsRes o → UnpfsProg (Except Error Fcall)} {r : UnpfsRes o}
    {world : LockedObjs (Files N.State)} (h : Logged cap log (LockedObjs.host s.world))
    (ht : s.tasks[i]? = some ⟨msg, aux, .handling newfid (.op o k)⟩)
    (hexec : (fileHost N cap).lockedExec o s.world = some (r, world)) :
    Logged cap (log ++ (accessOf s (.run i)).toList) world.host ∧
      ∀ e ∈ (accessOf s (.run i)).toList, e.task = i := by
  have hsame : accessOf s (.run i) = none → world.host = LockedObjs.host s.world →
      Logged cap (log ++ (accessOf s (.run i)).toList) world.host ∧
        ∀ e ∈ (accessOf s (.run i)).toList, e.task = i := by
    intro hnone hhost
    rw [hnone, hhost, Option.toList_none, List.append_nil]
    exact ⟨h, by simp⟩
  cases o with
  | host o =>
    obtain ⟨⟨r', host⟩, hrun, heq⟩ := Option.map_eq_some_iff.mp hexec
    cases heq
    rw [accessOf_host ht hrun]
    refine ⟨logged_step h (fileStep_of_exec (executes_of_exec hrun)), fun e he => ?_⟩
    exact task_of_access (Option.mem_toList.mp he)
  | realpathRead a =>
    cases hexec
    exact hsame (by simp [accessOf, ht]) rfl
  | realpathUnread a =>
    cases hexec
    exact hsame (by simp [accessOf, ht]) rfl
  | realpathWrite a path =>
    simp only [SharedHost.lockedExec] at hexec
    split_ifs at hexec
    cases hexec
    exact hsame (by simp [accessOf, ht]) rfl
  | fileLock a =>
    simp only [SharedHost.lockedExec] at hexec
    split_ifs at hexec
    cases hexec
    exact hsame (by simp [accessOf, ht]) rfl
  | fileSet a file =>
    cases hexec
    exact hsame (by simp [accessOf, ht]) rfl
  | fileUnlock a =>
    cases hexec
    exact hsame (by simp [accessOf, ht]) rfl

/-- What a handler has just moved is logged with the offset to which it went before. -/
theorem moved_ran {Uses : ObjId → Prop} {newfid : Option Fid} {o : UnpfsOp}
    {k : UnpfsRes o → UnpfsProg (Except Error Fcall)} {r : UnpfsRes o} {q : Stage}
    {world : LockedObjs (Files N.State)} (h : s.Tracked log st)
    (ht : s.tasks[i]? = some ⟨msg, aux, .handling newfid (.op o k)⟩)
    (hnext : Next Uses (st i) o r q)
    (hexec : (fileHost N cap).lockedExec o s.world = some (r, world)) {transfer : Transfer}
    (htransfer : q.moved = some transfer) :
    transfer.Logged (log ++ (accessOf s (.run i)).toList) i := by
  have hold : (st i).moved = some transfer →
      transfer.Logged (log ++ (accessOf s (.run i)).toList) i :=
    fun hm => (h.moved i transfer hm).append _
  generalize hq : st i = q₀ at hnext hold
  cases hnext with
  | plain => exact hold htransfer
  | unlocks => exact hold htransfer
  | reads a file offset count bytes =>
    cases htransfer
    obtain ⟨⟨r', host⟩, hrun, heq⟩ := Option.map_eq_some_iff.mp hexec
    cases heq
    obtain ⟨opened, hfile, hpos⟩ := h.held.pos i a file offset hq
    refine ⟨opened.node, (LockedObjs.host s.world).underway file opened.node, ?_⟩
    have haccess := (accessOf_host ht hrun).trans (access_read hfile count bytes)
    rw [haccess, ← hpos]
    exact List.mem_append_right _ List.mem_cons_self
  | writes a file offset data n =>
    cases htransfer
    obtain ⟨⟨r', host⟩, hrun, heq⟩ := Option.map_eq_some_iff.mp hexec
    cases heq
    obtain ⟨opened, hfile, hpos⟩ := h.held.pos i a file offset hq
    refine ⟨opened.node, (LockedObjs.host s.world).underway file opened.node, ?_⟩
    have haccess := (accessOf_host ht hrun).trans (access_write hfile data n)
    rw [haccess, ← hpos]
    exact List.mem_append_right _ List.mem_cons_self
  | _ => cases htransfer

/-- A step that accesses no bytes. -/
theorem tracked_none (h : t.Tracked log st) : ∃ st', t.Tracked (log ++ []) st' := by
  refine ⟨st, ?_⟩
  rwa [List.append_nil]

/-- The new fid of a request gets an object that no handler has locked. -/
theorem held_create (h : s.Tracked log st)
    (ht : s.tasks[i]? = some ⟨msg, aux, .received⟩) (b : Bool) :
    Held st (if b then (fileHost N cap).world.create aux s.world else s.world) ∧
      LockedObjs.host (if b then (fileHost N cap).world.create aux s.world else s.world) =
        LockedObjs.host s.world := by
  cases b with
  | false => exact ⟨h.held, rfl⟩
  | true =>
    refine ⟨h.held.create fun k hk => ?_, rfl⟩
    exact (h.made k aux hk).made i msg ht

theorem tracked_taskStep (h : s.Tracked log st) (ht : s.tasks[i]? = some ⟨msg, aux, p⟩)
    (hstep : step (Unpfs root) s l = some (u.setPhase i q))
    (htask : TaskStep (Unpfs root) s i msg aux l p q u) :
    ∃ st', (u.setPhase i q).Tracked (log ++ (accessOf s l).toList) st' := by
  have hfresh := fresh_step h.fresh h.consistent hstep
  have hconsistent := consistent_step s l _ h.consistent hstep
  have hmade : ∀ a, Made s a → Made (u.setPhase i q) a := fun a => made_of_step hstep
  have hp : p.Tracked s msg (st i) := h.phase i msg aux p ht
  have hended := not_ended_of_taskStep htask
  have htasks := (nextAux_of_taskStep htask).1
  cases htask with
  | routed handler hroute =>
    obtain ⟨hheld, hhost⟩ := held_create h ht (newFid msg.body aux).isSome
    apply tracked_none
    refine tracked_quiet h hfresh hconsistent ht hended rfl hmade hheld hhost ?_
      fun _ _ hm => .inl hm
    have hobeys : Obeys (Next (Made s)) Stage.released (Stage.Answers msg.body) (.free none)
        handler := obeys_of_route h.fresh.table hroute
    have hst : st i = .free none := hp
    rw [hst]
    refine (Follows.imp hobeys (Next.imp hmade)).mono fun q r hr => ?_
    cases r with
    | ok response => exact hr
    | error e => exact hr
  | refused e hroute =>
    obtain ⟨hheld, hhost⟩ := held_create h ht (newFid msg.body aux).isSome
    apply tracked_none
    refine tracked_quiet h hfresh hconsistent ht hended rfl hmade hheld hhost ?_
      fun _ _ hm => .inl hm
    have hst : st i = .free none := hp
    rw [hst]
    exact rfl
  | ran newfid o k r world hexec =>
    obtain ⟨q', hnext, hk⟩ := hp r
    obtain ⟨hlogged, hmore⟩ := logged_ran h.logged ht hexec
    have hself : Function.update st i q' i = q' := Function.update_self ..
    refine ⟨Function.update st i q', ?_⟩
    refine tracked_setPhase h hfresh hconsistent ht hended rfl hmade
      (fun k hk => Function.update_of_ne hk ..) (h.held.exec hnext hexec) hlogged ?_ ?_ ?_ hmore
      fun _ _ hm => .inl hm
    · intro a ha
      rw [hself] at ha
      rcases holds_of_next hnext ha with hold | hnew
      · exact h.made i a hold
      · exact hnew
    · rw [hself]
      exact Follows.imp hk (Next.imp hmade)
    · rw [hself]
      exact fun transfer => moved_ran h ht hnext hexec
  | failed newfid e =>
    apply tracked_none
    exact tracked_quiet h hfresh hconsistent ht hended rfl hmade h.held rfl hp
      fun _ _ hm => .inl hm
  | handled newfid response =>
    apply tracked_none
    exact tracked_quiet h hfresh hconsistent ht hended rfl hmade h.held rfl
      (tracked_afterHandler newfid hp) fun _ _ hm => .inl hm
  | clunked fid newfid response hu =>
    apply tracked_none
    refine tracked_quiet h hfresh hconsistent ht hended rfl hmade h.held rfl ?_
      fun _ _ hm => .inl hm
    cases newfid <;> exact hp
  | inserted newfid response hu =>
    apply tracked_none
    exact tracked_quiet h hfresh hconsistent ht hended rfl hmade h.held rfl hp
      fun _ _ hm => .inl hm
  | skipped response hr =>
    apply tracked_none
    exact tracked_quiet h hfresh hconsistent ht hended rfl hmade h.held rfl
      (released_of_answers hp) fun _ _ hm => .inl hm
  | sent response hr hlen =>
    apply tracked_none
    refine tracked_quiet h hfresh hconsistent ht hended rfl hmade h.held rfl
      (released_of_answers hp) fun j m hm => ?_
    obtain hm | hm := List.mem_append.mp hm
    · exact .inl hm
    · obtain ⟨rfl, rfl⟩ : j = i ∧ m = ⟨msg.tag, response⟩ := by simpa using hm
      exact .inr ⟨rfl, rfl, hp⟩
  | tooLong response hr hlen =>
    apply tracked_none
    exact tracked_quiet h hfresh hconsistent ht hended rfl hmade h.held rfl
      (released_of_answers hp) fun _ _ hm => .inl hm

/-- A step that no task takes. -/
theorem tracked_idle (h : s.Tracked log st) (hfresh : t.Fresh) (hconsistent : t.Consistent)
    (htasks : t.tasks = s.tasks) (hmade : ∀ a, Made s a → Made t a) (hheld : Held st t.world)
    (hlogged : Logged cap log (LockedObjs.host t.world)) (hwritten : t.written = s.written) :
    t.Tracked log st := by
  refine ⟨hfresh, hconsistent, hheld, hlogged, fun k a hk => hmade a (h.made k a hk),
    fun k m a p' hk => ?_, fun k hk => ?_, h.moved, fun e he => ?_, fun k m hk => ?_⟩
  · rw [htasks] at hk
    exact (h.phase k m a p' hk).mono hmade
  · rw [htasks] at hk
    exact h.idle k hk
  · rw [htasks]
    exact h.tasks e he
  · rw [hwritten] at hk
    rw [htasks]
    exact h.written k m hk

theorem tracked_step (h : s.Tracked log st) (hstep : step (Unpfs root) s l = some t) :
    ∃ st', t.Tracked (log ++ (accessOf s l).toList) st' := by
  have hfresh := fresh_step h.fresh h.consistent hstep
  have hconsistent := consistent_step s l _ h.consistent hstep
  have hmade : ∀ a, Made s a → Made t a := fun a => made_of_step hstep
  cases connStep_of_step hstep with
  | task i msg aux p q l u ht htask => exact tracked_taskStep h ht hstep htask
  | spawned frame msg rest hr hm =>
    have hlen : (s.spawn msg).tasks.length = s.tasks.length + 1 := by simp [Conn.spawn]
    apply tracked_none
    refine ⟨hfresh, hconsistent, h.held, h.logged, fun k a hk => hmade a (h.made k a hk),
      fun k m a p' hk => ?_, fun k hk => ?_, h.moved, fun e he => ?_, fun k m hk => ?_⟩
    · rcases Conn.spawn_task hk with hold | ⟨rfl, -, -, rfl⟩
      · exact (h.phase k m a p' hold).mono hmade
      · exact h.idle _ le_rfl
    · exact h.idle k (by omega)
    · have hlt := h.tasks e he
      omega
    · obtain ⟨msg', aux', p', ht', hended⟩ := h.written k m hk
      exact ⟨msg', aux', p', Conn.task_spawn msg ht', hended⟩
  | undecodable frame e hm =>
    apply tracked_none
    exact tracked_idle h hfresh hconsistent rfl hmade h.held h.logged rfl
  | hungUp =>
    apply tracked_none
    exact tracked_idle h hfresh hconsistent rfl hmade h.held h.logged rfl
  | ticked f world hw =>
    apply tracked_none
    obtain ⟨host, hfinish, rfl⟩ := Option.map_eq_some_iff.mp hw
    exact tracked_idle h hfresh hconsistent rfl hmade (h.held.finish hfinish)
      (logged_finish h.logged hfinish) rfl

theorem tracked_run {ls : List (Label (fileHost N cap).world)} (h : s.Tracked log st)
    (hrun : runs (step (Unpfs root)) s ls = some t) :
    ∃ st', t.Tracked (log ++ accesses root s ls) st' := by
  induction ls generalizing s log st with
  | nil =>
    cases hrun
    exact ⟨st, (List.append_nil log).symm ▸ h⟩
  | cons l ls ih =>
    obtain ⟨u, hu, hrun⟩ := runs_cons_eq_some.mp hrun
    obtain ⟨st', hst'⟩ := tracked_step h hu
    obtain ⟨st'', hst''⟩ := ih hst' hrun
    refine ⟨st'', ?_⟩
    simpa only [accesses, hu, List.append_assoc] using hst''

/-- A new connection; the host may already have open files. -/
def Files.start (cap : ℕ) (nextAux : ObjId) (host : Files N.State) :
    Conn (fileHost N cap).world :=
  .start .new nextAux ⟨fun _ => LockedFid.default, host⟩

theorem tracked_start (nextAux : ObjId) (host : Files N.State) :
    (host.start cap nextAux).Tracked [] (fun _ => .free none) := by
  have hnone : ∀ (i : ℕ) (x : Task UnpfsOp UnpfsRes),
      (host.start cap nextAux).tasks[i]? ≠ some x := by
    intro i x hx
    cases hx
  have hlogged : Logged cap [] host :=
    ⟨fun k f n e x b hkept => absurd hkept.lt (Nat.not_lt_zero k), by simp⟩
  exact
    { fresh := fresh_start nextAux _
      consistent := ⟨fun i msg aux p ht => absurd ht (hnone i _), fun i m hm => nomatch hm⟩
      held := held_start host
      logged := hlogged
      made := fun _ _ hk => nomatch hk
      phase := fun i msg aux p ht => absurd ht (hnone i _)
      idle := fun _ _ => rfl
      moved := fun _ _ hm => nomatch hm
      tasks := fun e he => nomatch he
      written := fun i m hm => nomatch hm }

theorem accesses_append {ls ms : List (Label (fileHost N cap).world)}
    (hrun : runs (step (Unpfs root)) s ls = some t) :
    accesses root s (ls ++ ms) = accesses root s ls ++ accesses root t ms := by
  induction ls generalizing s with
  | nil =>
    cases hrun
    rfl
  | cons l ls ih =>
    obtain ⟨u, hu, hrun⟩ := runs_cons_eq_some.mp hrun
    simp only [List.cons_append, accesses, hu, ih hrun, List.append_assoc]

/-- A write that was acknowledged with its count, a read that was answered later, and their
accesses. What the read got of the bytes that were written and that no other access hit between
is what was written, if the writes under way at either time are `Clear` of them. -/
inductive Visible (cap : ℕ) (log : List Access) (Clear : List Extent → ℕ → Prop) (i j : ℕ)
    (write : Fcall) (c : UInt32) (read : Fcall) (d : Data) : Prop
  | intro (fid fid' : UInt32) (offset offset' : UInt64) (data : Data) (n : ℕ) (count : UInt32)
      (f g : FileId) (node node' k l : ℕ) (underway underway' : List Extent)
      (hbody : write = .twrite fid offset data) (hbody' : read = .tread fid' offset' count)
      (hc : c = .ofNat n)
      (hwrite : log[k]? = some (.write i f node ⟨offset.toNat, data.bytes.take n⟩ underway))
      (hread : log[l]? = some (.read j g node' count.toNat ⟨offset'.toNat, d.bytes⟩ underway'))
      (hlt : k < l)
      (hsees : node = node' → ∀ x b,
        Extent.get ⟨offset.toNat, data.bytes.take c.toNat⟩ x = some b →
        offset'.toNat ≤ x → x < offset'.toNat + min count.toNat cap →
        (∀ m a, k < m → m < l → log[m]? = some a → ¬ a.Hits node x) →
        Clear underway x → Clear underway' x → Extent.get ⟨offset'.toNat, d.bytes⟩ x = some b)

theorem get_take {offset m n x : ℕ} {bytes : List UInt8} {b : UInt8} (hmn : m ≤ n)
    (h : Extent.get ⟨offset, bytes.take m⟩ x = some b) :
    Extent.get ⟨offset, bytes.take n⟩ x = some b := by
  unfold Extent.get at h ⊢
  dsimp only at h ⊢
  split_ifs at h with hle
  have hlt : x - offset < m := by
    have hlen := (List.getElem?_eq_some_iff.mp h).1
    rw [List.length_take] at hlen
    omega
  rw [List.getElem?_take_of_lt hlt] at h
  rw [if_pos hle, List.getElem?_take_of_lt (by omega), h]

/-- The write for which `Rwrite` was sent. -/
theorem access_of_rwrite {tag : UInt16} {c : UInt32} (h : s.Tracked log st)
    (hwritten : (i, (⟨tag, .rwrite c⟩ : Msg)) ∈ s.written)
    (hi : (s.tasks.map Task.msg)[i]? = some msg) :
    ∃ (fid : UInt32) (offset : UInt64) (data : Data) (n : ℕ) (f : FileId) (node : ℕ)
      (underway : List Extent) (k : ℕ), msg.body = .twrite fid offset data ∧ c = .ofNat n ∧
        log[k]? = some (.write i f node ⟨offset.toNat, data.bytes.take n⟩ underway) := by
  obtain ⟨msg', aux, p, ht, -, hans⟩ := h.written i _ hwritten
  rw [List.getElem?_map, ht] at hi
  cases hi
  obtain ⟨fid, offset, data, f, n, hbody, hst, hc⟩ := hans
  obtain ⟨node, underway, hmem⟩ := h.moved i (.write f offset data.bytes n) (by rw [hst]; rfl)
  obtain ⟨k, hk⟩ := List.mem_iff_getElem?.mp hmem
  exact ⟨fid, offset, data, n, f, node, underway, k, hbody, hc, hk⟩

theorem access_of_rread {tag : UInt16} {d : Data} (h : s.Tracked log st)
    (hwritten : (i, (⟨tag, .rread d⟩ : Msg)) ∈ s.written)
    (hi : (s.tasks.map Task.msg)[i]? = some msg) :
    ∃ (fid : UInt32) (offset : UInt64) (count : UInt32) (f : FileId) (node : ℕ)
      (underway : List Extent) (l : ℕ), msg.body = .tread fid offset count ∧
        log[l]? = some (.read i f node count.toNat ⟨offset.toNat, d.bytes⟩ underway) := by
  obtain ⟨msg', aux, p, ht, -, hans⟩ := h.written i _ hwritten
  rw [List.getElem?_map, ht] at hi
  cases hi
  obtain ⟨fid, offset, count, f, hbody, hst⟩ := hans
  obtain ⟨node, underway, hmem⟩ := h.moved i (.read f offset count.toNat d.bytes) (by rw [hst]; rfl)
  obtain ⟨l, hl⟩ := List.mem_iff_getElem?.mp hmem
  exact ⟨fid, offset, count, f, node, underway, l, hbody, hl⟩

/-- A host where every path is one regular file. -/
def oneFile : Names where
  State := Unit
  exec
    | .symlinkMetadata _, s =>
      (.ok ⟨1, 2, .file, 0o644, 0, 0, 1, 0, 0, 4096, 0, 0, 0, 0, 0, 0, 0⟩, s)
    | o, s => (dirHost []).exec o s
  find _ _ _ s := (.ok 0, s)
  findWrite _ s := (.ok 0, s)

def emptyFile : Files oneFile.State := ⟨(), fun _ => [], []⟩

/-- `Tattach` of fid 0, `Twalk` from it to fid 1, `Tlopen` of both, `Twrite` of one byte on fid
0. -/
def writesOpened : List (Label (fileHost oneFile 2097152).world) :=
  [.recv [104, 1, 0, 0, 0, 0, 0, 255, 255, 255, 255, 0, 0, 0, 0, 0, 0, 0, 0], .lookup 0, .run 0,
    .run 0, .finish 0, .insert 0, .send 0,
    .recv [110, 1, 0, 0, 0, 0, 0, 1, 0, 0, 0, 0, 0], .lookup 1, .run 1, .run 1, .run 1,
    .finish 1, .insert 1, .send 1,
    .recv [12, 1, 0, 0, 0, 0, 0, 2, 0, 0, 0], .lookup 2, .run 2, .run 2, .run 2, .run 2, .run 2,
    .run 2, .run 2, .finish 2, .send 2,
    .recv [12, 1, 0, 1, 0, 0, 0, 2, 0, 0, 0], .lookup 3, .run 3, .run 3, .run 3, .run 3, .run 3,
    .run 3, .run 3, .finish 3, .send 3,
    .recv [118, 1, 0, 0, 0, 0, 0, 0, 0, 0, 0, 0, 0, 0, 0, 1, 0, 0, 0, 120], .lookup 4, .run 4,
    .run 4, .run 4, .run 4, .finish 4, .send 4]

/-- `Tread` of the byte on fid 1. -/
def readsOther : List (Label (fileHost oneFile 2097152).world) :=
  [.recv [116, 1, 0, 1, 0, 0, 0, 0, 0, 0, 0, 0, 0, 0, 0, 1, 0, 0, 0], .lookup 5, .run 5,
    .run 5, .run 5, .run 5, .finish 5, .send 5]

theorem writesOpened_isSome : (runs (step (Unpfs (.ofString "/"))) (emptyFile.start 2097152 0)
    writesOpened).isSome = true := rfl

def writtenOpened : Conn (fileHost oneFile 2097152).world :=
  (runs (step (Unpfs (.ofString "/"))) (emptyFile.start 2097152 0) writesOpened).get
    writesOpened_isSome

end P9cpu.Ninep
