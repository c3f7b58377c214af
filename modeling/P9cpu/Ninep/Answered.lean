import P9cpu.Core.Settle
import P9cpu.Ninep.Guards
import P9cpu.Ninep.OneReply
import P9cpu.Ninep.Writer

/-! Every request is answered: the tasks of a connection never wait for each other in a circle, and
every one of them ends. -/
namespace P9cpu.Ninep
open Core Prog

/-! What is left to do. -/

section
variable {Op : Type} {Res : Op → Type} {W : World Op Res} {fs : Filesystem Op Res} {s t u : Conn W}
  {l : Label W} {i : ℕ} {msg : Msg} {aux : ObjId} {p q : Phase Op Res}

/-- How many phases are still to come. -/
def Phase.rank : Phase Op Res → ℕ
  | .received => 5
  | .handling .. => 4
  | .clunking .. => 3
  | .inserting .. => 2
  | .replying _ => 1
  | .done | .panicked => 0

/-- A later phase, or less of the handler. -/
inductive Phase.After : Phase Op Res → Phase Op Res → Prop
  | phase {p q : Phase Op Res} (h : q.rank < p.rank) : After q p
  | handler (newfid : Option Fid) {p q : Prog Op Res (Except Error Fcall)} (h : Left q p) :
      After (.handling newfid q) (.handling newfid p)

theorem Phase.wellFounded_after : WellFounded (After : Phase Op Res → Phase Op Res → Prop) := by
  have hacc : ∀ n, ∀ p : Phase Op Res, p.rank = n → Acc After p := by
    intro n
    induction n using Nat.strong_induction_on with
    | _ n ih =>
      intro p hp
      cases p with
      | handling newfid p =>
        induction p using wellFounded_left.induction with
        | _ p ihp =>
          constructor
          intro q hq
          cases hq with
          | phase hlt => exact ih _ (hp ▸ hlt) q rfl
          | handler newfid hleft => exact ihp _ hleft hp
      | _ =>
        constructor
        intro q hq
        cases hq with
        | phase hlt => exact ih _ (hp ▸ hlt) q rfl
  exact ⟨fun p => hacc p.rank p rfl⟩

theorem rank_afterClunk (newfid : Option Fid) (response : Fcall) :
    (afterClunk newfid response : Phase Op Res).rank < 3 := by
  cases newfid with
  | none => simp [afterClunk, Phase.rank]
  | some newfid => simp [afterClunk, Phase.rank]

theorem rank_afterHandler (body : Fcall) (newfid : Option Fid) (response : Fcall) :
    (afterHandler body newfid response : Phase Op Res).rank < 4 := by
  have hafter : (afterClunk newfid response : Phase Op Res).rank < 3 := rank_afterClunk _ _
  unfold afterHandler
  split
  · simp [Phase.rank]
  · omega

theorem after_of_taskStep (h : TaskStep fs s i msg aux l p q u) : q.After p := by
  cases h with
  | ran newfid o k r world hexec => exact .handler newfid (.op o k r)
  | handled newfid response => exact .phase (rank_afterHandler _ _ _)
  | clunked fid newfid response hu => exact .phase (rank_afterClunk _ _)
  | _ => exact .phase (by simp [Phase.rank])

/-- The phases of the tasks. -/
def Conn.phases (s : Conn W) : Multiset (Phase Op Res) := (s.tasks.map Task.phase : List _)

/-- The task that takes a step. -/
def Label.task : Label W → Option ℕ
  | .lookup i | .run i | .finish i | .clunk i | .insert i | .send i => some i
  | .recv _ | .hangup | .world _ => none

/-- What happens beside the tasks when no request arrives. -/
def Label.Quiet : Label W → Prop
  | .hangup | .world _ => True
  | _ => False

theorem tasks_of_quiet (hl : l.Quiet) (hstep : step fs s l = some t) : t.tasks = s.tasks := by
  cases connStep_of_step hstep with
  | hungUp | ticked => rfl
  | spawned | undecodable => exact hl.elim
  | task i msg aux p q l u ht htask => cases htask <;> exact hl.elim

theorem tasks_of_quiet_run {ls : List (Label W)} (hls : ∀ l ∈ ls, l.Quiet)
    (hr : runs (step fs) s ls = some t) : t.tasks = s.tasks := by
  refine runs_invariant_along (C := fun _ l => l.Quiet) (I := fun u => u.tasks = s.tasks) ?_
    (Along.of_forall hls s) hr rfl
  intro u l v hu hl hstep
  rw [tasks_of_quiet hl hstep, hu]

/-- With every step of a task there is less left to do. -/
theorem phases_of_taskStep (hl : l.task = some i) (hstep : step fs s l = some t) :
    Relation.CutExpand Phase.After t.phases s.phases := by
  cases connStep_of_step hstep with
  | spawned | undecodable | hungUp | ticked => cases hl
  | task j msg aux p q l u ht htask =>
    have htasks : u.tasks = s.tasks := (nextAux_of_taskStep htask).1
    have hset : (u.setPhase j q).tasks.map Task.phase = (s.tasks.map Task.phase).set j q := by
      apply List.ext_getElem?
      intro k
      rw [List.getElem?_map, Conn.setPhase_task, htasks, List.getElem?_set, List.getElem?_map]
      by_cases hk : j = k
      · subst hk
        have hlt : j < s.tasks.length := (List.getElem?_eq_some_iff.mp ht).1
        simp [hlt]
      · simp [hk]
    unfold Conn.phases
    rw [hset]
    apply cutExpand_set _ (after_of_taskStep htask)
    rw [List.getElem?_map, ht]
    rfl

end

/-! Locks and the tasks that wait for them. -/

/-- The locks that the tasks of a connection take. -/
inductive Lock
  /-- the `RwLock` of the fid table -/
  | table
  /-- the `RwLock` of the path of an object -/
  | realpath (a : ObjId)
  /-- the `Mutex` of the open file of an object -/
  | file (a : ObjId)

/-- The host answers every call in the end, when it is left to itself. -/
def SharedHost.Responsive (h : SharedHost) : Prop :=
  ∀ (o : HostOp) (s : h.State), ∃ es t, runs (fun s e => h.tick e s) s es = some t ∧
    (h.exec o t).isSome = true

section
variable {h : SharedHost} {realroot : PathBuf} {s t : Conn h.world} {l : Label h.world} {k : Lock}

/-- No task holds the lock. -/
def Available (s : Conn h.world) : Lock → Prop
  | .table => s.unlocked = true
  | .realpath a => (s.world.objs a).readers = 0
  | .file a => (s.world.objs a).locked = false

/-- The next step of a task is to take the lock. -/
inductive Awaits (s : Conn h.world) : Lock → Label h.world → Prop
  | lookup {i : ℕ} {msg : Msg} {aux : ObjId} (ht : s.tasks[i]? = some ⟨msg, aux, .received⟩) :
      Awaits s .table (.lookup i)
  | clunk {i : ℕ} {msg : Msg} {aux : ObjId} {fid : UInt32} {newfid : Option Fid}
      {response : Fcall} (ht : s.tasks[i]? = some ⟨msg, aux, .clunking fid newfid response⟩) :
      Awaits s .table (.clunk i)
  | insert {i : ℕ} {msg : Msg} {aux : ObjId} {newfid : Fid} {response : Fcall}
      (ht : s.tasks[i]? = some ⟨msg, aux, .inserting newfid response⟩) :
      Awaits s .table (.insert i)
  | realpathRead {i : ℕ} {msg : Msg} {aux a : ObjId} {newfid : Option Fid}
      {f : PathBuf → UnpfsProg (Except Error Fcall)}
      (ht : s.tasks[i]? = some ⟨msg, aux, .handling newfid (.op (.realpathRead a) f)⟩) :
      Awaits s (.realpath a) (.run i)
  | realpathWrite {i : ℕ} {msg : Msg} {aux a : ObjId} {newfid : Option Fid} {path : PathBuf}
      {f : Unit → UnpfsProg (Except Error Fcall)}
      (ht : s.tasks[i]? = some ⟨msg, aux, .handling newfid (.op (.realpathWrite a path) f)⟩) :
      Awaits s (.realpath a) (.run i)
  | fileLock {i : ℕ} {msg : Msg} {aux a : ObjId} {newfid : Option Fid}
      {f : Option FileId → UnpfsProg (Except Error Fcall)}
      (ht : s.tasks[i]? = some ⟨msg, aux, .handling newfid (.op (.fileLock a) f)⟩) :
      Awaits s (.file a) (.run i)

/-- A lock that nobody holds can be taken. -/
theorem step_of_awaits (realroot : PathBuf) (hk : Available s k) (hl : Awaits s k l) :
    (step (Unpfs realroot) s l).isSome = true ∧ ∃ i, l.task = some i := by
  cases hl with
  | @lookup i msg aux ht =>
    refine ⟨?_, i, rfl⟩
    simp only [step, ht]
    split <;> rfl
  | @clunk i msg aux fid newfid response ht =>
    have hunlocked : s.unlocked = true := hk
    refine ⟨?_, i, rfl⟩
    simp [step, ht, hunlocked]
  | @insert i msg aux newfid response ht =>
    have hunlocked : s.unlocked = true := hk
    refine ⟨?_, i, rfl⟩
    simp [step, ht, hunlocked]
  | @realpathRead i msg aux a newfid f ht =>
    refine ⟨?_, i, rfl⟩
    simp [step, ht, SharedHost.world, SharedHost.lockedExec]
  | @realpathWrite i msg aux a newfid path f ht =>
    have hreaders : (s.world.objs a).readers = 0 := hk
    refine ⟨?_, i, rfl⟩
    simp [step, ht, SharedHost.world, SharedHost.lockedExec, hreaders]
  | @fileLock i msg aux a newfid f ht =>
    have hlocked : (s.world.objs a).locked = false := hk
    refine ⟨?_, i, rfl⟩
    simp [step, ht, SharedHost.world, SharedHost.lockedExec, hlocked]

/-- Which step is taken next, after the ones in the list. -/
abbrev Scheduler (W : World UnpfsOp UnpfsRes) := List (Label W) → Label W → Prop

/-- A scheduler that holds back only tasks that wait for a lock, and that gives a lock which is
free to one of the tasks that wait for it. In which order it does, and whether readers stand
behind a writer, is left open. -/
structure Scheduler.Serves (admits : Scheduler h.world) (realroot : PathBuf)
    (start : Conn h.world) : Prop where
  ready : ∀ past s l, runs (step (Unpfs realroot)) start past = some s →
    (step (Unpfs realroot) s l).isSome = true → (∀ k, ¬ Awaits s k l) → admits past l
  lock : ∀ past s k l, runs (step (Unpfs realroot)) start past = some s → Available s k →
    Awaits s k l → ∃ m, Awaits s k m ∧ admits past m

/-- Nothing or something happens beside the tasks, then the scheduler lets a task take a step. -/
def GoesOn (realroot : PathBuf) (start : Conn h.world) (admits : Scheduler h.world)
    (past future : List (Label h.world)) : Prop :=
  ∃ quiet l i, future = past ++ quiet ++ [l] ∧ (∀ m ∈ quiet, m.Quiet) ∧ l.task = some i ∧
    admits (past ++ quiet) l ∧ (runs (step (Unpfs realroot)) start future).isSome = true

variable {start : Conn h.world} {admits : Scheduler h.world} {past : List (Label h.world)}

/-- A step of a task that the scheduler lets through. -/
theorem goesOn_of_step (quiet : List (Label h.world)) {i : ℕ}
    (hr : runs (step (Unpfs realroot)) start (past ++ quiet) = some s)
    (hquiet : ∀ m ∈ quiet, m.Quiet) (hadmits : admits (past ++ quiet) l) (hl : l.task = some i)
    (hstep : (step (Unpfs realroot) s l).isSome = true) :
    ∃ future, GoesOn realroot start admits past future := by
  obtain ⟨t, ht⟩ := Option.isSome_iff_exists.mp hstep
  refine ⟨_, quiet, l, i, rfl, hquiet, hl, hadmits, ?_⟩
  have hrun : runs (step (Unpfs realroot)) start (past ++ quiet ++ [l]) = some t :=
    runs_append_eq_some.mpr ⟨s, hr, by rw [runs_cons, ht]; rfl⟩
  rw [hrun]
  rfl

/-- A task that waits for a lock which is free goes on, or another one that waits for it. -/
theorem goesOn_of_awaits (hadmits : admits.Serves realroot start)
    (hr : runs (step (Unpfs realroot)) start past = some s) (hk : Available s k)
    (hl : Awaits s k l) : ∃ future, GoesOn realroot start admits past future := by
  obtain ⟨m, hm, hadm⟩ := hadmits.lock past s k l hr hk hl
  obtain ⟨hstep, i, hi⟩ := step_of_awaits realroot hk hm
  apply goesOn_of_step [] (l := m) (i := i)
  · rwa [List.append_nil]
  · simp
  · rwa [List.append_nil]
  · exact hi
  · exact hstep

/-- The connection with its host in another state. -/
def Conn.withHost (s : Conn h.world) (host : h.State) : Conn h.world :=
  { s with world := (⟨s.world.objs, host⟩ : LockedObjs h.State) }

theorem step_tick (realroot : PathBuf) {e : h.Event} {host : h.State} (he : h.tick e s.world.host = some host) :
    step (Unpfs realroot) s (.world e) = some (s.withHost host) := by
  have hworld : h.world.tick e s.world =
      some (⟨s.world.objs, host⟩ : LockedObjs h.State) := by
    simp only [SharedHost.world, he, Option.map_some]
  simp only [step, hworld]
  rfl

theorem runs_ticks (realroot : PathBuf) {es : List h.Event} {host : h.State}
    (hes : runs (fun s e => h.tick e s) s.world.host es = some host) :
    runs (step (Unpfs realroot)) s (es.map fun e => (.world e : Label h.world)) =
      some (s.withHost host) := by
  induction es generalizing s with
  | nil =>
    cases hes
    rfl
  | cons e es ih =>
    obtain ⟨host', htick, hes⟩ := runs_cons_eq_some.mp hes
    have hrest := ih (s := s.withHost host') hes
    apply runs_cons_eq_some.mpr
    exact ⟨_, step_tick realroot htick, hrest⟩

/-- A call to the host is answered, perhaps after a while. -/
theorem goesOn_of_call (hh : h.Responsive) (hadmits : admits.Serves realroot start)
    (hr : runs (step (Unpfs realroot)) start past = some s) {i : ℕ} {msg : Msg} {aux : ObjId}
    {newfid : Option Fid} {o : HostOp} {f : HostRes o → UnpfsProg (Except Error Fcall)}
    (ht : s.tasks[i]? = some ⟨msg, aux, .handling newfid (.op (.host o) f)⟩) :
    ∃ future, GoesOn realroot start admits past future := by
  obtain ⟨es, host, hes, hexec⟩ := hh o s.world.host
  have hrun := runs_append_eq_some.mpr ⟨s, hr, runs_ticks realroot hes⟩
  obtain ⟨x, hx⟩ := Option.isSome_iff_exists.mp hexec
  have htask : (s.withHost host).tasks[i]? =
      some ⟨msg, aux, .handling newfid (.op (.host o) f)⟩ := ht
  have hworld : h.world.exec (.host o) (s.withHost host).world =
      some (x.1, (⟨s.world.objs, x.2⟩ : LockedObjs h.State)) := by
    have hlocked : h.lockedExec (.host o) (s.withHost host).world =
        (h.exec o host).map fun x => (x.1, (⟨s.world.objs, x.2⟩ : LockedObjs h.State)) := rfl
    rw [hx] at hlocked
    exact hlocked
  have hstep : (step (Unpfs realroot) (s.withHost host) (.run i)).isSome = true := by
    simp only [step, htask, hworld, Option.isSome_some]
  apply goesOn_of_step _ (l := .run i) (i := i) hrun
  · intro m hm
    obtain ⟨e, -, rfl⟩ := List.mem_map.mp hm
    exact True.intro
  · apply hadmits.ready _ _ _ hrun hstep
    intro k hk
    cases hk with
    | realpathRead ht' | realpathWrite ht' | fileLock ht' =>
      rw [htask] at ht'
      cases ht'
  · rfl
  · exact hstep

/-- A step that is no wait for a lock. -/
theorem goesOn_of_ready (hadmits : admits.Serves realroot start)
    (hr : runs (step (Unpfs realroot)) start past = some s) {i : ℕ} (hl : l.task = some i)
    (hready : ∀ k, ¬ Awaits s k l) (hstep : (step (Unpfs realroot) s l).isSome = true) :
    ∃ future, GoesOn realroot start admits past future := by
  apply goesOn_of_step [] (l := l) (i := i)
  · rwa [List.append_nil]
  · simp
  · rw [List.append_nil]
    exact hadmits.ready past s l hr hstep hready
  · exact hl
  · exact hstep

/-- A handler goes on if the lock that it waits for is free. -/
theorem goesOn_of_handling (hh : h.Responsive) (hadmits : admits.Serves realroot start)
    (hr : runs (step (Unpfs realroot)) start past = some s) {i : ℕ} {msg : Msg} {aux : ObjId}
    {newfid : Option Fid} {p : UnpfsProg (Except Error Fcall)}
    (ht : s.tasks[i]? = some ⟨msg, aux, .handling newfid p⟩)
    (hlocks : ∀ k, Awaits s k (.run i) → Available s k) :
    ∃ future, GoesOn realroot start admits past future := by
  cases p with
  | ret r =>
    apply goesOn_of_ready hadmits hr (l := .finish i) rfl
    · intro k hk
      cases hk
    · cases r with
      | ok response => simp [step, ht]
      | error e => simp [step, ht]
  | op o f =>
    cases o with
    | host o => exact goesOn_of_call hh hadmits hr ht
    | realpathRead a =>
      have hawaits : Awaits s (.realpath a) (.run i) := .realpathRead ht
      exact goesOn_of_awaits hadmits hr (hlocks _ hawaits) hawaits
    | realpathWrite a path =>
      have hawaits : Awaits s (.realpath a) (.run i) := .realpathWrite ht
      exact goesOn_of_awaits hadmits hr (hlocks _ hawaits) hawaits
    | fileLock a =>
      have hawaits : Awaits s (.file a) (.run i) := .fileLock ht
      exact goesOn_of_awaits hadmits hr (hlocks _ hawaits) hawaits
    | realpathUnread a | fileSet a file | fileUnlock a =>
      apply goesOn_of_ready hadmits hr (l := .run i) rfl
      · intro k hk
        cases hk with
        | realpathRead ht' | realpathWrite ht' | fileLock ht' =>
          rw [ht] at ht'
          cases ht'
      · simp [step, ht, SharedHost.world, SharedHost.lockedExec]

/-- A handler with a guard does not wait for another lock. -/
theorem not_awaits_of_guard {g : ℕ → Guard} (hs : s.Balanced g) {i : ℕ} (hi : g i ≠ .free) :
    ¬ Awaits s k (.run i) := by
  intro hk
  cases hk with
  | @realpathRead _ msg aux a newfid f ht =>
    obtain ⟨g', hnext, -⟩ := hs.governed.phase i msg aux _ ht ⟨[]⟩
    generalize hgi : g i = gi at hnext hi
    cases hnext
    exact hi rfl
  | @realpathWrite _ msg aux a newfid path f ht =>
    obtain ⟨g', hnext, -⟩ := hs.governed.phase i msg aux _ ht ()
    generalize hgi : g i = gi at hnext hi
    cases hnext
    exact hi rfl
  | @fileLock _ msg aux a newfid f ht =>
    obtain ⟨g', hnext, -⟩ := hs.governed.phase i msg aux _ ht none
    generalize hgi : g i = gi at hnext hi
    cases hnext
    exact hi rfl

/-- No deadlock: while a task has not ended, a task can go on. -/
theorem goesOn_of_unended (hh : h.Responsive) {nextAux : ObjId} {host : h.State}
    (hadmits : admits.Serves realroot (h.conn nextAux host))
    (hr : runs (step (Unpfs realroot)) (h.conn nextAux host) past = some s) {i : ℕ} {msg : Msg}
    {aux : ObjId} {p : Phase UnpfsOp UnpfsRes} (ht : s.tasks[i]? = some ⟨msg, aux, p⟩)
    (hp : p.ended = false) :
    ∃ future, GoesOn realroot (h.conn nextAux host) admits past future := by
  obtain ⟨g, hs⟩ := balanced_run hr
  by_cases hguard : ∃ k, g k ≠ .free
  · -- a handler that holds a lock waits for the host at most
    obtain ⟨k, hk⟩ := hguard
    obtain ⟨m, a, newfid, p, htask⟩ := handling_of_guard hs hk
    apply goesOn_of_handling hh hadmits hr htask
    intro lock hlock
    exact absurd hlock (not_awaits_of_guard hs hk)
  · have hfree : ∀ k, g k = .free := by
      intro k
      by_contra hk
      exact hguard ⟨k, hk⟩
    have hobjs : ∀ a, Available s (.realpath a) ∧ Available s (.file a) := by
      intro a
      constructor
      · have hreaders : (s.world.objs a).readers = 0 := by
          rw [hs.balance.readers a]
          simp [hfree]
        exact hreaders
      · have hlocked : (s.world.objs a).locked = false := by
          rw [Bool.eq_false_iff]
          intro hlocked
          obtain ⟨k, hk⟩ := (hs.balance.locked a).mp hlocked
          rw [hfree k] at hk
          cases hk
        exact hlocked
    by_cases hhandling : ∃ (k : ℕ) (m : Msg) (a : ObjId) (newfid : Option Fid)
        (p : UnpfsProg (Except Error Fcall)), s.tasks[k]? = some ⟨m, a, .handling newfid p⟩
    · -- no object is locked, so no handler waits in vain
      obtain ⟨k, m, a, newfid, p, htask⟩ := hhandling
      apply goesOn_of_handling hh hadmits hr htask
      intro lock hlock
      cases hlock with
      | realpathRead | realpathWrite => exact (hobjs _).1
      | fileLock => exact (hobjs _).2
    · -- no handler runs, so the table is free
      have htable : Available s .table := by
        have hunlocked : s.unlocked = true := by
          apply List.all_eq_true.mpr
          intro task htask
          obtain ⟨k, hk⟩ := List.mem_iff_getElem?.mp htask
          obtain ⟨m, a, p⟩ := task
          cases p with
          | handling newfid p => exact (hhandling ⟨k, m, a, newfid, p, hk⟩).elim
          | _ => rfl
        exact hunlocked
      cases p with
      | received => exact goesOn_of_awaits hadmits hr htable (.lookup ht)
      | clunking => exact goesOn_of_awaits hadmits hr htable (.clunk ht)
      | inserting => exact goesOn_of_awaits hadmits hr htable (.insert ht)
      | handling newfid p => exact (hhandling ⟨i, msg, aux, newfid, p, ht⟩).elim
      | replying response =>
        apply goesOn_of_ready hadmits hr (l := .send i) rfl
        · intro k hk
          cases hk
        · simp only [step, ht]
          split_ifs
          · simp only [writeMsg_vec]
            split_ifs <;> rfl
          · rfl
      | done | panicked => cases hp

end

/-! The kinds of replies. -/

/-- `Rlerror` or the reply of the type that belongs to the request, which the writer lets pass. -/
abbrev kinds : Protocol UnpfsOp UnpfsRes where
  Stage := Unit
  start := ()
  next _ _ _ _ _ _ := True
  ends body _ response := Answers body response ∧ response.msgType.isR = true
  mono _ _ _ _ _ _ _ := True.intro

/-- Whatever the host answers, a handler returns the reply to its request. -/
theorem returns_of_route {realroot : PathBuf} {fids : FidTable} {aux : ObjId} {body : Fcall}
    {handler : UnpfsHandler Fcall}
    (hroute : route (Unpfs realroot) fids (newFid body aux) body = .ok handler) :
    Returns (fun _ _ => True) (fun response =>
      response.msgType.toU8 = body.msgType.toU8 + 1 ∧ response.msgType.isR = true) handler := by
  have hkind : ∀ response, Replies body response →
      response.msgType.toU8 = body.msgType.toU8 + 1 ∧ response.msgType.isR = true :=
    fun response hr => ⟨hr.type, hr.isR⟩
  cases routed_of_route hroute with
  | rstatfs hb => exact (rstatfs_replies _ _).mono hkind
  | rlopen flags hb => exact (rlopen_replies _ _ _).mono hkind
  | rlcreate name flags mode gid hb => exact (rlcreate_replies _ _ _ _ _ _).mono hkind
  | rgetattr reqMask hb => exact (rgetattr_replies _ _ _).mono hkind
  | rsetattr valid stat hb => exact (rsetattr_replies _ _ _ _).mono hkind
  | rfsync hb => exact (rfsync_replies _ _).mono hkind
  | rmkdir name mode gid hb => exact (rmkdir_replies _ _ _ _ _).mono hkind
  | rrenameat oldname newname hb hc => exact (rrenameat_replies _ _ _ _ _ _).mono hkind
  | runlinkat name flags hb => exact (runlinkat_replies _ _ _ _).mono hkind
  | rattach fid afid uname aname nUname => exact (rattach_replies _ _ _ _ _ _ _).mono hkind
  | rwrite offset data hb => exact (rwrite_replies _ _ _ _).mono hkind
  | rclunk hb => exact (rclunk_replies _ _).mono hkind
  | rversion msize version => exact (rversion_replies msize version).mono hkind
  | unsupported => exact returns_throw _
  | rreadlink hb =>
    apply returns_bind_of_forall
    intro link
    exact (returns_pure _).mpr ⟨rfl, rfl⟩
  | rreaddir offset count hb =>
    apply returns_bind_of_forall
    intro x
    apply returns_bind_of_forall
    intro entries
    apply returns_bind_of_forall
    intro dirents
    exact (returns_pure _).mpr ⟨rfl, rfl⟩
  | rwalk newfid wnames hb =>
    apply returns_bind_of_forall
    intro path
    apply returns_bind_of_forall
    intro x
    apply returns_bind_of_forall
    intro _
    exact (returns_pure _).mpr ⟨rfl, rfl⟩
  | rread offset count hb =>
    apply returns_bind_of_forall
    intro buf
    exact (returns_pure _).mpr ⟨rfl, rfl⟩

theorem kinds_governs (realroot : PathBuf) : kinds.Governs (Unpfs realroot) where
  refused body e := ⟨.inl ⟨_, rfl⟩, rfl⟩
  routed := by
    intro Uses fids aux body handler _ hroute
    refine (Ensures.follows (returns_of_route hroute) fun _ _ => True.intro).mono ?_
    intro _ r hr
    cases r with
    | ok response => exact ⟨.inr (hr response rfl).1, (hr response rfl).2⟩
    | error e => exact ⟨.inl ⟨_, rfl⟩, rfl⟩

/-! What becomes of a request. -/

section
variable {Op : Type} {Res : Op → Type} {W : World Op Res} {fs : Filesystem Op Res} {s t : Conn W}
  {l : Label W} {ls : List (Label W)} {i : ℕ} {msg : Msg} {aux : ObjId}

/-- Exactly one reply was sent for the request, of its kind and with its tag. -/
def Replied (t : Conn W) (i : ℕ) (msg : Msg) : Prop :=
  ∃ response, (t.written.map Prod.fst).count i = 1 ∧ (i, ⟨msg.tag, response⟩) ∈ t.written ∧
    Answers msg.body response

/-- During the run the task of the request had a response that no frame holds. -/
def Unsendable (fs : Filesystem Op Res) (s : Conn W) (ls : List (Label W)) (i : ℕ) (msg : Msg) :
    Prop :=
  ∃ ms u response, ms <+: ls ∧ runs (step fs) s ms = some u ∧
    u.response i = some ⟨msg.tag, response⟩ ∧
    maxFrameLen < (wire (⟨msg.tag, response⟩ : Msg)).length

/-- A response is sent and its task is done, or the task panics over a frame that is too long. -/
theorem task_of_send {response : Fcall} (hstep : step fs s (.send i) = some t)
    (ht : s.tasks[i]? = some ⟨msg, aux, .replying response⟩) (hr : response.msgType.isR = true) :
    t.tasks[i]? = some ⟨msg, aux, .done⟩ ∧ t.written = s.written ++ [(i, ⟨msg.tag, response⟩)] ∨
      t.tasks[i]? = some ⟨msg, aux, .panicked⟩ ∧
        maxFrameLen < (wire (⟨msg.tag, response⟩ : Msg)).length := by
  simp only [step, ht, hr, if_true, writeMsg_vec, List.nil_append] at hstep
  split_ifs at hstep with hlen
  · cases hstep
    exact .inr ⟨Conn.setPhase_task_self rfl ht, hlen⟩
  · cases hstep
    exact .inl ⟨Conn.setPhase_task_self rfl ht, rfl⟩

theorem task_of_skip {response : Fcall} (hstep : step fs s (.send i) = some t)
    (ht : s.tasks[i]? = some ⟨msg, aux, .replying response⟩) (hr : response.msgType.isR = false) :
    t.tasks[i]? = some ⟨msg, aux, .done⟩ := by
  simp only [step, ht, hr] at hstep
  cases hstep
  exact Conn.setPhase_task_self rfl ht

theorem written_grows (hstep : step fs s l = some t) : s.written <+: t.written := by
  cases connStep_of_step hstep with
  | spawned | undecodable | hungUp | ticked => exact List.prefix_rfl
  | task i msg aux p q l u ht htask =>
    cases htask with
    | sent response hr hlen => exact List.prefix_append _ _
    | _ => exact List.prefix_rfl

/-- A task panics because its response is too long. -/
theorem unsendable_of_panicked (h : runs (step fs) s ls = some t) (hs : s.tasks = [])
    (ht : t.tasks[i]? = some ⟨msg, aux, .panicked⟩) : Unsendable fs s ls i msg := by
  induction ls using List.reverseRecOn generalizing t with
  | nil =>
    cases h
    rw [hs] at ht
    cases ht
  | append_singleton ls l ih =>
    obtain ⟨u, hu, hlast⟩ := runs_append_eq_some.mp h
    obtain ⟨v, hstep, hv⟩ := runs_cons_eq_some.mp hlast
    cases hv
    rcases ended_of_step hstep ht rfl with hold | ⟨rfl, response, hold⟩
    · obtain ⟨ms, v, response, hms, hv, hresponse, hlen⟩ := ih hu hold
      exact ⟨ms, v, response, hms.trans (List.prefix_append _ _), hv, hresponse, hlen⟩
    · cases hr : response.msgType.isR with
      | false =>
        rw [task_of_skip hstep hold hr] at ht
        cases ht
      | true =>
        rcases task_of_send hstep hold hr with ⟨hdone, -⟩ | ⟨-, hlen⟩
        · rw [hdone] at ht
          cases ht
        · have hresponse : u.response i = some ⟨msg.tag, response⟩ := by
            simp [Conn.response, hold, hr]
          exact ⟨ls, u, response, List.prefix_append _ _, hu, hresponse, hlen⟩

end

section
variable {W : World UnpfsOp UnpfsRes} {realroot : PathBuf} {s t : Conn W} {l : Label W}
  {ls : List (Label W)} {i : ℕ} {msg : Msg} {aux : ObjId}

/-- Replies are of the kinds of their requests, and a task that is done has sent one. -/
structure Conn.Reported (s : Conn W) : Prop where
  governed : ∃ st, s.Governed kinds st
  once : s.SentOnce
  done : ∀ (i : ℕ) (msg : Msg) (aux : ObjId), s.tasks[i]? = some ⟨msg, aux, .done⟩ →
    ∃ m, (i, m) ∈ s.written

theorem reported_step (hs : s.Reported) (hstep : step (Unpfs realroot) s l = some t) :
    t.Reported := by
  obtain ⟨st, hst⟩ := hs.governed
  obtain ⟨st', -, hst'⟩ := governed_step (kinds_governs realroot) hst hstep
  refine ⟨⟨st', hst'⟩, sentOnce_step s l t hs.once hstep, fun i msg aux ht => ?_⟩
  rcases ended_of_step hstep ht rfl with hold | ⟨rfl, response, hold⟩
  · obtain ⟨m, hm⟩ := hs.done i msg aux hold
    exact ⟨m, (written_grows hstep).subset hm⟩
  · obtain ⟨-, hr⟩ : Answers msg.body response ∧ response.msgType.isR = true :=
      hst.phase i msg aux _ hold
    rcases task_of_send hstep hold hr with ⟨-, hwritten⟩ | ⟨hpanicked, -⟩
    · refine ⟨⟨msg.tag, response⟩, ?_⟩
      rw [hwritten]
      exact List.mem_append_right _ (List.mem_singleton_self _)
    · rw [hpanicked] at ht
      cases ht

theorem reported_run {nextAux : ObjId} {world : W.State}
    (h : runs (step (Unpfs realroot)) (.start .new nextAux world) ls = some t) : t.Reported := by
  refine runs_invariant (I := Conn.Reported) (fun _ _ _ hs hstep => reported_step hs hstep) h ?_
  exact ⟨⟨_, governed_start nextAux world⟩, ⟨List.nodup_nil, fun _ hx => nomatch hx⟩,
    fun _ _ _ ht => nomatch ht⟩

/-- Once its task has ended, a request has its reply, unless that does not fit in a frame. -/
theorem replied_of_ended {nextAux : ObjId} {world : W.State} {p : Phase UnpfsOp UnpfsRes}
    (h : runs (step (Unpfs realroot)) (.start .new nextAux world) ls = some t)
    (ht : t.tasks[i]? = some ⟨msg, aux, p⟩) (hp : p.ended = true) :
    Replied t i msg ∨ Unsendable (Unpfs realroot) (.start .new nextAux world) ls i msg := by
  have hreported := reported_run h
  cases p with
  | panicked => exact .inr (unsendable_of_panicked h rfl ht)
  | done =>
    obtain ⟨m, hm⟩ := hreported.done i msg aux ht
    obtain ⟨msg', aux', hdone, htag⟩ := hreported.once.task (i, m) hm
    obtain ⟨st, hst⟩ := hreported.governed
    obtain ⟨msg'', aux'', p', hended, -, hanswers, -⟩ := hst.written i m hm
    dsimp only at hdone htag
    rw [ht] at hdone hended
    cases hdone
    cases hended
    have hmem : i ∈ t.written.map Prod.fst := List.mem_map.mpr ⟨_, hm, rfl⟩
    obtain ⟨tag, body⟩ := m
    subst htag
    exact .inl ⟨body, List.count_eq_one_of_mem hreported.once.nodup hmem, hm, hanswers⟩
  | _ => cases hp

end

section
variable {h : SharedHost} {realroot : PathBuf} {past : List (Label h.world)}

theorem requests_of_quiet {ls : List (Label h.world)} (hls : ∀ l ∈ ls, l.Quiet) :
    requests ls = [] := by
  unfold requests
  rw [List.filterMap_eq_nil_iff]
  intro l hl
  cases l with
  | recv frame => exact (hls _ hl).elim
  | _ => rfl

/-- What is left to do after a run. -/
def leftAfter (realroot : PathBuf) (start : Conn h.world) (past : List (Label h.world)) :
    Multiset (Phase UnpfsOp UnpfsRes) :=
  match runs (step (Unpfs realroot)) start past with
  | some s => s.phases
  | none => 0

theorem leftAfter_goesOn {start : Conn h.world} {admits : Scheduler h.world}
    {future : List (Label h.world)} (hgo : GoesOn realroot start admits past future) :
    Relation.CutExpand Phase.After (leftAfter realroot start future)
        (leftAfter realroot start past) ∧ requests future = requests past := by
  obtain ⟨quiet, l, i, rfl, hquiet, hl, -, hrun⟩ := hgo
  obtain ⟨t, ht⟩ := Option.isSome_iff_exists.mp hrun
  obtain ⟨u, hu, hlast⟩ := runs_append_eq_some.mp ht
  obtain ⟨v, hstep, hv⟩ := runs_cons_eq_some.mp hlast
  cases hv
  obtain ⟨s, hs, hsu⟩ := runs_append_eq_some.mp hu
  constructor
  · unfold leftAfter
    rw [ht, hs]
    have hphases : u.phases = s.phases := by
      unfold Conn.phases
      rw [tasks_of_quiet_run hquiet hsu]
    dsimp only
    rw [← hphases]
    exact phases_of_taskStep hl hstep
  · have hnone : requests [l] = [] := by
      cases l with
      | recv frame => cases hl
      | _ => rfl
    have hquiet' := requests_of_quiet hquiet
    unfold requests at hnone hquiet' ⊢
    rw [List.filterMap_append, List.filterMap_append, hnone, hquiet', List.append_nil,
      List.append_nil]

/-- The task waits to change the table. -/
def Phase.writes {Op : Type} {Res : Op → Type} : Phase Op Res → Bool
  | .clunking .. | .inserting .. => true
  | _ => false

/-- A lock of the table whose readers stand behind its writers. -/
def writersFirst (realroot : PathBuf) (start : Conn h.world) : Scheduler h.world :=
  fun past l => ∀ s, runs (step (Unpfs realroot)) start past = some s → ∀ i, l = .lookup i →
    ∀ task ∈ s.tasks, task.phase.writes = false

theorem writersFirst_serves (start : Conn h.world) :
    (writersFirst realroot start).Serves realroot start where
  ready past s l hr hstep hready := by
    intro t ht i hl
    subst hl
    rw [hr] at ht
    cases ht
    cases htask : s.tasks[i]? with
    | none => simp [step, htask] at hstep
    | some task =>
      obtain ⟨msg, aux, p⟩ := task
      cases p with
      | received => exact absurd (.lookup htask) (hready .table)
      | _ => simp [step, htask] at hstep
  lock past s k l hr hk hl := by
    have hother : ∀ l : Label h.world, (∀ i, l ≠ .lookup i) → writersFirst realroot start past l := by
      intro l hl t _ i hlookup
      exact absurd hlookup (hl i)
    by_cases hwriter : ∃ (j : ℕ) (msg : Msg) (aux : ObjId) (p : Phase UnpfsOp UnpfsRes),
        s.tasks[j]? = some ⟨msg, aux, p⟩ ∧ p.writes = true
    · obtain ⟨j, msg, aux, p, htask, hp⟩ := hwriter
      cases hl with
      | lookup | clunk | insert =>
        cases p with
        | clunking => exact ⟨_, .clunk htask, hother _ (by simp)⟩
        | inserting => exact ⟨_, .insert htask, hother _ (by simp)⟩
        | _ => cases hp
      | realpathRead ht => exact ⟨_, .realpathRead ht, hother _ (by simp)⟩
      | realpathWrite ht => exact ⟨_, .realpathWrite ht, hother _ (by simp)⟩
      | fileLock ht => exact ⟨_, .fileLock ht, hother _ (by simp)⟩
    · refine ⟨l, hl, fun t ht i hlookup task htask => ?_⟩
      rw [hr] at ht
      cases ht
      obtain ⟨j, hj⟩ := List.mem_iff_getElem?.mp htask
      obtain ⟨msg, aux, p⟩ := task
      rw [Bool.eq_false_iff]
      intro hp
      exact hwriter ⟨j, msg, aux, p, hj, hp⟩

end

/-- A walk from fid 1 has started when a `Tclunk` of it is handled. -/
def clunkWaits : List (Label (sharedDirs [srv]).world) :=
  walkInside ++ [.recv [120, 2, 0, 1, 0, 0, 0], .lookup 2, .finish 2]

end P9cpu.Ninep
