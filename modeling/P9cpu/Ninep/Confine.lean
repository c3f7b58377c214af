import P9cpu.Ninep.Conn
import P9cpu.Ninep.Footprint
import P9cpu.Ninep.Locks
import P9cpu.Ninep.Objects
import P9cpu.Ninep.Walk

/-! Which paths of the host a connection reaches: those below the exported directory, as long as
the names of the client do not lead out of it. -/
namespace P9cpu.Ninep
open Core Prog
open PathBuf (Below depth isAbsolute)

/-- What a `Treaddir` looks up by their own names, in the directory of the server. -/
def DOTS : List PathBuf := [.ofString ".", .ofString ".."]

/-- The names of a request never lead above `r` from the path `path`. -/
def Fcall.StaysBelow (r path : PathBuf) (body : Fcall) : Prop :=
  ∀ names ∈ body.appended, Stays (depth r path) names

variable {h : SharedHost}

/-- A handler that reads the path of a fid appends names to it that do not lead above `r`. -/
def NamesStay (r : PathBuf) (s : Conn h.world) (l : Label h.world) : Prop :=
  ∀ i msg aux newfid a k, l = .run i →
    s.tasks[i]? = some ⟨msg, aux, .handling newfid (.op (.realpathRead a) k)⟩ →
    msg.body.StaysBelow r (LockedObjs.realpath s.world a)

/-- The operations of a handler when the objects in `Reads` have paths below `r`. -/
def Allowed (r : PathBuf) (Reads : ObjId → Prop) : UnpfsOp → Prop
  | .realpathRead a => Reads a
  | .realpathWrite _ path => Below r path
  | .host o => ∀ path ∈ o.paths, Below r path ∨ path ∈ DOTS
  | _ => True

/-- The answers to the handler of a request. -/
def Answered (r : PathBuf) (body : Fcall) : (o : UnpfsOp) → UnpfsRes o → Prop
  | .realpathRead _, path => Below r path ∧ body.StaysBelow r path
  | _, _ => True

theorem Allowed.imp {r : PathBuf} {Reads Reads' : ObjId → Prop} (hr : ∀ a, Reads a → Reads' a)
    (o : UnpfsOp) (ho : Allowed r Reads o) : Allowed r Reads' o := by
  cases o with
  | realpathRead a => exact hr a ho
  | _ => exact ho

theorem footprint_below (r : PathBuf) (Reads : ObjId → Prop) (body : Fcall) :
    Footprint (Allowed r Reads) (Answered r body) Reads
      (fun path => Below r path ∧ body.StaysBelow r path) (Below r) where
  realpathRead _ ha := ha
  realpathUnread _ := True.intro
  fileLock _ := True.intro
  fileUnlock _ := True.intro
  realpath _ _ hpath := hpath
  good _ hpath := hpath.1
  host _ ho path hpath := .inl (ho path hpath)
  dots name hname path hpath := by
    obtain rfl : path = .ofString name := by simpa [HostOp.paths] using hpath
    refine .inr ?_
    unfold DOTS
    rcases List.mem_pair.mp hname with rfl | rfl
    · exact List.mem_cons_self
    · exact List.mem_cons_of_mem _ List.mem_cons_self

/-- Writes the path of an object. -/
def WritesPath (a : ObjId) (o : UnpfsOp) : Prop := ∃ path, o = .realpathWrite a path

/-- The handler of a request with a new fid writes its path before it succeeds. -/
theorem after_of_route {realroot : PathBuf} {fids : FidTable} {body : Fcall} {aux : ObjId}
    {handler : UnpfsHandler Fcall} {b : Fid} (hb : newFid body aux = some b)
    (hroute : route (Unpfs realroot) fids (newFid body aux) body = .ok handler) :
    handler.run.After (WritesPath b.aux) := by
  cases routed_of_route hroute with
  | rattach fid afid uname aname nUname =>
    cases hb
    exact .inl ⟨realroot, rfl⟩
  | rwalk newfid wnames hget =>
    cases hb
    unfold Unpfs.rwalk
    refine after_bind fun path => after_bind fun x => ?_
    exact .inl ⟨x.1, rfl⟩
  | unsupported => exact ⟨_, rfl⟩
  | _ => cases hb

theorem afterHandler_cases (Op : Type) (Res : Op → Type) (body : Fcall) (newfid : Option Fid)
    (response : Fcall) :
    (∃ fid, body = .tclunk fid ∧
      (afterHandler body newfid response : Phase Op Res) = .clunking fid newfid response) ∨
    (∃ b, newfid = some b ∧
      (afterHandler body newfid response : Phase Op Res) = .inserting b response) ∨
    newfid = none ∧ (afterHandler body newfid response : Phase Op Res) = .replying response := by
  by_cases hclunk : ∃ fid, body = .tclunk fid
  · obtain ⟨fid, rfl⟩ := hclunk
    exact .inl ⟨fid, rfl, rfl⟩
  · have hafter : (afterHandler body newfid response : Phase Op Res) =
        afterClunk newfid response := by
      unfold afterHandler
      split
      · exact absurd ⟨_, rfl⟩ hclunk
      · rfl
    rw [hafter]
    cases newfid with
    | none => exact .inr (.inr ⟨rfl, rfl⟩)
    | some b => exact .inr (.inl ⟨b, rfl, rfl⟩)

/-! The invariant. -/

/-- The object `a` has a path below `r`, and no request is still to make it. -/
structure Settled (r : PathBuf) (s : Conn h.world) (a : ObjId) : Prop where
  below : Below r (LockedObjs.realpath s.world a)
  lt : a < s.nextAux
  made : ∀ (i : ℕ) (msg : Msg), s.tasks[i]? ≠ some ⟨msg, a, .received⟩

/-- What holds of a task. -/
def Phase.Confined (r : PathBuf) (s : Conn h.world) (msg : Msg) (aux : ObjId) :
    Phase UnpfsOp UnpfsRes → Prop
  | .handling newfid p => newfid = newFid msg.body aux ∧
      p.Performs (Allowed r (Settled r s)) (Answered r msg.body) (fun _ => True) ∧
      ∀ b, newfid = some b → Below r (LockedObjs.realpath s.world aux) ∨ p.After (WritesPath aux)
  | .clunking _ newfid _ => newfid = none
  | .inserting newfid _ => newfid.aux = aux ∧ Below r (LockedObjs.realpath s.world aux)
  | _ => True

structure Conn.Confined (r : PathBuf) (s : Conn h.world) : Prop where
  nodup : (s.tasks.map Task.aux).Nodup
  lt : ∀ a ∈ s.tasks.map Task.aux, a < s.nextAux
  table : ∀ f b, s.fids.get f = some b → Settled r s b.aux
  phase : s.All (fun msg aux p => p.Confined r s msg aux)

section
variable {r : PathBuf} {s t u : Conn h.world} {i : ℕ} {msg : Msg} {aux : ObjId}
  {p q : Phase UnpfsOp UnpfsRes}

theorem Phase.Confined.mono (hp : p.Confined r s msg aux)
    (hsettled : ∀ a, Settled r s a → Settled r t a)
    (hbelow : p ≠ .received → Below r (LockedObjs.realpath s.world aux) →
      Below r (LockedObjs.realpath t.world aux)) : p.Confined r t msg aux := by
  cases p with
  | handling newfid p =>
    obtain ⟨hnew, hperf, hafter⟩ := hp
    refine ⟨hnew, hperf.imp (Allowed.imp hsettled), fun b hb => ?_⟩
    exact (hafter b hb).imp_left (hbelow (by simp))
  | inserting newfid response => exact ⟨hp.1, hbelow (by simp) hp.2⟩
  | clunking fid newfid response => exact hp
  | received => exact True.intro
  | replying response => exact True.intro
  | done => exact True.intro
  | panicked => exact True.intro

theorem Settled.toMade {a : ObjId} (h : Settled r s a) : Made s a := ⟨h.lt, h.made⟩

theorem Conn.Confined.fresh (hs : s.Confined r) : s.Fresh :=
  ⟨hs.nodup, hs.lt, fun f b hb => (hs.table f b hb).toMade⟩

theorem confined_spawn (hs : s.Confined r) (msg : Msg) : (s.spawn msg).Confined r := by
  have hfresh := fresh_spawn hs.fresh msg
  have hsettled : ∀ a, Settled r s a → Settled r (s.spawn msg) a := by
    intro a ha
    have hmade := ha.toMade.spawn msg
    exact ⟨ha.below, hmade.lt, hmade.made⟩
  refine ⟨hfresh.nodup, hfresh.lt, fun f b hb => hsettled _ (hs.table f b hb), ?_⟩
  have hphase : s.All (fun msg' aux p => p.Confined r (s.spawn msg) msg' aux) :=
    fun j m a p ht => (hs.phase j m a p ht).mono hsettled fun _ hb => hb
  exact hphase.spawn True.intro

/-- A task that goes on keeps the invariant: it makes its own object only, and what it adds to
the table is settled. -/
theorem confined_setPhase (hs : s.Confined r) (ht : s.tasks[i]? = some ⟨msg, aux, p⟩)
    (htasks : u.tasks = s.tasks) (hnext : u.nextAux = s.nextAux) (hreceived : q ≠ .received)
    (hbelow : ∀ a, a ≠ aux ∨ p ≠ .received → Below r (LockedObjs.realpath s.world a) →
      Below r (LockedObjs.realpath u.world a))
    (htable : ∀ f b, u.fids.get f = some b → s.fids.get f = some b ∨
      b.aux = aux ∧ Below r (LockedObjs.realpath u.world aux))
    (hq : (∀ a, Settled r s a → Settled r (u.setPhase i q) a) →
      q.Confined r (u.setPhase i q) msg aux) : (u.setPhase i q).Confined r := by
  have hfresh : (u.setPhase i q).Fresh := fresh_setPhase hs.fresh ht htasks hnext hreceived
    fun f b hb => (htable f b hb).imp_right And.left
  have hsettled : ∀ a, Settled r s a → Settled r (u.setPhase i q) a := by
    intro a ha
    have hmade : Made (u.setPhase i q) a := ha.toMade.setPhase htasks hnext hreceived
    refine ⟨hbelow a ?_ ha.below, hmade.lt, hmade.made⟩
    by_contra hnot
    obtain ⟨rfl, rfl⟩ : a = aux ∧ p = .received := by simpa [not_or] using hnot
    exact ha.made i msg ht
  refine ⟨hfresh.nodup, hfresh.lt, fun f b hb => ?_, fun j m a p' htj => ?_⟩
  · obtain hold | ⟨haux, hb'⟩ := htable f b hb
    · exact hsettled _ (hs.table f b hold)
    · have hmade := hfresh.table f b hb
      rw [← haux] at hb'
      exact ⟨hb', hmade.lt, hmade.made⟩
  · rcases Conn.task_setPhase htasks ht htj with ⟨rfl, rfl, rfl, rfl⟩ | ⟨hji, htj⟩
    · exact hq hsettled
    · refine (hs.phase j m a p' htj).mono hsettled fun _ => hbelow a (.inl ?_)
      rintro rfl
      exact hji (eq_of_aux hs.nodup htj ht)

/-- The handler of a routed request. -/
theorem performs_of_route {Reads : ObjId → Prop} (hr : isAbsolute r.bytes = true) {fids : FidTable}
    {handler : UnpfsHandler Fcall} (hread : ∀ f b, fids.get f = some b → Reads b.aux)
    (hroute : route (Unpfs r) fids (newFid msg.body aux) msg.body = .ok handler) :
    handler.run.Performs (Allowed r Reads) (Answered r msg.body) (fun _ => True) := by
  have hnames : ∀ names ∈ msg.body.appended,
      Appends (fun path => Below r path ∧ msg.body.StaysBelow r path) (Below r) names := by
    rintro names hmem path ⟨hpath, hstays⟩ k
    exact hpath.pushAll ((hstays names hmem).take k)
  have huses := (footprint_below r Reads msg.body).uses_route (PathBuf.below_self hr) hread hnames
    (fun _ _ => ⟨fun _ hpath => hpath, fun _ => True.intro⟩) hroute
  exact Performs.mono huses fun _ _ => True.intro

theorem below_of_exec {o : UnpfsOp} {x : UnpfsRes o} {w v : LockedObjs h.State}
    {Reads : ObjId → Prop} (hexec : h.lockedExec o w = some (x, v)) (ho : Allowed r Reads o)
    (a : ObjId) (ha : Below r (w.realpath a)) : Below r (v.realpath a) := by
  by_cases hw : WritesPath a o
  · obtain ⟨path, rfl⟩ := hw
    rw [SharedHost.realpath_of_write hexec]
    exact ho
  · rw [SharedHost.realpath_of_exec hexec fun path hpath => hw ⟨path, hpath⟩]
    exact ha

/-- A step that changes nothing but the phase of a task and what has been written. -/
theorem confined_goesOn (hs : s.Confined r) (ht : s.tasks[i]? = some ⟨msg, aux, p⟩)
    (htasks : u.tasks = s.tasks) (hnext : u.nextAux = s.nextAux) (hfids : u.fids = s.fids)
    (hworld : u.world = s.world) (hreceived : q ≠ .received)
    (hq : q.Confined r (u.setPhase i q) msg aux) : (u.setPhase i q).Confined r := by
  refine confined_setPhase hs ht htasks hnext hreceived (fun a _ ha => ?_) (fun f b hb => .inl ?_)
    fun _ => hq
  · rw [hworld]
    exact ha
  · rw [← hfids]
    exact hb

/-- The answer that the operation of a task gets. -/
theorem answered_of_ran {newfid : Option Fid} {o : UnpfsOp}
    {k : UnpfsRes o → Prog UnpfsOp UnpfsRes (Except Error Fcall)} {x : UnpfsRes o}
    {world : LockedObjs h.State} (hstay : NamesStay r s (.run i))
    (ht : s.tasks[i]? = some ⟨msg, aux, .handling newfid (.op o k)⟩)
    (ho : Allowed r (Settled r s) o) (hexec : h.lockedExec o s.world = some (x, world)) :
    Answered r msg.body o x := by
  cases o with
  | realpathRead a =>
    have hx : x = LockedObjs.realpath s.world a := SharedHost.eq_of_read hexec
    subst hx
    exact ⟨(show Settled r s a from ho).below, hstay i msg aux newfid a k rfl ht⟩
  | _ => exact True.intro

theorem confined_taskStep (hr : isAbsolute r.bytes = true) (hs : s.Confined r) {l : Label h.world}
    (hstay : NamesStay r s l) (ht : s.tasks[i]? = some ⟨msg, aux, p⟩)
    (hstep : TaskStep (Unpfs r) s i msg aux l p q u) : (u.setPhase i q).Confined r := by
  have hp : p.Confined r s msg aux := hs.phase i msg aux p ht
  have hcreate : ∀ a, a ≠ aux ∨ (Phase.received : Phase UnpfsOp UnpfsRes) ≠ .received →
      Below r (LockedObjs.realpath s.world a) → Below r (LockedObjs.realpath
        (if (newFid msg.body aux).isSome then h.world.create aux s.world else s.world) a) := by
    intro a ha hb
    have hne : a ≠ aux := ha.resolve_right fun hnot => hnot rfl
    cases (newFid msg.body aux).isSome with
    | true =>
      have hsame : LockedObjs.realpath (h.world.create aux s.world) a =
          LockedObjs.realpath s.world a := LockedObjs.realpath_set_of_ne s.world _ hne
      exact hsame ▸ hb
    | false => exact hb
  cases hstep with
  | routed handler hroute =>
    refine confined_setPhase hs ht rfl rfl (by simp) hcreate (fun f b hb => .inl hb) ?_
    intro hsettled
    refine ⟨rfl, performs_of_route hr ?_ hroute, fun b hb => .inr ?_⟩
    · exact fun f b hb => hsettled _ (hs.table f b hb)
    · exact aux_of_newFid hb ▸ after_of_route hb hroute
  | refused e hroute =>
    exact confined_setPhase hs ht rfl rfl (by simp) hcreate (fun f b hb => .inl hb)
      fun _ => True.intro
  | ran newfid o k x world hexec =>
    obtain ⟨hnew, ⟨ho, hk⟩, hafter⟩ := hp
    have hanswer : Answered r msg.body o x := answered_of_ran hstay ht ho hexec
    have hbelow := below_of_exec hexec ho
    refine confined_setPhase hs ht rfl rfl (by simp) (fun a _ => hbelow a)
      (fun f b hb => .inl hb) fun hsettled => ?_
    refine ⟨hnew, (hk x hanswer).imp (Allowed.imp hsettled), fun b hb => ?_⟩
    obtain hb | hwrites | hafter := hafter b hb
    · exact .inl (hbelow aux hb)
    · obtain ⟨path, rfl⟩ := hwrites
      refine .inl ?_
      have hpath : LockedObjs.realpath world aux = path := SharedHost.realpath_of_write hexec
      exact hpath.symm ▸ ho
    · exact .inr (hafter x)
  | failed newfid e =>
    exact confined_goesOn hs ht rfl rfl rfl rfl (by simp [rlerrorOf]) True.intro
  | handled newfid response =>
    obtain ⟨rfl, -, hafter⟩ := hp
    obtain ⟨fid, hbody, hq⟩ | ⟨b, hb, hq⟩ | ⟨-, hq⟩ := afterHandler_cases UnpfsOp UnpfsRes
      msg.body (newFid msg.body aux) response
    all_goals rw [hq]
    · refine confined_goesOn hs ht rfl rfl rfl rfl (by simp) ?_
      show newFid msg.body aux = none
      rw [hbody]
      rfl
    · refine confined_goesOn hs ht rfl rfl rfl rfl (by simp) ⟨aux_of_newFid hb, ?_⟩
      refine (hafter b hb).resolve_right ?_
      rintro ⟨e, he⟩
      cases he
    · exact confined_goesOn hs ht rfl rfl rfl rfl (by simp) True.intro
  | clunked fid newfid response hu =>
    obtain rfl : newfid = none := hp
    refine confined_setPhase hs ht rfl rfl (by simp [afterClunk]) (fun _ _ hb => hb) ?_
      fun _ => True.intro
    intro f b hb
    rw [FidTable.get_remove] at hb
    split_ifs at hb
    exact .inl hb
  | inserted newfid response hu =>
    obtain ⟨haux, hb⟩ := hp
    refine confined_setPhase hs ht rfl rfl (by simp) (fun _ _ hb => hb) ?_ fun _ => True.intro
    intro f b hget
    rw [FidTable.get_insert] at hget
    split_ifs at hget
    · cases hget
      exact .inr ⟨haux, hb⟩
    · exact .inl hget
  | skipped response hr =>
    exact confined_goesOn hs ht rfl rfl rfl rfl (by simp) True.intro
  | sent response hr hlen =>
    exact confined_goesOn hs ht rfl rfl rfl rfl (by simp) True.intro
  | tooLong response hr hlen =>
    exact confined_goesOn hs ht rfl rfl rfl rfl (by simp) True.intro

theorem confined_step (hr : isAbsolute r.bytes = true) (s : Conn h.world) (l : Label h.world)
    (t : Conn h.world) (hs : s.Confined r) (hstay : NamesStay r s l)
    (hstep : step (Unpfs r) s l = some t) : t.Confined r := by
  -- what only changes the reading end or the host
  have hsame : ∀ u : Conn h.world, u.tasks = s.tasks → u.fids = s.fids → u.nextAux = s.nextAux →
      (∀ a, LockedObjs.realpath u.world a = LockedObjs.realpath s.world a) → u.Confined r := by
    intro u htasks hfids hnext hpath
    have hsettled : ∀ a, Settled r s a → Settled r u a := fun a ha =>
      ⟨(hpath a).symm ▸ ha.below, hnext.symm ▸ ha.lt, htasks.symm ▸ ha.made⟩
    refine ⟨htasks.symm ▸ hs.nodup, ?_, ?_, ?_⟩
    · rw [htasks, hnext]
      exact hs.lt
    · intro f b hb
      exact hsettled _ (hs.table f b (hfids ▸ hb))
    · intro j m a p ht
      rw [htasks] at ht
      exact (hs.phase j m a p ht).mono hsettled fun _ hb => (hpath a).symm ▸ hb
  cases connStep_of_step hstep with
  | spawned frame msg rest hread hm => exact confined_spawn hs msg
  | undecodable frame e hm => exact hsame _ rfl rfl rfl fun _ => rfl
  | hungUp => exact hsame _ rfl rfl rfl fun _ => rfl
  | ticked e world hw =>
    obtain ⟨host, -, rfl⟩ := Option.map_eq_some_iff.mp hw
    exact hsame _ rfl rfl rfl fun _ => rfl
  | task i msg aux p q l u ht htask => exact confined_taskStep hr hs hstay ht htask

theorem confined_start (r : PathBuf) (nextAux : ObjId) (world : LockedObjs h.State) :
    (Conn.start (W := h.world) .new nextAux world).Confined r := by
  refine ⟨List.nodup_nil, by simp [Conn.start], ?_, ?_⟩
  · intro f b hb
    cases hb
  · intro i msg aux p ht
    simp [Conn.start] at ht

theorem confined_run (hr : isAbsolute r.bytes = true) {nextAux : ObjId}
    {world : LockedObjs h.State} {ls : List (Label h.world)}
    (hrun : runs (step (Unpfs r)) (.start .new nextAux world) ls = some s)
    (hstay : Along (step (Unpfs r)) (NamesStay r) (.start .new nextAux world) ls) :
    s.Confined r :=
  runs_invariant_along (confined_step hr) hstay hrun (confined_start r nextAux world)

/-- When no handler appends names that lead above `r` from the path of its fid, every call to the
host is about paths at `r` or below it, besides the `.` and `..` of a listing. -/
theorem paths_confined (hr : isAbsolute r.bytes = true) {nextAux : ObjId}
    {world : LockedObjs h.State} {ls : List (Label h.world)}
    (hrun : runs (step (Unpfs r)) (.start .new nextAux world) ls = some s)
    (hstay : Along (step (Unpfs r)) (NamesStay r) (.start .new nextAux world) ls)
    {newfid : Option Fid} {o : HostOp} {k : UnpfsRes (.host o) → UnpfsProg (Except Error Fcall)}
    (ht : s.tasks[i]? = some ⟨msg, aux, .handling newfid (.op (.host o) k)⟩) :
    ∀ path ∈ o.paths, Below r path ∨ path ∈ DOTS := by
  have hs : s.Confined r := confined_run hr hrun hstay
  obtain ⟨-, hperf, -⟩ := hs.phase i msg aux _ ht
  exact hperf.1

/-- Names that never lead above the directory they are appended to need no look at the fids. -/
theorem namesStay_of_request {ls : List (Label h.world)}
    (hnames : ∀ msg ∈ requests ls, ∀ names ∈ msg.body.appended, Stays 0 names)
    {nextAux : ObjId} {world : LockedObjs h.State} :
    Along (step (Unpfs r)) (NamesStay r) (.start .new nextAux world) ls := by
  refine along_of_prefix fun ms l ns t hls ht => ?_
  intro i msg aux newfid a k _ htask names hmem
  have hmsgs : t.tasks.map Task.msg = requests ms := by
    simpa [Conn.start] using map_msg_of_run ht
  have hmsg : msg ∈ requests ls := by
    have hin : msg ∈ requests ms := by
      rw [← hmsgs]
      exact List.mem_map.mpr ⟨_, List.mem_of_getElem? htask, rfl⟩
    obtain ⟨l', hl', hl'r⟩ := List.mem_filterMap.mp hin
    exact List.mem_filterMap.mpr ⟨l', by simp [hls, hl'], hl'r⟩
  exact (hnames msg hmsg names hmem).mono (Nat.zero_le _)

end

/-- The directories `dirs`, of which nothing else is known. -/
def sharedDirs (dirs : List PathBuf) : SharedHost where
  State := Unit
  Event := Empty
  exec o s := some ((dirHost dirs).exec o s)
  tick e _ := nomatch e

def srv : PathBuf := .ofString "/srv"

/-- `Tattach` of fid 1, and what follows up to its reply. -/
def attachSrv : List (Label (sharedDirs [srv]).world) :=
  [.recv [104, 1, 0, 1, 0, 0, 0, 255, 255, 255, 255, 0, 0, 0, 0, 0, 0, 0, 0], .lookup 0, .run 0,
    .run 0, .finish 0, .insert 0, .send 0]

/-- `Twalk` from fid 1 to fid 2 by `a` and `..`, up to the first lookup. -/
def walkInside : List (Label (sharedDirs [srv]).world) :=
  attachSrv ++ [.recv [110, 1, 0, 1, 0, 0, 0, 2, 0, 0, 0, 2, 0, 1, 0, 97, 2, 0, 46, 46], .lookup 1,
    .run 1, .run 1]

/-- `Twalk` from fid 1 to fid 2 by `..` and `etc`, up to the first lookup. -/
def walkOutside : List (Label (sharedDirs [srv]).world) :=
  attachSrv ++ [.recv [110, 1, 0, 1, 0, 0, 0, 2, 0, 0, 0, 2, 0, 2, 0, 46, 46, 3, 0, 101, 116, 99],
    .lookup 1, .run 1, .run 1]

def srvStart : Conn (sharedDirs [srv]).world := .start .new 0 ⟨fun _ => LockedFid.default, ()⟩

theorem paths_confined_walkInside :
    (runs (step (Unpfs srv)) srvStart walkInside).isSome = true ∧
      ∀ path ∈ (HostOp.symlinkMetadata (.ofString "/srv/a")).paths,
        Below srv path ∨ path ∈ DOTS := by
  have hrun : (runs (step (Unpfs srv)) srvStart walkInside).isSome = true := rfl
  have hreq : requests walkInside =
      [⟨1, .tattach 1 NOFID "" "" 0⟩, ⟨1, .twalk 1 2 ["a", ".."]⟩] := rfl
  have hnames : ∀ msg ∈ requests walkInside, ∀ names ∈ msg.body.appended, Stays 0 names := by
    rw [hreq]
    decide
  have hget := (Option.some_get hrun).symm
  exact ⟨hrun, paths_confined (i := 1) rfl hget (namesStay_of_request hnames) rfl⟩

/-- `..` leads from `/srv` to the root of the host. -/
theorem not_paths_confined : ¬ ∀ (h : SharedHost) (r : PathBuf) (nextAux : ObjId)
    (world : LockedObjs h.State) (ls : List (Label h.world)) (s : Conn h.world) (i : ℕ) (msg : Msg)
    (aux : ObjId) (newfid : Option Fid) (o : HostOp)
    (k : UnpfsRes (.host o) → UnpfsProg (Except Error Fcall)),
    isAbsolute r.bytes = true → runs (step (Unpfs r)) (.start .new nextAux world) ls = some s →
    s.tasks[i]? = some ⟨msg, aux, .handling newfid (.op (.host o) k)⟩ →
    ∀ path ∈ o.paths, Below r path ∨ path ∈ DOTS := by
  intro hclaim
  have hrun : (runs (step (Unpfs srv)) srvStart walkOutside).isSome = true := rfl
  have hbelow := hclaim (sharedDirs [srv]) srv 0 ⟨fun _ => LockedFid.default, ()⟩ walkOutside
    ((runs (step (Unpfs srv)) srvStart walkOutside).get hrun) 1 _ _ _
    (.symlinkMetadata (.ofString "/srv/..")) _ rfl (Option.some_get hrun).symm rfl
  have hout := hbelow (.ofString "/srv/..") (List.mem_singleton_self _)
  exact absurd hout (by decide)

end P9cpu.Ninep
