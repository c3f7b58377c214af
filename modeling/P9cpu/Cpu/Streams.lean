import P9cpu.Cpu.Sessions

/-! Where the output of a child is on its way to the client: in its pipe, with the copy task,
in the channel, on the gRPC stream. -/
namespace P9cpu.Cpu
open Core

variable {I : Type} {s t u : Server I} {k : ℕ}

namespace Server

def copyAt (s : Server I) (j : ℕ) : Option Copy :=
  match s.tasks[j]? with
  | some (.copy t _) => some t
  | _ => none

def pipeOf (s : Server I) (c : ℕ) (out : Output) : Option Pipe :=
  (s.children[c]?).map (fun child => child.pipe out)

/-- The receiver of the channel of a task was dropped. -/
def rxClosed (s : Server I) (j : ℕ) : Prop :=
  ∃ t, s.tasks[j]? = some (.copy t false)

end Server

/-- What the task has read and not put in its channel. -/
def Copy.held (t : Copy) : List UInt8 :=
  match t.phase with
  | .sending buf => buf
  | _ => []

/-- Everything the task has read, in order. -/
def Copy.carried (t : Copy) : List UInt8 :=
  t.taken.flatten ++ t.wire.flatten ++ t.queue.flatten ++ t.held

/-- The task alone reads its pipe. -/
def Server.Alone (s : Server I) (j : ℕ) (t : Copy) : Prop :=
  ∀ j' t', s.copyAt j' = some t' → t'.out = t.out → t'.child = t.child → j' = j

structure Streams (s : Server I) : Prop where
  /-- a call that has the stream of an output spawned its task -/
  streamed : ∀ (k : ℕ) (call : Call I) (j : ℕ), s.calls[k]? = some call →
    call.phase.streams = some j → (∃ t, s.copyAt j = some t ∧ t.call = k) ∨
      j < s.tasks.length ∧ s.copyAt j = none ∧ ∀ out sid, call.request ≠ .output out sid
  /-- a task was spawned for the session that its call named -/
  spawned : ∀ (j : ℕ) (t : Copy), s.copyAt j = some t → ∃ sid p,
    s.calls[t.call]? = some ⟨.output t.out sid, p⟩ ∧ p ≠ .called ∧ s.sidOf t.child = some sid
  once : ∀ (i j : ℕ) (a b : Copy), s.copyAt i = some a → s.copyAt j = some b →
    a.call = b.call → i = j
  untouched : ∀ (c : ℕ) (out : Output) (p : Pipe), s.pipeOf c out = some p →
    (∀ j t, s.copyAt j = some t → t.out = out → t.child ≠ c) → p.data = p.written
  /-- what was read is what was written, less what is still in the pipe -/
  conserved : ∀ (j : ℕ) (t : Copy) (p : Pipe), s.copyAt j = some t →
    (∀ e, t.phase ≠ .done (.error e)) → s.pipeOf t.child t.out = some p → s.Alone j t →
      t.carried ++ p.data = p.written
  /-- a task for stdout ends well only at the end of the pipe -/
  atEof : ∀ (j : ℕ) (t : Copy) (p : Pipe), s.copyAt j = some t → t.out = .stdout →
    t.phase = .done (.ok ()) → s.pipeOf t.child .stdout = some p →
      p.data = [] ∧ p.writers = false

theorem Streams.call_eq {call : Call I} {j : ℕ} {t : Copy} (h : Streams s)
    (hcall : s.calls[k]? = some call) (hj : call.phase.streams = some j)
    (ht : s.copyAt j = some t) : t.call = k := by
  rcases h.streamed k call j hcall hj with ⟨a, ha, hk⟩ | ⟨-, hnone, -⟩
  · rw [ht] at ha
    cases ha
    exact hk
  · simp [ht] at hnone

theorem pipeOf_modifyChild {c : ℕ} {f : Child I → Child I}
    (h : ∀ child out, (f child).pipe out = child.pipe out) :
    (s.modifyChild c f).pipeOf = s.pipeOf := by
  funext d out
  simp only [Server.pipeOf, Server.modifyChild, List.getElem?_modify]
  cases s.children[d]? with
  | none => rfl
  | some child =>
    by_cases hcd : c = d
    · simp [hcd, h]
    · simp [hcd]

theorem pipeOf_closeListener (s : Server I) (k : ℕ) : (s.closeListener k).pipeOf = s.pipeOf := by
  funext c out
  simp only [Server.pipeOf, Server.closeListener, List.getElem?_map]
  cases s.children[c]? with
  | none => rfl
  | some child =>
    simp only [Option.map_some]
    split <;> cases out <;> rfl

theorem pipeOf_setLink (s : Server I) (c : ℕ) (link : Link) :
    (s.setLink c link).pipeOf = s.pipeOf :=
  pipeOf_modifyChild fun _ out => by cases out <;> rfl

theorem pipeOf_release (s : Server I) (k : ℕ) (p : Phase) : (s.release k p).pipeOf = s.pipeOf := by
  cases p with
  | launching l => exact pipeOf_closeListener s k
  | accepting l c => exact pipeOf_closeListener s k
  | sending l c peer n => exact (pipeOf_closeListener _ k).trans (pipeOf_setLink s peer .closed)
  | _ => rfl

theorem copyAt_closeRx (s : Server I) (j : ℕ) : (s.closeRx j).copyAt = s.copyAt := by
  funext i
  simp only [Server.copyAt, Server.closeRx, List.getElem?_modify]
  by_cases hij : j = i
  · subst hij
    cases s.tasks[j]? with
    | none => simp
    | some task => cases task <;> simp [Task.closeRx]
  · simp [hij]

theorem copyAt_release (s : Server I) (k : ℕ) (p : Phase) : (s.release k p).copyAt = s.copyAt := by
  cases p with
  | opened j => exact copyAt_closeRx s j
  | pushing c j => exact copyAt_closeRx s j
  | _ => rfl

theorem length_tasks_release (s : Server I) (k : ℕ) (p : Phase) :
    (s.release k p).tasks.length = s.tasks.length := by
  cases p <;> simp [Server.release, Server.closeRx, Server.closeListener, Server.setLink,
    Server.modifyChild]

theorem copyAt_append (s : Server I) (task : Task) (j : ℕ) :
    ({ s with tasks := s.tasks ++ [task] } : Server I).copyAt j =
      if j = s.tasks.length then
        (match task with | .copy t _ => some t | .forward _ => none)
      else s.copyAt j := by
  simp only [Server.copyAt, List.getElem?_append]
  by_cases hj : j = s.tasks.length
  · subst hj
    simp only [Nat.lt_irrefl, if_false, Nat.sub_self, List.getElem?_cons_zero, if_true]
    cases task <;> rfl
  · simp only [hj, if_false]
    split_ifs with hlt
    · rfl
    · have hnone : s.tasks[j]? = none := List.getElem?_eq_none (by omega)
      have hnone' : [task][j - s.tasks.length]? = none :=
        List.getElem?_eq_none (by simp only [List.length_singleton]; omega)
      rw [hnone, hnone']

/-- A call moves on; sessions, tasks and pipes stay. A stream it has now is one it had, or not
that of a copy task. -/
theorem Streams.moved {request : Request I} {p q : Phase} (h : Streams s)
    (hcall : s.calls[k]? = some ⟨request, p⟩) (hu : u.calls = s.calls) (hq : q ≠ .called)
    (hsid : u.sidOf = s.sidOf) (hcopy : u.copyAt = s.copyAt) (hpipe : u.pipeOf = s.pipeOf)
    (hlen : s.tasks.length ≤ u.tasks.length)
    (hstreams : ∀ j, q.streams = some j → p.streams = some j ∨
      j < u.tasks.length ∧ s.copyAt j = none ∧ ∀ out sid, request ≠ .output out sid) :
    Streams (u.setPhase k q) where
  streamed i call j hi hj := by
    rw [calls_moved hcall hu] at hi
    change (∃ t, u.copyAt j = some t ∧ _) ∨ j < u.tasks.length ∧ u.copyAt j = none ∧ _
    rw [hcopy]
    split_ifs at hi with hik
    · cases hi
      subst hik
      rcases hstreams j hj with hp | hnew
      · rcases h.streamed i ⟨request, p⟩ j hcall hp with hold | ⟨hlt, hnone, hr⟩
        · exact .inl hold
        · exact .inr ⟨Nat.lt_of_lt_of_le hlt hlen, hnone, hr⟩
      · exact .inr hnew
    · rcases h.streamed i call j hi hj with hold | ⟨hlt, hnone, hr⟩
      · exact .inl hold
      · exact .inr ⟨Nat.lt_of_lt_of_le hlt hlen, hnone, hr⟩
  spawned j t ht := by
    change u.copyAt j = some t at ht
    rw [hcopy] at ht
    obtain ⟨sid, p', hp, hcalled, hs⟩ := h.spawned j t ht
    by_cases hk : t.call = k
    · rw [hk, hcall] at hp
      cases hp
      refine ⟨sid, q, ?_, hq, (congrFun hsid _).trans hs⟩
      rw [calls_moved hcall hu, if_pos hk]
    · refine ⟨sid, p', ?_, hcalled, (congrFun hsid _).trans hs⟩
      rw [calls_moved hcall hu, if_neg hk, hp]
  once := by
    change ∀ i j a b, u.copyAt i = some a → u.copyAt j = some b → _
    rw [hcopy]
    exact h.once
  untouched := by
    change ∀ c out p, u.pipeOf c out = some p → (∀ j t, u.copyAt j = some t → _) → _
    rw [hcopy, hpipe]
    exact h.untouched
  conserved j t p ht hphase hp halone := by
    change u.copyAt j = some t at ht
    change u.pipeOf t.child t.out = some p at hp
    rw [hcopy] at ht
    rw [hpipe] at hp
    refine h.conserved j t p ht hphase hp fun j' t' ht' => halone j' t' ?_
    change u.copyAt j' = some t'
    rw [hcopy, ht']
  atEof := by
    change ∀ j t p, u.copyAt j = some t → _ → _ → u.pipeOf t.child .stdout = some p → _
    rw [hcopy, hpipe]
    exact h.atEof

theorem Streams.of_sidOf (h : Streams s) (hcalls : u.calls = s.calls) (hcopy : u.copyAt = s.copyAt)
    (hpipe : u.pipeOf = s.pipeOf) (hlen : u.tasks.length = s.tasks.length)
    (hsid : ∀ c sid, s.sidOf c = some sid → u.sidOf c = some sid) : Streams u where
  streamed := by
    rw [hcalls, hcopy, hlen]
    exact h.streamed
  spawned j t ht := by
    rw [hcopy] at ht
    rw [hcalls]
    obtain ⟨sid, p, hp, hcalled, hs⟩ := h.spawned j t ht
    exact ⟨sid, p, hp, hcalled, hsid _ _ hs⟩
  once := by
    rw [hcopy]
    exact h.once
  untouched := by
    rw [hcopy, hpipe]
    exact h.untouched
  conserved j t p ht hphase hp halone := by
    rw [hcopy] at ht
    rw [hpipe] at hp
    exact h.conserved j t p ht hphase hp fun j' t' ht' => halone j' t' (by rw [hcopy, ht'])
  atEof := by
    rw [hcopy, hpipe]
    exact h.atEof

theorem lt_of_sidOf {c : ℕ} {sid : I} (h : s.sidOf c = some sid) : c < s.children.length := by
  by_contra hlt
  have hnone : s.children[c]? = none := List.getElem?_eq_none (by omega)
  simp [Server.sidOf, hnone] at h

theorem Streams.childSpawned (h : Streams s) (l : Launch) :
    Streams (s.spawnChild l) := by
  have hold : ∀ c out, c < s.children.length →
      (s.spawnChild l).pipeOf c out = s.pipeOf c out := by
    intro c out hc
    simp [Server.pipeOf, Server.spawnChild, List.getElem?_append_left hc]
  have hnew : ∀ c out p, (s.spawnChild l).pipeOf c out = some p →
      s.pipeOf c out = some p ∨ p.data = p.written := by
    intro c out p hp
    by_cases hc : c < s.children.length
    · exact .inl (hold c out hc ▸ hp)
    · simp only [Server.pipeOf, Server.spawnChild,
        List.getElem?_append_right (Nat.le_of_not_lt hc), Option.map_eq_some_iff] at hp
      obtain ⟨child, hchild, rfl⟩ := hp
      have hmem := List.mem_of_getElem? hchild
      rw [List.mem_singleton] at hmem
      right
      rw [hmem]
      cases out <;> rfl
  have hsid : (s.spawnChild l).sidOf = s.sidOf := Server.sidOf_spawnChild s l
  have hchild : ∀ j t, s.copyAt j = some t → t.child < s.children.length := by
    intro j t ht
    obtain ⟨sid, -, -, -, hs⟩ := h.spawned j t ht
    exact lt_of_sidOf hs
  refine ⟨h.streamed, ?_, h.once, ?_, ?_, ?_⟩
  · rw [hsid]
    exact h.spawned
  · intro c out p hp hno
    rcases hnew c out p hp with hp | hp
    · exact h.untouched c out p hp hno
    · exact hp
  · intro j t p ht hphase hp halone
    rw [hold _ _ (hchild j t ht)] at hp
    exact h.conserved j t p ht hphase hp halone
  · intro j t p ht hout hphase hp
    rw [hold _ _ (hchild j t ht)] at hp
    exact h.atEof j t p ht hout hphase hp

/-- The pipes are written to and closed by the children. -/
theorem Streams.printed (h : Streams s) (hcalls : u.calls = s.calls) (htasks : u.tasks = s.tasks)
    (hsid : u.sidOf = s.sidOf)
    (hpipe : ∀ c out p', u.pipeOf c out = some p' → ∃ p buf, s.pipeOf c out = some p ∧
      p'.data = p.data ++ buf ∧ p'.written = p.written ++ buf ∧
      (p.writers = false → buf = [] ∧ p'.writers = false)) : Streams u := by
  have hcopy : u.copyAt = s.copyAt := by
    funext j
    simp only [Server.copyAt, htasks]
  constructor
  case streamed =>
    rw [hcalls, hcopy, htasks]
    exact h.streamed
  case spawned =>
    rw [hcalls, hcopy, hsid]
    exact h.spawned
  case once =>
    rw [hcopy]
    exact h.once
  case untouched =>
    rw [hcopy]
    intro c out p' hp' hno
    obtain ⟨p, buf, hp, hdata, hwritten, -⟩ := hpipe c out p' hp'
    rw [hdata, hwritten, h.untouched c out p hp hno]
  case conserved =>
    rw [hcopy]
    intro j t p' ht hphase hp' halone
    obtain ⟨p, buf, hp, hdata, hwritten, -⟩ := hpipe _ _ p' hp'
    have halone' : s.Alone j t := fun j' t' ht' => halone j' t' (by rw [hcopy, ht'])
    rw [hdata, hwritten, ← List.append_assoc, h.conserved j t p ht hphase hp halone']
  case atEof =>
    rw [hcopy]
    intro j t p' ht hout hphase hp'
    obtain ⟨p, buf, hp, hdata, -, hwriters⟩ := hpipe _ _ p' hp'
    obtain ⟨hempty, hclosed⟩ := h.atEof j t p ht hout hphase hp
    obtain ⟨hbuf, hclosed'⟩ := hwriters hclosed
    exact ⟨by rw [hdata, hempty, hbuf]; rfl, hclosed'⟩

variable [DecidableEq I]

theorem Streams.sessionInserted {sid : I} {cmd : Cmd} {l : Launch} {c peer : ℕ} (h : Streams s)
    (howned : Owned s)
    (hcall : s.calls[k]? = some ⟨.start sid cmd, .sending l c peer .shutdown⟩) :
    Streams (s.insertSession k sid l c peer) := by
  have hc := howned.owned k _ c hcall rfl
  have hsid : (s.insertSession k sid l c peer).sidOf = Function.update s.sidOf c (some sid) :=
    sidOf_insertSession hc.1
  have hclosed : ((s.setLink peer (.delivered l.cmd)).closeListener k).pipeOf = s.pipeOf :=
    (pipeOf_closeListener _ k).trans (pipeOf_setLink s peer _)
  have hpipe : (s.insertSession k sid l c peer).pipeOf = s.pipeOf :=
    (pipeOf_modifyChild fun _ out => by cases out <;> rfl).trans hclosed
  refine h.of_sidOf rfl rfl hpipe rfl fun d sid' hd => ?_
  have hdc : d ≠ c := by
    rintro rfl
    simp [hc.2] at hd
  rw [hsid, Function.update_of_ne hdc, hd]

omit [DecidableEq I] in
theorem copyAt_spawnCopy (s : Server I) (k : ℕ) (out : Output) (c j : ℕ) :
    (s.spawnCopy k out c).copyAt j =
      if j = s.tasks.length then some ⟨out, c, k, .locking, [], [], []⟩ else s.copyAt j :=
  copyAt_append s _ j

omit [DecidableEq I] in
theorem Streams.opened {out : Output} {sid : I} {c : ℕ} (h : Streams s) (howned : Owned s)
    (hcall : s.calls[k]? = some ⟨.output out sid, .called⟩) (hc : s.sessions sid = some c) :
    Streams ((s.spawnCopy k out c).setPhase k (.opened s.tasks.length)) := by
  have hcalls := calls_moved (q := .opened s.tasks.length) hcall (u := s.spawnCopy k out c) rfl
  -- `k` was only called, so no task is its own yet
  have hnot : ∀ j t, s.copyAt j = some t → t.call ≠ k := by
    intro j t ht hk
    obtain ⟨sid', p, hp, hcalled, -⟩ := h.spawned j t ht
    rw [hk, hcall] at hp
    cases hp
    exact hcalled rfl
  have hlt : ∀ j t, s.copyAt j = some t → j ≠ s.tasks.length := by
    rintro j t ht rfl
    simp [Server.copyAt] at ht
  have hkeep : ∀ j t, s.copyAt j = some t → (s.spawnCopy k out c).copyAt j = some t := by
    intro j t ht
    rw [copyAt_spawnCopy, if_neg (hlt j t ht), ht]
  have hcases : ∀ j t, (s.spawnCopy k out c).copyAt j = some t → s.copyAt j = some t ∨
      j = s.tasks.length ∧ t = ⟨out, c, k, .locking, [], [], []⟩ := by
    intro j t ht
    rw [copyAt_spawnCopy] at ht
    split_ifs at ht with hj
    · exact .inr ⟨hj, (Option.some.inj ht).symm⟩
    · exact .inl ht
  have hlen : (s.spawnCopy k out c).tasks.length = s.tasks.length + 1 := by
    simp [Server.spawnCopy]
  constructor
  case streamed =>
    intro i call j hi hj
    rw [hcalls] at hi
    change (∃ t, (s.spawnCopy k out c).copyAt j = some t ∧ _) ∨
      j < (s.spawnCopy k out c).tasks.length ∧ (s.spawnCopy k out c).copyAt j = none ∧ _
    split_ifs at hi with hik
    · cases hi
      obtain rfl := Option.some.inj hj
      exact .inl ⟨_, by rw [copyAt_spawnCopy, if_pos rfl], hik.symm⟩
    · rcases h.streamed i call j hi hj with ⟨t, ht, hk⟩ | ⟨hj', hnone, hr⟩
      · exact .inl ⟨t, hkeep j t ht, hk⟩
      · refine .inr ⟨by omega, ?_, hr⟩
        rw [copyAt_spawnCopy, if_neg (Nat.ne_of_lt hj'), hnone]
  case spawned =>
    intro j t ht
    rcases hcases j t ht with hold | ⟨rfl, rfl⟩
    · obtain ⟨sid', p, hp, hcalled, hs⟩ := h.spawned j t hold
      refine ⟨sid', p, ?_, hcalled, hs⟩
      rw [hcalls, if_neg (hnot j t hold), hp]
    · exact ⟨sid, _, by rw [hcalls, if_pos rfl], by simp, howned.mapped sid c hc⟩
  case once =>
    intro i j a b ha hb hab
    rcases hcases i a ha with ha | ⟨rfl, rfl⟩
    · rcases hcases j b hb with hb | ⟨rfl, rfl⟩
      · exact h.once i j a b ha hb hab
      · exact absurd hab (hnot i a ha)
    · rcases hcases j b hb with hb | ⟨rfl, rfl⟩
      · exact absurd hab.symm (hnot j b hb)
      · rfl
  case untouched =>
    intro d out' p hp hno
    exact h.untouched d out' p hp fun j t ht => hno j t (hkeep j t ht)
  case conserved =>
    intro j t p ht hphase hp halone
    rcases hcases j t ht with hold | ⟨rfl, rfl⟩
    · exact h.conserved j t p hold hphase hp fun j' t' ht' => halone j' t' (hkeep j' t' ht')
    · refine h.untouched c out p hp fun j' t' ht' hout hchild => ?_
      exact hlt j' t' ht' (halone j' t' (hkeep j' t' ht') hout hchild)
  case atEof =>
    intro j t p ht hout hphase hp
    rcases hcases j t ht with hold | ⟨-, rfl⟩
    · exact h.atEof j t p hold hout hphase hp
    · cases hphase

theorem streams_callStep {request : Request I} {p q : Phase} (h : Streams s) (howned : Owned s)
    (hcall : s.calls[k]? = some ⟨request, p⟩) (hstep : CallStep s k request p q u) :
    Streams (u.setPhase k q) := by
  have hu := hstep.calls_eq
  cases hstep with
  | openedOutput out sid c hc => exact h.opened howned hcall hc
  | spawned sid cmd l =>
    exact (h.childSpawned l).moved hcall rfl (by simp) rfl rfl rfl (Nat.le_refl _)
      (by simp [Phase.streams])
  | inserted sid cmd l c peer =>
    exact (h.sessionInserted howned hcall).moved hcall rfl (by simp) rfl rfl rfl (Nat.le_refl _)
      (by simp [Phase.streams])
  | failed _ _ e | dropped =>
    exact h.moved hcall hu (by simp) (Server.sidOf_release s k p) (copyAt_release s k p)
      (pipeOf_release s k p) (Nat.le_of_eq (length_tasks_release s k p).symm)
      (by simp [Phase.streams])
  | forwarded sid port =>
    have hcopy : ∀ j, s.copyAt j = ({ s with
        pending := Function.update s.pending sid (some ⟨some (port, s.tasks.length)⟩)
        tasks := s.tasks ++ [Task.forward none] } : Server I).copyAt j := by
      intro j
      refine Eq.trans ?_ (copyAt_append s _ j).symm
      split_ifs with hj
      · simp [Server.copyAt, hj]
      · rfl
    refine h.moved hcall hu (by simp) rfl (funext fun j => (hcopy j).symm) rfl (by simp) ?_
    intro j hj
    obtain rfl := Option.some.inj hj
    exact .inr ⟨by simp, by simp [Server.copyAt], by simp⟩
  | accepted sid cmd l c peer =>
    exact h.moved hcall hu (by simp) (Server.sidOf_setLink s peer _) rfl (pipeOf_setLink s peer _)
      (Nat.le_refl _) (by simp [Phase.streams])
  | tookItem sid c item =>
    refine h.moved hcall hu ?_ rfl rfl rfl (Nat.le_refl _) ?_ <;> split <;> simp [Phase.streams]
  | wrote sid c len rest =>
    refine h.moved hcall hu ?_ (Server.sidOf_modifyChild fun _ => rfl) rfl
      (pipeOf_modifyChild fun _ out => by cases out <;> rfl) (Nat.le_refl _) ?_ <;> split <;>
      simp [Phase.streams]
  | foundHandles out sid c j =>
    exact h.moved hcall hu (by simp) rfl rfl rfl (Nat.le_refl _) (fun _ hj => .inl hj)
  | pushed out sid c j =>
    refine h.moved hcall hu (by simp) (Server.sidOf_modifyChild fun child => ?_) rfl
      (pipeOf_modifyChild fun _ out => by cases out <;> rfl) (Nat.le_refl _) (fun _ hj => .inl hj)
    cases child.session <;> rfl
  | joined sid c i =>
    refine h.moved hcall hu (by simp) (Server.sidOf_modifyChild fun child => ?_) rfl
      (pipeOf_modifyChild fun _ out => by cases out <;> rfl) (Nat.le_refl _)
      (by simp [Phase.streams])
    cases child.session <;> rfl
  | removed sid ret =>
    refine h.moved hcall hu (by simp) rfl rfl rfl (Nat.le_refl _) ?_
    cases ret <;> simp [Phase.streams, Except.map]
  | _ =>
    exact h.moved hcall hu (by simp) rfl rfl rfl (Nat.le_refl _) (by simp [Phase.streams])

omit [DecidableEq I] in
theorem pipeOf_setPipe {c : ℕ} {child : Child I} {out : Output} {p : Pipe}
    (hchild : s.children[c]? = some child) (d : ℕ) (out' : Output) :
    (s.modifyChild c (fun child => child.setPipe out p)).pipeOf d out' =
      if d = c ∧ out' = out then some p else s.pipeOf d out' := by
  simp only [Server.pipeOf, Server.modifyChild, List.getElem?_modify]
  by_cases hd : c = d
  · subst hd
    cases out <;> cases out' <;> simp [hchild, Child.pipe, Child.setPipe]
  · simp [hd, Ne.symm hd]

omit [DecidableEq I] in
theorem streams_stepChild {c : ℕ} {child : Child I} {e : ChildEvent} (h : Streams s)
    (hchild : s.children[c]? = some child) (hstep : s.stepChild c child e = some t) :
    Streams t := by
  obtain ⟨hcalls, -, htasks, hsid, -⟩ := stepChild_same hstep
  refine h.printed hcalls htasks hsid ?_
  have hpipe : ∀ out, s.pipeOf c out = some (child.pipe out) := by
    intro out
    simp [Server.pipeOf, hchild]
  revert hstep
  fun_cases Server.stepChild s c child e
  all_goals intro hstep
  all_goals cases hstep
  case case16.refl out buf p hwriters =>
    intro d out' p' hp'
    rw [pipeOf_setPipe hchild] at hp'
    split_ifs at hp' with hd
    · obtain ⟨rfl, rfl⟩ := hd
      cases hp'
      refine ⟨p, buf, hpipe out', rfl, rfl, fun hno => ?_⟩
      simp [hno] at hwriters
    · exact ⟨p', [], hp', by simp, by simp, fun hno => ⟨rfl, hno⟩⟩
  case case18.refl out p =>
    intro d out' p' hp'
    rw [pipeOf_setPipe hchild] at hp'
    split_ifs at hp' with hd
    · obtain ⟨rfl, rfl⟩ := hd
      cases hp'
      exact ⟨p, [], hpipe out', by simp, by simp, fun _ => ⟨rfl, rfl⟩⟩
    · exact ⟨p', [], hp', by simp, by simp, fun hno => ⟨rfl, hno⟩⟩
  all_goals
    intro d out p hp
    rw [pipeOf_modifyChild fun _ out => by cases out <;> rfl] at hp
    exact ⟨p, [], hp, by simp, by simp, fun hno => ⟨rfl, hno⟩⟩

/-! What a copy task does. -/

/-- The task goes from `t` to `t'`; the pipes are those of `u`. -/
inductive CopyStep (s : Server I) (t : Copy) : Copy → Server I → Prop
  /-- bytes move on towards the client -/
  | passed {t' : Copy} (hcarried : t'.carried = t.carried)
      (hphase : t'.phase = t.phase ∨ t'.phase = .reading ∧ ∀ ret, t.phase ≠ .done ret) :
      CopyStep s t t' s
  | read {p : Pipe} {len : ℕ} (hphase : t.phase = .reading)
      (hp : s.pipeOf t.child t.out = some p) (hpos : 0 < len) (hlen : len ≤ p.data.length) :
      CopyStep s t { t with phase := .sending (p.data.take len) }
        (s.modifyChild t.child (fun child => child.setPipe t.out { p with data := p.data.drop len }))
  | ended {p : Pipe} (hphase : t.phase = .reading) (hp : s.pipeOf t.child t.out = some p)
      (hdata : p.data = []) (hwriters : p.writers = false) :
      CopyStep s t { t with phase := .done (.ok ()) } s
  /-- the stderr of a pty -/
  | skipped (hphase : t.phase = .locking) (hout : t.out = .stderr) :
      CopyStep s t { t with phase := .done (.ok ()) } s
  | failed (e : Error) : CopyStep s t { t with phase := .done (.error e) } s

omit [DecidableEq I] in
theorem copyStep_of_stepCopy {j : ℕ} {t : Copy} {rxOpen : Bool} {e : TaskEvent} {v : Server I}
    (hstep : s.stepCopy j t rxOpen e = some v) :
    ∃ t' rxOpen' u, CopyStep s t t' u ∧ v = u.setTask j (.copy t' rxOpen') ∧
      t'.out = t.out ∧ t'.child = t.child ∧ t'.call = t.call ∧
      (t'.taken = t.taken ∨ e = .consume) := by
  revert hstep
  fun_cases Server.stepCopy s j t rxOpen e
  all_goals intro hstep
  all_goals cases hstep
  case case2.refl hphase _ _ hout =>
    exact ⟨_, rxOpen, s, .skipped hphase hout, rfl, rfl, rfl, rfl, .inl rfl⟩
  case case3.refl hphase _ _ =>
    refine ⟨_, rxOpen, s, .passed ?_ (.inr ⟨rfl, by simp [hphase]⟩), rfl, rfl, rfl, rfl, .inl rfl⟩
    simp [Copy.carried, Copy.held, hphase]
  case case5.refl len child hchild hphase p hlen =>
    have hp : s.pipeOf t.child t.out = some p := by simp [Server.pipeOf, hchild, p]
    exact ⟨_, rxOpen, _, .read hphase hp hlen.1 hlen.2.2, rfl, rfl, rfl, rfl, .inl rfl⟩
  case case8.refl child hchild hphase p hend =>
    have hp : s.pipeOf t.child t.out = some p := by simp [Server.pipeOf, hchild, p]
    exact ⟨_, rxOpen, s, .ended hphase hp hend.1 hend.2, rfl, rfl, rfl, rfl, .inl rfl⟩
  case case11.refl e hphase => exact ⟨_, rxOpen, s, .failed _, rfl, rfl, rfl, rfl, .inl rfl⟩
  case case13.refl buf hphase hopen =>
    refine ⟨_, rxOpen, s, .passed ?_ (.inr ⟨rfl, by simp [hphase]⟩), rfl, rfl, rfl, rfl, .inl rfl⟩
    simp [Copy.carried, Copy.held, hphase]
  case case17.refl buf hphase hclosed => exact ⟨_, rxOpen, s, .failed _, rfl, rfl, rfl, rfl, .inl rfl⟩
  case case20.refl buf queue hqueue hopen =>
    refine ⟨{ t with queue := queue, wire := t.wire ++ [buf] }, rxOpen, s, .passed ?_ (.inl rfl),
      rfl, rfl, rfl, rfl, .inl rfl⟩
    simp [Copy.carried, Copy.held, hqueue]
  case case23.refl buf wire hwire =>
    refine ⟨{ t with wire := wire, taken := t.taken ++ [buf] }, rxOpen, s, .passed ?_ (.inl rfl),
      rfl, rfl, rfl, rfl, .inr rfl⟩
    simp [Copy.carried, Copy.held, hwire]
  case case24.refl => exact ⟨t, false, s, .passed rfl (.inl rfl), rfl, rfl, rfl, rfl, .inl rfl⟩

/-- The task has ended and its client has taken everything. -/
def Copy.Over (t : Copy) : Prop := (∃ ret, t.phase = .done ret) ∧ t.queue = [] ∧ t.wire = []

omit [DecidableEq I] in
theorem stepCopy_over {j : ℕ} {t : Copy} {rxOpen : Bool} {e : TaskEvent} {v : Server I}
    (hstep : s.stepCopy j t rxOpen e = some v) (hover : t.Over) :
    v = s.setTask j (.copy t false) := by
  obtain ⟨⟨ret, hphase⟩, hqueue, hwire⟩ := hover
  revert hstep
  fun_cases Server.stepCopy s j t rxOpen e
  all_goals intro hstep
  all_goals cases hstep
  case case24.refl => rfl
  all_goals simp_all

omit [DecidableEq I] in
theorem copyAt_setTask {j : ℕ} {t t' : Copy} {rxOpen : Bool} (ht : s.copyAt j = some t) (i : ℕ) :
    (s.setTask j (.copy t' rxOpen)).copyAt i = if i = j then some t' else s.copyAt i := by
  have hlt : j < s.tasks.length := by
    by_contra hlt
    simp [Server.copyAt, List.getElem?_eq_none (Nat.le_of_not_lt hlt)] at ht
  simp only [Server.copyAt, Server.setTask, List.getElem?_set]
  by_cases hij : i = j
  · subst hij
    simp [hlt]
  · simp [hij, Ne.symm hij]

omit [DecidableEq I] in
theorem CopyStep.same {t t' : Copy} (h : CopyStep s t t' u) :
    u.calls = s.calls ∧ u.sidOf = s.sidOf ∧ u.copyAt = s.copyAt ∧
      u.tasks.length = s.tasks.length := by
  cases h with
  | read hphase hp =>
    refine ⟨rfl, Server.sidOf_modifyChild fun child => ?_, rfl, rfl⟩
    rw [Child.setPipe_session]
  | _ => exact ⟨rfl, rfl, rfl, rfl⟩

omit [DecidableEq I] in
/-- Only the pipe that the task reads changes, and only when it is not at its end. -/
theorem CopyStep.pipe {t t' : Copy} (h : CopyStep s t t' u) (c : ℕ) (out : Output) :
    u.pipeOf c out = s.pipeOf c out ∨
      c = t.child ∧ out = t.out ∧ ∀ p, s.pipeOf c out = some p → p.data ≠ [] := by
  cases h with
  | @read p len hphase hp hpos hlen =>
    obtain ⟨child, hchild, -⟩ := Option.map_eq_some_iff.mp hp
    rw [pipeOf_setPipe hchild]
    split_ifs with hd
    · obtain ⟨rfl, rfl⟩ := hd
      refine .inr ⟨rfl, rfl, fun p' hp' => ?_⟩
      obtain rfl := Option.some.inj (hp.symm.trans hp')
      rintro hnil
      simp [hnil] at hlen
      omega
    · exact .inl rfl
  | _ => exact .inl rfl

omit [DecidableEq I] in
theorem CopyStep.conserved {t t' : Copy} {p' : Pipe} (h : CopyStep s t t' u)
    (hphase : ∀ e, t'.phase ≠ .done (.error e)) (hp' : u.pipeOf t.child t.out = some p')
    (hold : ∀ p, (∀ e, t.phase ≠ .done (.error e)) → s.pipeOf t.child t.out = some p →
      t.carried ++ p.data = p.written) : t'.carried ++ p'.data = p'.written := by
  cases h with
  | passed hcarried hp =>
    rw [hcarried]
    refine hold p' ?_ hp'
    rcases hp with hp | ⟨-, hp⟩
    · rwa [← hp]
    · exact fun e => hp (.error e)
  | @read p len hreading hp hpos hlen =>
    obtain ⟨child, hchild, -⟩ := Option.map_eq_some_iff.mp hp
    rw [pipeOf_setPipe hchild, if_pos ⟨rfl, rfl⟩] at hp'
    cases hp'
    have hall := hold p (by simp [hreading]) hp
    simp only [Copy.carried, Copy.held, hreading, List.append_nil] at hall ⊢
    rw [List.append_assoc _ (p.data.take len), List.take_append_drop, hall]
  | ended hreading hp =>
    have hall := hold p' (by simp [hreading]) hp'
    simpa [Copy.carried, Copy.held, hreading] using hall
  | skipped hlocking hout =>
    have hall := hold p' (by simp [hlocking]) hp'
    simpa [Copy.carried, Copy.held, hlocking] using hall
  | failed e => exact absurd rfl (hphase e)

omit [DecidableEq I] in
theorem CopyStep.atEof {t t' : Copy} {p' : Pipe} (h : CopyStep s t t' u) (hout : t.out = .stdout)
    (hphase : t'.phase = .done (.ok ())) (hp' : u.pipeOf t.child .stdout = some p')
    (hold : ∀ p, t.phase = .done (.ok ()) → s.pipeOf t.child .stdout = some p →
      p.data = [] ∧ p.writers = false) : p'.data = [] ∧ p'.writers = false := by
  cases h with
  | passed hcarried hp =>
    rcases hp with hp | ⟨hp, -⟩
    · exact hold p' (hp ▸ hphase) hp'
    · simp [hp] at hphase
  | read => simp at hphase
  | ended hreading hp hdata hwriters =>
    rw [hout, hp'] at hp
    cases hp
    exact ⟨hdata, hwriters⟩
  | skipped hlocking hstderr => simp [hout] at hstderr
  | failed e => simp at hphase

omit [DecidableEq I] in
theorem streams_copyStep {j : ℕ} {t t' : Copy} {rxOpen : Bool} (h : Streams s)
    (ht : s.copyAt j = some t) (hstep : CopyStep s t t' u) (hout : t'.out = t.out)
    (hchild : t'.child = t.child) (hcall : t'.call = t.call) :
    Streams (u.setTask j (.copy t' rxOpen)) := by
  obtain ⟨hcalls, hsid, hcopy, hlen⟩ := hstep.same
  have hget : ∀ i, (u.setTask j (.copy t' rxOpen)).copyAt i =
      if i = j then some t' else s.copyAt i := by
    intro i
    rw [copyAt_setTask (hcopy ▸ ht), hcopy]
  -- every task was there before, for the same pipe and from the same call
  have hback : ∀ i a, (u.setTask j (.copy t' rxOpen)).copyAt i = some a → ∃ b,
      s.copyAt i = some b ∧ a.out = b.out ∧ a.child = b.child ∧ a.call = b.call := by
    intro i a ha
    rw [hget] at ha
    split_ifs at ha with hij
    · cases ha
      exact ⟨t, hij ▸ ht, hout, hchild, hcall⟩
    · exact ⟨a, ha, rfl, rfl, rfl⟩
  have hforth : ∀ i b, s.copyAt i = some b → ∃ a,
      (u.setTask j (.copy t' rxOpen)).copyAt i = some a ∧ a.out = b.out ∧ a.child = b.child ∧
        a.call = b.call := by
    intro i b hb
    rw [hget]
    split_ifs with hij
    · subst hij
      rw [ht] at hb
      cases hb
      exact ⟨t', rfl, hout, hchild, hcall⟩
    · exact ⟨b, hb, rfl, rfl, rfl⟩
  constructor
  case streamed =>
    intro i call m hi hm
    rcases h.streamed i call m (hcalls ▸ hi) hm with ⟨b, hb, hk⟩ | ⟨hlt, hnone, hr⟩
    · obtain ⟨a, ha, -, -, hab⟩ := hforth m b hb
      exact .inl ⟨a, ha, hab.trans hk⟩
    · refine .inr ⟨by simpa [Server.setTask, hlen] using hlt, ?_, hr⟩
      have hmj : m ≠ j := by
        rintro rfl
        simp [ht] at hnone
      rw [hget, if_neg hmj, hnone]
  case spawned =>
    intro i a ha
    obtain ⟨b, hb, hab, hac, hcall'⟩ := hback i a ha
    obtain ⟨sid, p, hp, hcalled, hs⟩ := h.spawned i b hb
    refine ⟨sid, p, ?_, hcalled, ?_⟩
    · rw [hab, hcall']
      exact hcalls ▸ hp
    · rw [hac]
      exact (congrFun hsid _).trans hs
  case once =>
    intro i m a b ha hb hab
    obtain ⟨a', ha', -, -, haa⟩ := hback i a ha
    obtain ⟨b', hb', -, -, hbb⟩ := hback m b hb
    exact h.once i m a' b' ha' hb' (haa.symm.trans (hab.trans hbb))
  case untouched =>
    intro c out p hp hno
    have hno' : ∀ i b, s.copyAt i = some b → b.out = out → b.child ≠ c := by
      intro i b hb hbo
      obtain ⟨a, ha, hao, hac, -⟩ := hforth i b hb
      exact hac ▸ hno i a ha (hao.trans hbo)
    rcases hstep.pipe c out with hsame | ⟨rfl, rfl, -⟩
    · exact h.untouched c out p (hsame ▸ hp) hno'
    · exact absurd rfl (hno' j t ht rfl)
  case conserved =>
    intro i a p ha hphase hp halone
    have halone' : ∀ m b, s.copyAt m = some b → b.out = a.out → b.child = a.child → m = i := by
      intro m b hb hbo hbc
      obtain ⟨a', ha', hao, hac, -⟩ := hforth m b hb
      exact halone m a' ha' (hao.trans hbo) (hac.trans hbc)
    rw [hget] at ha
    split_ifs at ha with hij
    · cases ha
      rw [hout, hchild] at hp halone'
      refine hstep.conserved hphase hp fun p' hphase' hp' => ?_
      exact h.conserved j t p' ht hphase' hp' (hij ▸ halone')
    · rcases hstep.pipe a.child a.out with hsame | ⟨hc, ho, -⟩
      · exact h.conserved i a p ha hphase (hsame ▸ hp) halone'
      · exact absurd (halone' j t ht ho.symm hc.symm).symm hij
  case atEof =>
    intro i a p ha hao hphase hp
    rw [hget] at ha
    split_ifs at ha with hij
    · cases ha
      rw [hchild] at hp
      refine hstep.atEof (hout ▸ hao) hphase hp fun p' hphase' hp' => ?_
      exact h.atEof j t p' ht (hout ▸ hao) hphase' hp'
    · rcases hstep.pipe a.child .stdout with hsame | ⟨hc, ho, hdata⟩
      · exact h.atEof i a p ha hao hphase (hsame ▸ hp)
      · obtain ⟨sid, -, -, -, hs⟩ := h.spawned i a ha
        have hlt := lt_of_sidOf hs
        have hp' : s.pipeOf a.child .stdout = some (s.children[a.child].pipe .stdout) := by
          simp [Server.pipeOf, List.getElem?_eq_getElem hlt]
        exact absurd (h.atEof i a _ ha hao hphase hp').1 (hdata _ hp')

omit [DecidableEq I] in
theorem Streams.called (h : Streams s) (request : Request I) :
    Streams { s with calls := s.calls ++ [⟨request, .called⟩] } := by
  refine ⟨?_, ?_, h.once, h.untouched, h.conserved, h.atEof⟩
  · intro i call j hi hj
    rcases getElem?_concat_cases hi with hi | ⟨-, rfl⟩
    · exact h.streamed i call j hi hj
    · simp [Phase.streams] at hj
  · intro j t ht
    obtain ⟨sid, p, hp, hcalled, hs⟩ := h.spawned j t ht
    refine ⟨sid, p, ?_, hcalled, hs⟩
    rw [List.getElem?_append_left (List.getElem?_eq_some_iff.mp hp).1, hp]

omit [DecidableEq I] in
theorem copyAt_forwardDone {j : ℕ} {ret : Option (Except Error Unit)}
    (htask : s.tasks[j]? = some (.forward none)) :
    (s.setTask j (.forward ret)).copyAt = s.copyAt := by
  have hlt := (List.getElem?_eq_some_iff.mp htask).1
  funext i
  simp only [Server.copyAt, Server.setTask, List.getElem?_set]
  by_cases hij : j = i
  · subst hij
    rw [if_pos rfl, if_pos hlt, htask]
  · simp [hij]

theorem streams_step (s : Server I) (label : Label I) (t : Server I) (h : Owned s ∧ Streams s)
    (hstep : s.step label = some t) : Owned t ∧ Streams t := by
  refine ⟨owned_step s label t h.1 hstep, ?_⟩
  obtain ⟨howned, h⟩ := h
  cases serverStep_of_step hstep with
  | called request => exact h.called request
  | moved hlabel hcall hmove => exact streams_callStep h howned hcall hmove
  | child hchild hstep => exact streams_stepChild h hchild hstep
  | copy htask hcopy =>
    obtain ⟨t', rxOpen', u, hcopyStep, rfl, hout, hchild, hcall, -⟩ := copyStep_of_stepCopy hcopy
    exact streams_copyStep h (by simp [Server.copyAt, htask]) hcopyStep hout hchild hcall
  | forwardDone htask =>
    exact h.of_sidOf rfl (copyAt_forwardDone htask) rfl (by simp [Server.setTask])
      (fun _ _ hs => hs)

omit [DecidableEq I] in
theorem streams_new : Streams (Server.new : Server I) := by
  constructor <;> simp [Server.new, Server.copyAt, Server.pipeOf]

end P9cpu.Cpu
