import P9cpu.Ninep.Objects

/-! The tasks of a connection whose handlers keep to a protocol, for any filesystem. -/
namespace P9cpu.Ninep
open Core Prog

variable {Op : Type} {Res : Op → Type}

/-- What the handler of a request may do next, and with which response it may end. -/
structure Protocol (Op : Type) (Res : Op → Type) where
  Stage : Type
  start : Stage
  /-- one operation, of a handler that may use some objects for a request -/
  next : (ObjId → Prop) → Fcall → Stage → (o : Op) → Res o → Stage → Prop
  ends : Fcall → Stage → Fcall → Prop
  mono : ∀ {Uses Uses' : ObjId → Prop} (body : Fcall), (∀ a, Uses a → Uses' a) →
    ∀ q o r q', next Uses body q o r q' → next Uses' body q o r q'

/-- The response to a request whose handler returned this. -/
def responseOf : Except Error Fcall → Fcall
  | .ok response => response
  | .error e => rlerrorOf e

/-- All handlers of a filesystem keep to the protocol. -/
structure Protocol.Governs (P : Protocol Op Res) (fs : Filesystem Op Res) : Prop where
  routed : ∀ {Uses : ObjId → Prop} {fids : FidTable} {aux : ObjId} {body : Fcall}
    {handler : Handler Op Res Fcall}, (∀ f b, fids.get f = some b → Uses b.aux) →
    route fs fids (newFid body aux) body = .ok handler →
    handler.run.Follows (P.next Uses body) (fun q r => P.ends body q (responseOf r)) P.start
  refused : ∀ (body : Fcall) (e : Error), P.ends body P.start (rlerrorOf e)

/-- A task is where the protocol has it. -/
def Phase.Governed (P : Protocol Op Res) (Uses : ObjId → Prop) (body : Fcall) (q : P.Stage) :
    Phase Op Res → Prop
  | .received => q = P.start
  | .handling _ p => p.Follows (P.next Uses body) (fun q r => P.ends body q (responseOf r)) q
  | .clunking _ _ response | .inserting _ response | .replying response => P.ends body q response
  | .done | .panicked => True

section
variable {P : Protocol Op Res} {W : World Op Res} {fs : Filesystem Op Res} {s t u : Conn W}
  {l : Label W} {st : ℕ → P.Stage} {i : ℕ} {msg : Msg} {aux : ObjId} {p q : Phase Op Res}

theorem Phase.Governed.mono {Uses Uses' : ObjId → Prop} {body : Fcall} {v : P.Stage}
    (h : p.Governed P Uses body v) (huses : ∀ a, Uses a → Uses' a) :
    p.Governed P Uses' body v := by
  cases p with
  | handling newfid p => exact Follows.imp h (P.mono body huses)
  | _ => exact h

theorem governed_afterHandler {Uses : ObjId → Prop} {body response : Fcall} (newfid : Option Fid)
    {v : P.Stage} (h : P.ends body v response) :
    (afterHandler body newfid response : Phase Op Res).Governed P Uses body v := by
  have hafter : (afterClunk newfid response : Phase Op Res).Governed P Uses body v := by
    cases newfid <;> exact h
  cases body with
  | tclunk fid => exact h
  | _ => exact hafter

/-- The stages of all tasks. -/
structure Conn.Governed (P : Protocol Op Res) (st : ℕ → P.Stage) (s : Conn W) : Prop where
  fresh : s.Fresh
  consistent : s.Consistent
  phase : ∀ (i : ℕ) (msg : Msg) (aux : ObjId) (p : Phase Op Res),
    s.tasks[i]? = some ⟨msg, aux, p⟩ → p.Governed P (Made s) msg.body (st i)
  idle : ∀ i, s.tasks.length ≤ i → st i = P.start
  written : ∀ (i : ℕ) (m : Msg), (i, m) ∈ s.written → ∃ msg aux p,
    s.tasks[i]? = some ⟨msg, aux, p⟩ ∧ p.ended = true ∧ P.ends msg.body (st i) m.body

/-- What a step of a connection is for what its tasks share. -/
inductive WorldStep (P : Protocol Op Res) (s : Conn W) (st : ℕ → P.Stage) :
    Label W → (ℕ → P.Stage) → W.State → Prop
  | still (l : Label W) (hrun : ∀ i, l ≠ .run i) (hworld : ∀ e, l ≠ .world e) :
      WorldStep P s st l st s.world
  | created (i : ℕ) (msg : Msg) (aux : ObjId) (ht : s.tasks[i]? = some ⟨msg, aux, .received⟩) :
      WorldStep P s st (.lookup i) st (W.create aux s.world)
  | ran (i : ℕ) (msg : Msg) (aux : ObjId) (newfid : Option Fid) (o : Op)
      (k : Res o → Prog Op Res (Except Error Fcall)) (r : Res o) (q : P.Stage) (world : W.State)
      (ht : s.tasks[i]? = some ⟨msg, aux, .handling newfid (.op o k)⟩)
      (hexec : W.exec o s.world = some (r, world)) (hnext : P.next (Made s) msg.body (st i) o r q) :
      WorldStep P s st (.run i) (Function.update st i q) world
  | ticked (e : W.Event) (world : W.State) (h : W.tick e s.world = some world) :
      WorldStep P s st (.world e) st world

/-- A task goes on: it alone changes its stage. -/
theorem governed_setPhase (h : s.Governed P st) {st' : ℕ → P.Stage}
    (hfresh : (u.setPhase i q).Fresh) (hconsistent : (u.setPhase i q).Consistent)
    (ht : s.tasks[i]? = some ⟨msg, aux, p⟩) (hp : p.ended = false) (htasks : u.tasks = s.tasks)
    (hmade : ∀ a, Made s a → Made (u.setPhase i q) a) (hst : ∀ k, k ≠ i → st' k = st k)
    (hphase : q.Governed P (Made (u.setPhase i q)) msg.body (st' i))
    (hwritten : ∀ j m, (j, m) ∈ u.written →
      (j, m) ∈ s.written ∨ j = i ∧ q.ended = true ∧ P.ends msg.body (st' i) m.body) :
    (u.setPhase i q).Governed P st' := by
  have hi : (u.setPhase i q).tasks[i]? = some ⟨msg, aux, q⟩ := Conn.setPhase_task_self htasks ht
  have hj : ∀ j, j ≠ i → (u.setPhase i q).tasks[j]? = s.tasks[j]? :=
    fun j hij => Conn.setPhase_task_of_ne q htasks (Ne.symm hij)
  have hlt : i < s.tasks.length := (List.getElem?_eq_some_iff.mp ht).1
  refine ⟨hfresh, hconsistent, fun k m a p' hk => ?_, fun k hk => ?_, fun k m hk => ?_⟩
  · rcases Conn.task_setPhase htasks ht hk with ⟨rfl, rfl, rfl, rfl⟩ | ⟨hki, hk⟩
    · exact hphase
    · rw [hst k hki]
      exact (h.phase k m a p' hk).mono hmade
  · rw [Conn.setPhase_length, htasks] at hk
    have hki : k ≠ i := by omega
    rw [hst k hki]
    exact h.idle k hk
  · rcases hwritten k m hk with hold | ⟨rfl, hended, hnew⟩
    · obtain ⟨msg', aux', p', ht', hended, hover⟩ := h.written k m hold
      have hki : k ≠ i := by
        rintro rfl
        rw [ht] at ht'
        cases ht'
        rw [hp] at hended
        cases hended
      exact ⟨msg', aux', p', (hj k hki).trans ht', hended, hst k hki ▸ hover⟩
    · exact ⟨msg, aux, q, hi, hended, hnew⟩

/-- Looking up the fids of a request creates its object, if the request has a new fid. -/
theorem worldStep_lookup (ht : s.tasks[i]? = some ⟨msg, aux, .received⟩) :
    WorldStep P s st (.lookup i) st
      (if (newFid msg.body aux).isSome then W.create aux s.world else s.world) := by
  by_cases hnew : (newFid msg.body aux).isSome
  · rw [if_pos hnew]
    exact .created i msg aux ht
  · rw [if_neg hnew]
    exact .still _ (by simp) (by simp)

theorem governed_taskStep (hP : P.Governs fs) (h : s.Governed P st)
    (ht : s.tasks[i]? = some ⟨msg, aux, p⟩) (hstep : step fs s l = some (u.setPhase i q))
    (htask : TaskStep fs s i msg aux l p q u) :
    ∃ st', WorldStep P s st l st' u.world ∧ (u.setPhase i q).Governed P st' := by
  have hfresh := fresh_step h.fresh h.consistent hstep
  have hconsistent := consistent_step s l _ h.consistent hstep
  have hmade : ∀ a, Made s a → Made (u.setPhase i q) a := fun a => made_of_step hstep
  have hp : p.Governed P (Made s) msg.body (st i) := h.phase i msg aux p ht
  have hended := not_ended_of_taskStep htask
  have htasks := (nextAux_of_taskStep htask).1
  -- a step without an operation of the handler
  have hquiet : q.Governed P (Made (u.setPhase i q)) msg.body (st i) →
      (∀ j m, (j, m) ∈ u.written →
        (j, m) ∈ s.written ∨ j = i ∧ q.ended = true ∧ P.ends msg.body (st i) m.body) →
      (u.setPhase i q).Governed P st :=
    governed_setPhase h hfresh hconsistent ht hended htasks hmade fun _ _ => rfl
  cases htask with
  | routed handler hroute =>
    have hstart : st i = P.start := hp
    refine ⟨st, worldStep_lookup ht, hquiet ?_ fun _ _ hm => .inl hm⟩
    rw [hstart]
    exact Follows.imp (hP.routed h.fresh.table hroute) (P.mono msg.body hmade)
  | refused e hroute =>
    have hstart : st i = P.start := hp
    refine ⟨st, worldStep_lookup ht, hquiet ?_ fun _ _ hm => .inl hm⟩
    rw [hstart]
    exact hP.refused msg.body e
  | ran newfid o k r world hexec =>
    obtain ⟨q', hnext, hk⟩ := hp r
    have hself : Function.update st i q' i = q' := Function.update_self ..
    refine ⟨_, .ran i msg aux newfid o k r q' world ht hexec hnext, ?_⟩
    refine governed_setPhase h hfresh hconsistent ht hended htasks hmade
      (fun k hk => Function.update_of_ne hk ..) ?_ fun _ _ hm => .inl hm
    rw [hself]
    exact Follows.imp hk (P.mono msg.body hmade)
  | failed newfid e =>
    exact ⟨st, .still _ (by simp) (by simp), hquiet hp fun _ _ hm => .inl hm⟩
  | handled newfid response =>
    refine ⟨st, .still _ (by simp) (by simp), hquiet ?_ fun _ _ hm => .inl hm⟩
    exact governed_afterHandler newfid hp
  | clunked fid newfid response hu =>
    refine ⟨st, .still _ (by simp) (by simp), hquiet ?_ fun _ _ hm => .inl hm⟩
    cases newfid <;> exact hp
  | inserted newfid response hu =>
    exact ⟨st, .still _ (by simp) (by simp), hquiet hp fun _ _ hm => .inl hm⟩
  | skipped response hr =>
    exact ⟨st, .still _ (by simp) (by simp), hquiet True.intro fun _ _ hm => .inl hm⟩
  | sent response hr hlen =>
    refine ⟨st, .still _ (by simp) (by simp), hquiet True.intro fun j m hm => ?_⟩
    obtain hm | hm := List.mem_append.mp hm
    · exact .inl hm
    · obtain ⟨rfl, rfl⟩ : j = i ∧ m = ⟨msg.tag, response⟩ := by simpa using hm
      exact .inr ⟨rfl, rfl, hp⟩
  | tooLong response hr hlen =>
    exact ⟨st, .still _ (by simp) (by simp), hquiet True.intro fun _ _ hm => .inl hm⟩

/-- A step that no task takes. -/
theorem governed_idle (h : s.Governed P st) (hfresh : t.Fresh) (hconsistent : t.Consistent)
    (htasks : t.tasks = s.tasks) (hmade : ∀ a, Made s a → Made t a)
    (hwritten : t.written = s.written) : t.Governed P st := by
  refine ⟨hfresh, hconsistent, fun k m a p' hk => ?_, fun k hk => ?_, fun k m hk => ?_⟩
  · rw [htasks] at hk
    exact (h.phase k m a p' hk).mono hmade
  · rw [htasks] at hk
    exact h.idle k hk
  · rw [hwritten] at hk
    rw [htasks]
    exact h.written k m hk

/-- The tasks stay where the protocol has them, and it says what a step does. -/
theorem governed_step (hP : P.Governs fs) (h : s.Governed P st) (hstep : step fs s l = some t) :
    ∃ st', WorldStep P s st l st' t.world ∧ t.Governed P st' := by
  have hfresh := fresh_step h.fresh h.consistent hstep
  have hconsistent := consistent_step s l _ h.consistent hstep
  have hmade : ∀ a, Made s a → Made t a := fun a => made_of_step hstep
  cases connStep_of_step hstep with
  | task i msg aux p q l u ht htask => exact governed_taskStep hP h ht hstep htask
  | spawned frame msg rest hr hm =>
    refine ⟨st, .still _ (by simp) (by simp), hfresh, hconsistent, fun k m a p' hk => ?_,
      fun k hk => ?_, fun k m hk => ?_⟩
    · rcases Conn.spawn_task hk with hold | ⟨rfl, -, -, rfl⟩
      · exact (h.phase k m a p' hold).mono hmade
      · exact h.idle _ le_rfl
    · have hlen : (s.spawn msg).tasks.length = s.tasks.length + 1 := by simp [Conn.spawn]
      exact h.idle k (by omega)
    · obtain ⟨msg', aux', p', ht', hover⟩ := h.written k m hk
      exact ⟨msg', aux', p', Conn.task_spawn msg ht', hover⟩
  | undecodable frame e hm =>
    refine ⟨st, .still _ (by simp) (by simp), ?_⟩
    exact governed_idle h hfresh hconsistent rfl hmade rfl
  | hungUp =>
    refine ⟨st, .still _ (by simp) (by simp), ?_⟩
    exact governed_idle h hfresh hconsistent rfl hmade rfl
  | ticked e world hw =>
    refine ⟨st, .ticked e world hw, ?_⟩
    exact governed_idle h hfresh hconsistent rfl hmade rfl

theorem governed_start (nextAux : ObjId) (world : W.State) :
    (Conn.start (W := W) .new nextAux world).Governed P (fun _ => P.start) where
  fresh := fresh_start nextAux world
  consistent := ⟨fun _ _ _ _ ht => (nomatch ht), fun _ _ hm => (nomatch hm)⟩
  phase _ _ _ _ ht := nomatch ht
  idle _ _ := rfl
  written _ _ hm := nomatch hm

end
end P9cpu.Ninep
