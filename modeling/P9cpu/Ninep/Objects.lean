import P9cpu.Ninep.Binding

/-! The objects of fids are fresh: no request makes an object that another one can reach. -/
namespace P9cpu.Ninep
open Core

variable {Op : Type} {Res : Op → Type} {W : World Op Res} {fs : Filesystem Op Res}
  {s t u : Conn W} {i j : ℕ} {msg : Msg} {aux a : ObjId} {p q : Phase Op Res}

theorem aux_of_newFid {body : Fcall} {b : Fid} (hb : newFid body aux = some b) : b.aux = aux := by
  obtain ⟨f, -, rfl⟩ := Option.map_eq_some_iff.mp hb
  rfl

theorem eq_of_aux {m : Msg} {p' : Phase Op Res} (hnodup : (s.tasks.map Task.aux).Nodup)
    (hi : s.tasks[i]? = some ⟨msg, aux, p⟩) (hj : s.tasks[j]? = some ⟨m, aux, p'⟩) : i = j := by
  have hlt : i < (s.tasks.map Task.aux).length := by
    rw [List.length_map]
    exact (List.getElem?_eq_some_iff.mp hi).1
  refine (List.getElem?_inj hlt hnodup).mp ?_
  simp [hi, hj]

theorem map_aux_setPhase (s : Conn W) (i : ℕ) (q : Phase Op Res) :
    (s.setPhase i q).tasks.map Task.aux = s.tasks.map Task.aux := by
  apply List.ext_getElem?
  intro j
  simp only [List.getElem?_map, Conn.setPhase_task]
  split_ifs
  · cases s.tasks[j]? <;> rfl
  · rfl

/-- No request is still to make the object. -/
structure Made (s : Conn W) (a : ObjId) : Prop where
  lt : a < s.nextAux
  made : ∀ (i : ℕ) (msg : Msg), s.tasks[i]? ≠ some ⟨msg, a, .received⟩

structure Conn.Fresh (s : Conn W) : Prop where
  nodup : (s.tasks.map Task.aux).Nodup
  lt : ∀ a ∈ s.tasks.map Task.aux, a < s.nextAux
  table : ∀ f b, s.fids.get f = some b → Made s b.aux

theorem Made.spawn (h : Made s a) (msg : Msg) : Made (s.spawn msg) a := by
  have hlt : a < s.nextAux := h.lt
  refine ⟨Nat.lt_succ_of_lt hlt, fun j m ht => ?_⟩
  obtain ht | ⟨-, -, haux, -⟩ := Conn.spawn_task ht
  · exact h.made j m ht
  · exact absurd hlt (by rw [haux]; exact lt_irrefl _)

theorem Made.setPhase (h : Made s a) (htasks : u.tasks = s.tasks) (hnext : u.nextAux = s.nextAux)
    (hq : q ≠ .received) : Made (u.setPhase i q) a := by
  refine ⟨?_, fun j m htj => ?_⟩
  · rw [Conn.setPhase_nextAux, hnext]
    exact h.lt
  · rw [Conn.setPhase_task, htasks] at htj
    split_ifs at htj
    · obtain ⟨t, -, ht⟩ := Option.map_eq_some_iff.mp htj
      cases ht
      exact hq rfl
    · exact h.made j m htj

theorem fresh_spawn (h : s.Fresh) (msg : Msg) : (s.spawn msg).Fresh := by
  have hmap : (s.spawn msg).tasks.map Task.aux = s.tasks.map Task.aux ++ [s.nextAux] := by
    simp [Conn.spawn]
  refine ⟨?_, ?_, fun f b hb => (h.table f b hb).spawn msg⟩
  · rw [hmap, List.nodup_append]
    refine ⟨h.nodup, by simp, ?_⟩
    rintro a ha b hb rfl
    obtain rfl := List.mem_singleton.mp hb
    exact lt_irrefl _ (h.lt _ ha)
  · intro a ha
    rw [hmap, List.mem_append, List.mem_singleton] at ha
    obtain ha | rfl := ha
    · exact Nat.lt_succ_of_lt (h.lt a ha)
    · exact Nat.lt_succ_self _

/-- The object of a task that has left its first phase is made. -/
theorem made_setPhase (h : s.Fresh) (ht : s.tasks[i]? = some ⟨msg, aux, p⟩)
    (htasks : u.tasks = s.tasks) (hnext : u.nextAux = s.nextAux) (hq : q ≠ .received) :
    Made (u.setPhase i q) aux := by
  have hmem : aux ∈ s.tasks.map Task.aux :=
    List.mem_map.mpr ⟨_, List.mem_of_getElem? ht, rfl⟩
  refine ⟨?_, fun j m htj => ?_⟩
  · rw [Conn.setPhase_nextAux, hnext]
    exact h.lt aux hmem
  · rcases Conn.task_setPhase htasks ht htj with ⟨-, -, -, hreceived⟩ | ⟨hji, htj⟩
    · exact hq hreceived.symm
    · exact hji (eq_of_aux h.nodup htj ht)

theorem fresh_setPhase (h : s.Fresh) (ht : s.tasks[i]? = some ⟨msg, aux, p⟩)
    (htasks : u.tasks = s.tasks) (hnext : u.nextAux = s.nextAux) (hq : q ≠ .received)
    (htable : ∀ f b, u.fids.get f = some b → s.fids.get f = some b ∨ b.aux = aux) :
    (u.setPhase i q).Fresh := by
  have hmap : (u.setPhase i q).tasks.map Task.aux = s.tasks.map Task.aux := by
    rw [map_aux_setPhase, htasks]
  refine ⟨hmap ▸ h.nodup, ?_, fun f b hb => ?_⟩
  · rw [hmap, Conn.setPhase_nextAux, hnext]
    exact h.lt
  · obtain hb | rfl := htable f b hb
    · exact (h.table f b hb).setPhase htasks hnext hq
    · exact made_setPhase h ht htasks hnext hq

theorem nextAux_of_taskStep {l : Label W} (h : TaskStep fs s i msg aux l p q u) :
    u.tasks = s.tasks ∧ u.nextAux = s.nextAux ∧ q ≠ .received := by
  cases h with
  | handled newfid response =>
    refine ⟨rfl, rfl, ?_⟩
    unfold afterHandler
    split
    · simp
    · cases newfid <;> simp [afterClunk]
  | clunked fid newfid response hu =>
    refine ⟨rfl, rfl, ?_⟩
    cases newfid <;> simp [afterClunk]
  | _ => exact ⟨rfl, rfl, by simp [rlerrorOf]⟩

theorem fresh_taskStep {l : Label W} (h : s.Fresh) (hs : s.Consistent)
    (ht : s.tasks[i]? = some ⟨msg, aux, p⟩) (hstep : TaskStep fs s i msg aux l p q u) :
    (u.setPhase i q).Fresh := by
  obtain ⟨htasks, hnext, hq⟩ := nextAux_of_taskStep hstep
  refine fresh_setPhase h ht htasks hnext hq fun f b hb => ?_
  have hp : p.Consistent msg aux := hs.phase i msg aux p ht
  cases hstep with
  | clunked fid newfid response hu =>
    rw [FidTable.get_remove] at hb
    split_ifs at hb
    exact .inl hb
  | inserted newfid response hu =>
    rw [FidTable.get_insert] at hb
    split_ifs at hb
    · cases hb
      exact .inr (aux_of_newFid hp)
    · exact .inl hb
  | _ => exact .inl hb

theorem made_of_step {l : Label W} (hstep : step fs s l = some t) (h : Made s a) : Made t a := by
  cases connStep_of_step hstep with
  | spawned frame msg rest hr hm => exact h.spawn msg
  | undecodable frame e hm => exact ⟨h.lt, h.made⟩
  | hungUp => exact ⟨h.lt, h.made⟩
  | ticked e world hw => exact ⟨h.lt, h.made⟩
  | task i msg aux p q l u ht htask =>
    obtain ⟨htasks, hnext, hq⟩ := nextAux_of_taskStep htask
    exact h.setPhase htasks hnext hq

theorem fresh_step {l : Label W} (h : s.Fresh) (hs : s.Consistent)
    (hstep : step fs s l = some t) : t.Fresh := by
  have hsame : ∀ u : Conn W, u.tasks = s.tasks → u.fids = s.fids → u.nextAux = s.nextAux →
      u.Fresh := by
    intro u htasks hfids hnext
    refine ⟨htasks ▸ h.nodup, ?_, fun f b hb => ?_⟩
    · rw [htasks, hnext]
      exact h.lt
    · obtain ⟨hlt, hmade⟩ := h.table f b (hfids ▸ hb)
      exact ⟨hnext ▸ hlt, htasks ▸ hmade⟩
  cases connStep_of_step hstep with
  | spawned frame msg rest hr hm => exact fresh_spawn h msg
  | undecodable frame e hm => exact hsame _ rfl rfl rfl
  | hungUp => exact hsame _ rfl rfl rfl
  | ticked e world hw => exact hsame _ rfl rfl rfl
  | task i msg aux p q l u ht htask => exact fresh_taskStep h hs ht htask

theorem fresh_start (nextAux : ObjId) (world : W.State) :
    (Conn.start (W := W) .new nextAux world).Fresh := by
  refine ⟨List.nodup_nil, by simp [Conn.start], fun f b hb => ?_⟩
  cases hb

end P9cpu.Ninep
