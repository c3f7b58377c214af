import P9cpu.Ninep.Srv
import P9cpu.Ninep.RoundTrip

/-! What one step of a connection can do, and what a task keeps while others run. -/
namespace P9cpu.Ninep
open Core

variable {Op : Type} {Res : Op → Type} {W : World Op Res}

namespace Conn

@[simp] theorem setPhase_fids (s : Conn W) (i : ℕ) (p : Phase Op Res) :
    (s.setPhase i p).fids = s.fids := rfl

@[simp] theorem setPhase_world (s : Conn W) (i : ℕ) (p : Phase Op Res) :
    (s.setPhase i p).world = s.world := rfl

@[simp] theorem setPhase_nextAux (s : Conn W) (i : ℕ) (p : Phase Op Res) :
    (s.setPhase i p).nextAux = s.nextAux := rfl

@[simp] theorem setPhase_written (s : Conn W) (i : ℕ) (p : Phase Op Res) :
    (s.setPhase i p).written = s.written := rfl

@[simp] theorem setPhase_length (s : Conn W) (i : ℕ) (p : Phase Op Res) :
    (s.setPhase i p).tasks.length = s.tasks.length := by
  simp [setPhase]

theorem setPhase_task (s : Conn W) (i j : ℕ) (p : Phase Op Res) :
    (s.setPhase i p).tasks[j]? =
      if i = j then s.tasks[j]?.map (fun t => { t with phase := p }) else s.tasks[j]? := by
  simp only [setPhase, List.getElem?_modify]
  split <;> simp

theorem setPhase_self {s : Conn W} {i : ℕ} {msg : Msg} {aux : ObjId} {p : Phase Op Res}
    (h : s.tasks[i]? = some ⟨msg, aux, p⟩) : s.setPhase i p = s := by
  have htasks : s.tasks.modify i (fun t => { t with phase := p }) = s.tasks := by
    apply List.ext_getElem?
    intro j
    rw [List.getElem?_modify]
    by_cases hj : i = j
    · subst hj
      simp [h]
    · simp [hj]
  cases s
  simp_all [setPhase]

theorem setPhase_setPhase (s : Conn W) (i : ℕ) (p q : Phase Op Res) :
    (s.setPhase i p).setPhase i q = s.setPhase i q := by
  simp only [setPhase, List.modify_modify_eq]
  rfl

/-! Properties of all tasks. -/

/-- `R` holds of every task: of its request, its object and its phase. -/
def All (R : Msg → ObjId → Phase Op Res → Prop) (s : Conn W) : Prop :=
  ∀ (i : ℕ) (msg : Msg) (aux : ObjId) (p : Phase Op Res),
    s.tasks[i]? = some ⟨msg, aux, p⟩ → R msg aux p

variable {R : Msg → ObjId → Phase Op Res → Prop} {s u : Conn W}

theorem spawn_task {i : ℕ} {msg m : Msg} {aux : ObjId} {p : Phase Op Res}
    (h : (s.spawn msg).tasks[i]? = some ⟨m, aux, p⟩) :
    s.tasks[i]? = some ⟨m, aux, p⟩ ∨
      i = s.tasks.length ∧ m = msg ∧ aux = s.nextAux ∧ p = .received := by
  rcases getElem?_concat_cases h with hold | ⟨hlast, hnew⟩
  · exact .inl hold
  · exact .inr ⟨hlast, Task.mk.inj hnew⟩

theorem task_spawn {i : ℕ} {t : Task Op Res} (msg : Msg) (h : s.tasks[i]? = some t) :
    (s.spawn msg).tasks[i]? = some t := by
  rw [spawn, List.getElem?_append_left (List.getElem?_eq_some_iff.mp h).1, h]

theorem setPhase_task_self {i : ℕ} {msg : Msg} {aux : ObjId} {p q : Phase Op Res}
    (htasks : u.tasks = s.tasks) (ht : s.tasks[i]? = some ⟨msg, aux, p⟩) :
    (u.setPhase i q).tasks[i]? = some ⟨msg, aux, q⟩ := by
  rw [setPhase_task, if_pos rfl, htasks, ht]
  rfl

theorem setPhase_task_of_ne {i j : ℕ} (q : Phase Op Res) (htasks : u.tasks = s.tasks)
    (hij : i ≠ j) : (u.setPhase i q).tasks[j]? = s.tasks[j]? := by
  rw [setPhase_task, if_neg hij, htasks]

/-- A task is the one that went on, or as it was. -/
theorem task_setPhase {i j : ℕ} {msg m : Msg} {aux a : ObjId} {p q r : Phase Op Res}
    (htasks : u.tasks = s.tasks) (ht : s.tasks[i]? = some ⟨msg, aux, p⟩)
    (hj : (u.setPhase i q).tasks[j]? = some ⟨m, a, r⟩) :
    (j = i ∧ m = msg ∧ a = aux ∧ r = q) ∨ (j ≠ i ∧ s.tasks[j]? = some ⟨m, a, r⟩) := by
  by_cases hji : j = i
  · subst hji
    rw [setPhase_task_self htasks ht] at hj
    cases hj
    exact .inl ⟨rfl, rfl, rfl, rfl⟩
  · rw [setPhase_task_of_ne q htasks (Ne.symm hji)] at hj
    exact .inr ⟨hji, hj⟩

theorem All.spawn (h : s.All R) {msg : Msg} (hm : R msg s.nextAux .received) :
    (s.spawn msg).All R := by
  intro i m aux p ht
  obtain ht | ⟨-, rfl, rfl, rfl⟩ := spawn_task ht
  · exact h i m aux p ht
  · exact hm

theorem All.setPhase (h : s.All R) {i : ℕ} {msg : Msg} {aux : ObjId} {p q : Phase Op Res}
    (htasks : u.tasks = s.tasks) (ht : s.tasks[i]? = some ⟨msg, aux, p⟩) (hq : R msg aux q) :
    (u.setPhase i q).All R := by
  intro j m a r hj
  rcases task_setPhase htasks ht hj with ⟨rfl, rfl, rfl, rfl⟩ | ⟨-, hj⟩
  · exact hq
  · exact h j m a r hj

end Conn

/-- The steps of one task `t`, number `i`, on the connection state `s`: its next phase and
the state in which it is stored. -/
inductive TaskStep (fs : Filesystem Op Res) (s : Conn W) (i : ℕ) (msg : Msg) (aux : ObjId) :
    Label W → Phase Op Res → Phase Op Res → Conn W → Prop
  | routed (handler : Handler Op Res Fcall)
      (h : route fs s.fids (newFid msg.body aux) msg.body = .ok handler) :
      TaskStep fs s i msg aux (.lookup i) .received
        (.handling (newFid msg.body aux) handler.run)
        { s with world := if (newFid msg.body aux).isSome then W.create aux s.world else s.world }
  | refused (e : Error)
      (h : route fs s.fids (newFid msg.body aux) msg.body = .error (.error e)) :
      TaskStep fs s i msg aux (.lookup i) .received (.replying (rlerrorOf e))
        { s with world := if (newFid msg.body aux).isSome then W.create aux s.world else s.world }
  | ran (newfid : Option Fid) (o : Op) (k : Res o → Prog Op Res (Except Error Fcall)) (r : Res o)
      (world : W.State) (h : W.exec o s.world = some (r, world)) :
      TaskStep fs s i msg aux (.run i) (.handling newfid (.op o k)) (.handling newfid (k r))
        { s with world := world }
  | failed (newfid : Option Fid) (e : Error) :
      TaskStep fs s i msg aux (.finish i) (.handling newfid (.ret (.error e)))
        (.replying (rlerrorOf e)) s
  | handled (newfid : Option Fid) (response : Fcall) :
      TaskStep fs s i msg aux (.finish i) (.handling newfid (.ret (.ok response)))
        (afterHandler msg.body newfid response) s
  | clunked (fid : UInt32) (newfid : Option Fid) (response : Fcall) (h : s.unlocked = true) :
      TaskStep fs s i msg aux (.clunk i) (.clunking fid newfid response)
        (afterClunk newfid response) { s with fids := s.fids.remove fid }
  | inserted (newfid : Fid) (response : Fcall) (h : s.unlocked = true) :
      TaskStep fs s i msg aux (.insert i) (.inserting newfid response) (.replying response)
        { s with fids := s.fids.insert newfid }
  | skipped (response : Fcall) (h : response.msgType.isR = false) :
      TaskStep fs s i msg aux (.send i) (.replying response) .done s
  | sent (response : Fcall) (h : response.msgType.isR = true)
      (hlen : (wire (⟨msg.tag, response⟩ : Msg)).length ≤ maxFrameLen) :
      TaskStep fs s i msg aux (.send i) (.replying response) .done
        { s with written := s.written ++ [(i, ⟨msg.tag, response⟩)] }
  | tooLong (response : Fcall) (h : response.msgType.isR = true)
      (hlen : maxFrameLen < (wire (⟨msg.tag, response⟩ : Msg)).length) :
      TaskStep fs s i msg aux (.send i) (.replying response) .panicked s

/-- The steps of a connection. -/
inductive ConnStep (fs : Filesystem Op Res) (s : Conn W) : Label W → Conn W → Prop
  | spawned (frame : List UInt8) (msg : Msg) (rest : List UInt8) (hr : s.reading = true)
      (h : readMsg frame = .ok (msg, rest)) : ConnStep fs s (.recv frame) (s.spawn msg)
  | undecodable (frame : List UInt8) (e : IoError) (h : readMsg frame = .error e) :
      ConnStep fs s (.recv frame) { s with reading := false }
  | hungUp : ConnStep fs s .hangup { s with reading := false }
  | task (i : ℕ) (msg : Msg) (aux : ObjId) (p q : Phase Op Res) (l : Label W) (u : Conn W)
      (ht : s.tasks[i]? = some ⟨msg, aux, p⟩) (h : TaskStep fs s i msg aux l p q u) :
      ConnStep fs s l (u.setPhase i q)
  | ticked (e : W.Event) (world : W.State) (h : W.tick e s.world = some world) :
      ConnStep fs s (.world e) { s with world := world }

theorem connStep_of_step {fs : Filesystem Op Res} {s t : Conn W} {l : Label W}
    (h : step fs s l = some t) : ConnStep fs s l t := by
  cases l with
  | recv frame =>
    simp only [step] at h
    split_ifs at h with hr
    cases hm : readMsg frame with
    | ok x =>
      simp only [hm, Option.some.injEq] at h
      subst h
      exact .spawned frame x.1 x.2 hr hm
    | error e =>
      simp only [hm, Option.some.injEq] at h
      subst h
      exact .undecodable frame e hm
  | hangup =>
    simp only [step] at h
    split_ifs at h
    cases h
    exact .hungUp
  | lookup i =>
    simp only [step] at h
    split at h
    next msg aux ht =>
      split at h
      next handler hroute =>
        cases h
        exact .task i msg aux _ _ _ _ ht (.routed handler hroute)
      next e hroute =>
        cases h
        exact .task i msg aux _ _ _ _ ht (.refused e hroute)
      next hroute => exact absurd hroute (route_ne_panic fs s.fids msg.body aux)
    · cases h
  | run i =>
    simp only [step] at h
    split at h
    next msg aux newfid o k ht =>
      split at h
      next r world hexec =>
        cases h
        exact .task i msg aux _ _ _ _ ht (.ran newfid o k r world hexec)
      · cases h
    · cases h
  | finish i =>
    simp only [step] at h
    split at h
    next msg aux newfid e ht =>
      cases h
      exact .task i msg aux _ _ _ _ ht (.failed newfid e)
    next msg aux newfid response ht =>
      cases h
      exact .task i msg aux _ _ _ _ ht (.handled newfid response)
    · cases h
  | clunk i =>
    simp only [step] at h
    split at h
    next msg aux fid newfid response ht =>
      split_ifs at h with hu
      cases h
      exact .task i msg aux _ _ _ _ ht (.clunked fid newfid response hu)
    · cases h
  | insert i =>
    simp only [step] at h
    split at h
    next msg aux newfid response ht =>
      split_ifs at h with hu
      cases h
      exact .task i msg aux _ _ _ _ ht (.inserted newfid response hu)
    · cases h
  | send i =>
    simp only [step] at h
    split at h
    next msg aux response ht =>
      split_ifs at h with hr
      · simp only [writeMsg_vec, List.nil_append] at h
        split_ifs at h with hlen
        · cases h
          exact .task i msg aux _ _ _ _ ht (.tooLong response hr hlen)
        · cases h
          exact .task i msg aux _ _ _ _ ht (.sent response hr (not_lt.mp hlen))
      · cases h
        exact .task i msg aux _ _ _ _ ht (.skipped response (by simpa using hr))
    · cases h
  | world e =>
    obtain ⟨world, hw, rfl⟩ := Option.map_eq_some_iff.mp h
    exact .ticked e world hw

/-- A handler whose operations never wait runs to its end when nothing comes between. -/
theorem runs_handler (fs : Filesystem Op Res) {s : Conn W} {i : ℕ} {msg : Msg} {aux : ObjId}
    {newfid : Option Fid} {p : Prog Op Res (Except Error Fcall)} {r : Except Error Fcall}
    {world : W.State} (ht : s.tasks[i]? = some ⟨msg, aux, .handling newfid p⟩)
    (hp : p.run? W.exec s.world = some (r, world)) :
    ∃ n, runs (step fs) s (List.replicate n (.run i)) =
      some ({ s with world := world }.setPhase i (.handling newfid (.ret r))) := by
  induction p generalizing s with
  | ret a =>
    cases hp
    exact ⟨0, congrArg some (Conn.setPhase_self ht).symm⟩
  | op o k ih =>
    obtain ⟨⟨a, w⟩, hexec, hk⟩ := Option.bind_eq_some_iff.mp hp
    let t : Conn W := { s with world := w }.setPhase i (.handling newfid (k a))
    have hstep : step fs s (.run i) = some t := by
      simp only [step, ht, hexec]
      rfl
    have htask : t.tasks[i]? = some ⟨msg, aux, .handling newfid (k a)⟩ := by
      rw [Conn.setPhase_task, if_pos rfl]
      simp [ht]
    obtain ⟨n, hn⟩ := ih a htask hk
    refine ⟨n + 1, ?_⟩
    rw [List.replicate_succ, runs_cons, hstep, Option.bind_some, hn]
    exact congrArg some (Conn.setPhase_setPhase { s with world := world } i _ _)

/-- The request that a label hands to the connection. -/
def Label.request : Label W → Option Msg
  | .recv frame =>
    match readMsg frame with
    | .ok (msg, _) => some msg
    | .error _ => none
  | _ => none

/-- The requests that were decoded, in the order of their arrival. -/
def requests (ls : List (Label W)) : List Msg :=
  ls.filterMap Label.request

/-- A connection on which nothing was received yet. -/
def Conn.start (fids : FidTable)
    (nextAux : ObjId) (world : W.State) : Conn W where
  fids := fids
  nextAux := nextAux
  world := world
  reading := true
  tasks := []
  written := []

variable {fs : Filesystem Op Res}

theorem setPhase_map_msg (s : Conn W) (i : ℕ) (p : Phase Op Res) :
    (s.setPhase i p).tasks.map Task.msg = s.tasks.map Task.msg := by
  apply List.ext_getElem?
  intro j
  simp only [List.getElem?_map, Conn.setPhase_task]
  split_ifs
  · cases s.tasks[j]? <;> rfl
  · rfl

theorem map_msg_of_step {s t : Conn W} {l : Label W} (h : step fs s l = some t) :
    t.tasks.map Task.msg = s.tasks.map Task.msg ++ requests [l] := by
  cases connStep_of_step h with
  | spawned frame msg rest hr hm => simp [Conn.spawn, requests, Label.request, hm]
  | undecodable frame e hm => simp [requests, Label.request, hm]
  | hungUp => simp [requests, Label.request]
  | ticked e world hw => simp [requests, Label.request]
  | task i msg aux p q l u ht hstep =>
    have htasks : u.tasks = s.tasks := by cases hstep <;> rfl
    have hnone : requests [l] = [] := by cases hstep <;> rfl
    rw [setPhase_map_msg, htasks, hnone, List.append_nil]

theorem map_msg_of_run {s t : Conn W} {ls : List (Label W)} (h : runs (step fs) s ls = some t) :
    t.tasks.map Task.msg = s.tasks.map Task.msg ++ requests ls := by
  induction ls generalizing s with
  | nil =>
    cases h
    simp [requests]
  | cons l ls ih =>
    obtain ⟨u, hu, hr⟩ := runs_cons_eq_some.mp h
    rw [ih hr, map_msg_of_step hu, List.append_assoc, requests, requests, requests,
      ← List.filterMap_append, List.singleton_append]

end P9cpu.Ninep
