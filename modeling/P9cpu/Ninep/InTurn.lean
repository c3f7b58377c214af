import P9cpu.Ninep.Clobber
import P9cpu.Ninep.Confine
import P9cpu.Ninep.Rename

/-! Requests that do not overlap: a connection serves them as `dispatch_once` does when it is called
for one after the other. -/
namespace P9cpu.Ninep
open Core

section
variable {Op : Type} {Res : Op → Type}

/-- What the tasks share, as a handler sees it beside which nothing runs. -/
structure Alone (W : World Op Res) (b : Backend Op Res) where
  abs : W.State → b.State
  create : ∀ a w, abs (W.create a w) = b.create a (abs w)
  exec : ∀ o w r w', W.exec o w = some (r, w') → b.exec o (abs w) = (r, abs w')
  tick : ∀ e w w', W.tick e w = some w' → abs w' = abs w

/-- The response that `dispatch` makes of the result of `dispatch_once`. -/
def resultOf : Except Abort Fcall → Option Fcall
  | .ok response => some response
  | .error (.error e) => some (rlerrorOf e)
  | .error .panic => none

/-- What is written for a response. -/
def replyTo (i : ℕ) (msg : Msg) (response : Fcall) : List (ℕ × Msg) :=
  if response.msgType.isR ∧ (wire (⟨msg.tag, response⟩ : Msg)).length ≤ maxFrameLen then
    [(i, ⟨msg.tag, response⟩)]
  else []

variable (fs : Filesystem Op Res) (b : Backend Op Res)

/-- The replies to requests that come one after the other, the first of them number `i`. -/
def repliesTo (i : ℕ) (s : Server b.State) : List Msg → List (ℕ × Msg)
  | [] => []
  | msg :: msgs =>
    (resultOf (dispatchOnce fs b msg s).1).toList.flatMap (replyTo i msg) ++
      repliesTo (i + 1) (dispatchOnce fs b msg s).2 msgs

variable {fs b} {s₀ s : Server b.State} {msg : Msg}

theorem repliesTo_snoc (i : ℕ) (msgs : List Msg) :
    repliesTo fs b i s₀ (msgs ++ [msg]) = repliesTo fs b i s₀ msgs ++
      (resultOf (dispatchOnce fs b msg (serve fs b s₀ msgs)).1).toList.flatMap
        (replyTo (i + msgs.length) msg) := by
  induction msgs generalizing i s₀ with
  | nil => simp [repliesTo]
  | cons m msgs ih =>
    have hrest := @ih (dispatchOnce fs b m s₀).2 (i + 1)
    have hi : i + 1 + msgs.length = i + (m :: msgs).length := by
      rw [List.length_cons]
      omega
    rw [hi] at hrest
    rw [List.cons_append, repliesTo, hrest, repliesTo, List.append_assoc]
    rfl

@[simp] theorem dispatchOnce_nextAux : (dispatchOnce fs b msg s).2.nextAux = s.nextAux + 1 := by
  cases hroute : route fs s.fids (newFid msg.body s.nextAux) msg.body with
  | error a => simp only [dispatchOnce, hroute]
  | ok handler =>
    cases hrun : handler.run.run b.exec (s.created b msg.body) with
    | mk r world =>
      unfold Server.created at hrun
      cases r with
      | ok response => simp only [dispatchOnce, hroute, hrun]
      | error e => simp only [dispatchOnce, hroute, hrun]

theorem serve_nextAux (msgs : List Msg) :
    (serve fs b s₀ msgs).nextAux = s₀.nextAux + msgs.length := by
  induction msgs using List.reverseRecOn with
  | nil => rfl
  | append_singleton msgs msg ih =>
    rw [serve_snoc, dispatchOnce_nextAux, ih, List.length_append, List.length_singleton,
      Nat.add_assoc]

variable (fs b)

/-- How far the request is that the server `s` gets next: the table and the world when its task is
in a phase. -/
def At (s : Server b.State) (msg : Msg) (fids : FidTable) (world : b.State) :
    Phase Op Res → Prop
  | .received => fids = s.fids ∧ world = s.world
  | .handling newfid p => newfid = newFid msg.body s.nextAux ∧ fids = s.fids ∧
      ∃ handler, route fs s.fids newfid msg.body = .ok handler ∧
        p.run b.exec world = handler.run.run b.exec (s.created b msg.body)
  | .clunking fid newfid response => msg.body = .tclunk fid ∧ newfid = none ∧ fids = s.fids ∧
      (dispatchOnce fs b msg s).1 = .ok response ∧
      (dispatchOnce fs b msg s).2.fids = fids.remove fid ∧
      (dispatchOnce fs b msg s).2.world = world
  | .inserting newfid response => (dispatchOnce fs b msg s).1 = .ok response ∧
      (dispatchOnce fs b msg s).2.fids = fids.insert newfid ∧
      (dispatchOnce fs b msg s).2.world = world
  | .replying response => resultOf (dispatchOnce fs b msg s).1 = some response ∧
      (dispatchOnce fs b msg s).2.fids = fids ∧ (dispatchOnce fs b msg s).2.world = world
  | .done | .panicked => False

variable {fs b} {fids : FidTable} {world : b.State}

theorem at_afterClunk {newfid : Option Fid} {response : Fcall}
    (hok : (dispatchOnce fs b msg s).1 = .ok response)
    (hfids : (dispatchOnce fs b msg s).2.fids = newfid.elim fids fids.insert)
    (hworld : (dispatchOnce fs b msg s).2.world = world) :
    At fs b s msg fids world (afterClunk newfid response) := by
  cases newfid with
  | none => exact ⟨by rw [hok]; rfl, hfids, hworld⟩
  | some newfid => exact ⟨hok, hfids, hworld⟩

theorem updateFids_of_ne {body : Fcall} (h : ∀ fid, body ≠ .tclunk fid) (newfid : Option Fid) :
    updateFids fids body newfid = newfid.elim fids fids.insert := by
  unfold updateFids
  split
  · exact absurd rfl (h _)
  · cases newfid <;> rfl

theorem afterHandler_of_ne {body : Fcall} (h : ∀ fid, body ≠ .tclunk fid) (newfid : Option Fid)
    (response : Fcall) :
    (afterHandler body newfid response : Phase Op Res) = afterClunk newfid response := by
  unfold afterHandler
  split
  · exact absurd rfl (h _)
  · rfl

theorem at_afterHandler {newfid : Option Fid} {response : Fcall}
    (hat : At fs b s msg fids world (.handling newfid (.ret (.ok response)))) :
    At fs b s msg fids world (afterHandler msg.body newfid response) := by
  obtain ⟨rfl, rfl, handler, hroute, hrun⟩ := hat
  obtain ⟨hok, hfids, hworld⟩ := dispatchOnce_ok hroute hrun.symm
  by_cases hclunk : ∃ fid, msg.body = .tclunk fid
  · obtain ⟨fid, hbody⟩ := hclunk
    rw [hbody] at hfids ⊢
    exact ⟨hbody, rfl, rfl, hok, hfids, hworld⟩
  · have hne : ∀ fid, msg.body ≠ .tclunk fid := fun fid hbody => hclunk ⟨fid, hbody⟩
    rw [afterHandler_of_ne hne]
    rw [updateFids_of_ne hne] at hfids
    exact at_afterClunk hok hfids hworld

theorem at_failed {newfid : Option Fid} {e : Error}
    (hat : At fs b s msg fids world (.handling newfid (.ret (.error e)))) :
    At fs b s msg fids world (.replying (rlerrorOf e)) := by
  obtain ⟨rfl, rfl, handler, hroute, hrun⟩ := hat
  obtain ⟨herror, hfids, hworld⟩ := dispatchOnce_error hroute hrun.symm
  exact ⟨by rw [herror]; rfl, hfids, hworld⟩

/-! A connection whose requests do not overlap. -/

variable {W : World Op Res} (R : Alone W b)

/-- A request is looked up when the tasks of the requests before it have ended. -/
def InTurn (c : Conn W) : Label W → Prop
  | .lookup i => ∀ task ∈ c.tasks.take i, task.phase.ended = true
  | _ => True

instance InTurn.decidable (c : Conn W) : (l : Label W) → Decidable (InTurn c l)
  | .lookup i => inferInstanceAs (Decidable (∀ task ∈ c.tasks.take i, task.phase.ended = true))
  | .recv _ | .hangup | .run _ | .finish _ | .clunk _ | .insert _ | .send _ | .world _ =>
    .isTrue True.intro

/-- The requests of the first `n` tasks. -/
def Conn.first (c : Conn W) (n : ℕ) : List Msg := (c.tasks.map Task.msg).take n

/-- The first `n` requests have been served one after the other, and the next one is on its way. -/
structure Serves (fs : Filesystem Op Res) (s₀ : Server b.State) (n : ℕ) (c : Conn W) : Prop where
  le : n ≤ c.tasks.length
  nextAux : c.nextAux = s₀.nextAux + c.tasks.length
  aux : ∀ j msg aux p, c.tasks[j]? = some ⟨msg, aux, p⟩ → aux = s₀.nextAux + j
  before : ∀ j task, c.tasks[j]? = some task → j < n → task.phase.ended = true
  behind : ∀ j msg aux p, c.tasks[j]? = some ⟨msg, aux, p⟩ → n < j → p = .received
  written : c.written = repliesTo fs b 0 s₀ (c.first n)
  idle : c.tasks[n]? = none → c.fids = (serve fs b s₀ (c.first n)).fids ∧
    R.abs c.world = (serve fs b s₀ (c.first n)).world
  current : ∀ msg aux p, c.tasks[n]? = some ⟨msg, aux, p⟩ →
    At fs b (serve fs b s₀ (c.first n)) msg c.fids (R.abs c.world) p

variable {R} {c u t : Conn W} {n i : ℕ} {aux : ObjId} {p q : Phase Op Res}
  {response : Fcall}

theorem first_spawn (h : n ≤ c.tasks.length) (msg : Msg) : (c.spawn msg).first n = c.first n := by
  unfold Conn.first Conn.spawn
  rw [List.map_append, List.take_append_of_le_length]
  rwa [List.length_map]

theorem first_setPhase (htasks : u.tasks = c.tasks) (i : ℕ) (q : Phase Op Res) :
    (u.setPhase i q).first n = c.first n := by
  unfold Conn.first
  rw [setPhase_map_msg, htasks]

theorem first_succ (ht : c.tasks[n]? = some ⟨msg, aux, p⟩) :
    c.first (n + 1) = c.first n ++ [msg] := by
  unfold Conn.first
  rw [List.take_add_one, List.getElem?_map, ht]
  rfl

theorem length_first (h : n ≤ c.tasks.length) : (c.first n).length = n := by
  unfold Conn.first
  rw [List.length_take, List.length_map]
  omega

theorem serves_spawn (hs : Serves R fs s₀ n c) (msg : Msg) : Serves R fs s₀ n (c.spawn msg) := by
  have hlen : (c.spawn msg).tasks.length = c.tasks.length + 1 := by simp [Conn.spawn]
  have hfirst := first_spawn hs.le msg
  refine ⟨?_, ?_, ?_, ?_, ?_, ?_, ?_, ?_⟩
  · have hle := hs.le
    omega
  · rw [hlen, ← Nat.add_assoc, ← hs.nextAux]
    rfl
  · intro j m a p hj
    obtain hold | ⟨rfl, rfl, rfl, rfl⟩ := Conn.spawn_task hj
    · exact hs.aux j m a p hold
    · exact hs.nextAux
  · intro j task hj hlt
    cases task with
    | mk m a p =>
      obtain hold | ⟨rfl, rfl, rfl, rfl⟩ := Conn.spawn_task hj
      · exact hs.before j _ hold hlt
      · exact absurd hs.le (not_le.mpr hlt)
  · intro j m a p hj hlt
    obtain hold | ⟨-, -, -, rfl⟩ := Conn.spawn_task hj
    · exact hs.behind j m a p hold hlt
    · rfl
  · rw [hfirst]
    exact hs.written
  · intro hnone
    have hle := List.getElem?_eq_none_iff.mp hnone
    have hn := hs.le
    omega
  · intro m a p hn
    rw [hfirst]
    obtain hold | ⟨rfl, rfl, rfl, rfl⟩ := Conn.spawn_task hn
    · exact hs.current m a p hold
    · exact hs.idle (List.getElem?_eq_none_iff.mpr le_rfl)

theorem serves_setPhase (hs : Serves R fs s₀ n c) (htasks : u.tasks = c.tasks)
    (hnext : u.nextAux = c.nextAux) (hwritten : u.written = c.written)
    (ht : c.tasks[n]? = some ⟨msg, aux, p⟩)
    (hat : At fs b (serve fs b s₀ (c.first n)) msg u.fids (R.abs u.world) q) :
    Serves R fs s₀ n (u.setPhase n q) := by
  have hfirst : (u.setPhase n q).first n = c.first n := first_setPhase htasks n q
  have hlen : (u.setPhase n q).tasks.length = c.tasks.length := by
    rw [Conn.setPhase_length, htasks]
  refine ⟨?_, ?_, ?_, ?_, ?_, ?_, ?_, ?_⟩
  · rw [hlen]
    exact hs.le
  · rw [hlen, Conn.setPhase_nextAux, hnext]
    exact hs.nextAux
  · intro j m a r hj
    obtain ⟨rfl, rfl, rfl, rfl⟩ | ⟨-, hold⟩ := Conn.task_setPhase htasks ht hj
    · exact hs.aux _ _ _ _ ht
    · exact hs.aux j m a r hold
  · intro j ⟨m, a, r⟩ hj hlt
    obtain ⟨rfl, -, -, -⟩ | ⟨-, hold⟩ := Conn.task_setPhase htasks ht hj
    · exact absurd hlt (lt_irrefl _)
    · exact hs.before j _ hold hlt
  · intro j m a r hj hlt
    obtain ⟨rfl, -, -, -⟩ | ⟨-, hold⟩ := Conn.task_setPhase htasks ht hj
    · exact absurd hlt (lt_irrefl _)
    · exact hs.behind j m a r hold hlt
  · rw [hfirst, Conn.setPhase_written, hwritten]
    exact hs.written
  · intro hnone
    rw [Conn.setPhase_task_self htasks ht] at hnone
    cases hnone
  · intro m a r hj
    rw [Conn.setPhase_task_self htasks ht] at hj
    cases hj
    rw [hfirst]
    exact hat

/-- The task ends, and the next request is served by what `dispatch_once` has left. -/
theorem serves_end (hs : Serves R fs s₀ n c) (htasks : u.tasks = c.tasks)
    (hnext : u.nextAux = c.nextAux) (ht : c.tasks[n]? = some ⟨msg, aux, .replying response⟩)
    (hq : q.ended = true) (hfids : u.fids = c.fids) (hworld : u.world = c.world)
    (hwritten : u.written = c.written ++ replyTo n msg response) :
    Serves R fs s₀ (n + 1) (u.setPhase n q) := by
  have hat := hs.current msg aux _ ht
  obtain ⟨hresponse, hsfids, hsworld⟩ := hat
  have hlt := (List.getElem?_eq_some_iff.mp ht).1
  have hfirst : (u.setPhase n q).first (n + 1) = c.first n ++ [msg] := by
    rw [first_setPhase htasks, first_succ ht]
  have hlen : (u.setPhase n q).tasks.length = c.tasks.length := by
    rw [Conn.setPhase_length, htasks]
  have hserved : u.fids = (serve fs b s₀ (c.first n ++ [msg])).fids ∧
      R.abs u.world = (serve fs b s₀ (c.first n ++ [msg])).world := by
    rw [serve_snoc, hfids, hworld]
    exact ⟨hsfids.symm, hsworld.symm⟩
  refine ⟨?_, ?_, ?_, ?_, ?_, ?_, ?_, ?_⟩
  · rw [hlen]
    omega
  · rw [hlen, Conn.setPhase_nextAux, hnext]
    exact hs.nextAux
  · intro j m a r hj
    obtain ⟨rfl, rfl, rfl, rfl⟩ | ⟨-, hold⟩ := Conn.task_setPhase htasks ht hj
    · exact hs.aux _ _ _ _ ht
    · exact hs.aux j m a r hold
  · intro j ⟨m, a, r⟩ hj hle
    obtain ⟨-, -, -, rfl⟩ | ⟨hne, hold⟩ := Conn.task_setPhase htasks ht hj
    · exact hq
    · exact hs.before j _ hold (by omega)
  · intro j m a r hj hle
    obtain ⟨rfl, -, -, -⟩ | ⟨-, hold⟩ := Conn.task_setPhase htasks ht hj
    · omega
    · exact hs.behind j m a r hold (by omega)
  · rw [hfirst, Conn.setPhase_written, hwritten, repliesTo_snoc, hresponse, hs.written,
      length_first hs.le, Nat.zero_add]
    simp
  · intro _
    rw [hfirst]
    exact hserved
  · intro m a r hj
    obtain ⟨hne, -, -, -⟩ | ⟨-, hold⟩ := Conn.task_setPhase htasks ht hj
    · omega
    · obtain rfl := hs.behind _ m a r hold (by omega)
      rw [hfirst]
      exact hserved

theorem not_ended_of_at {s : Server b.State} {fids : FidTable} {world : b.State}
    (h : At fs b s msg fids world p) : p.ended = false := by
  cases p with
  | done | panicked => exact h.elim
  | _ => rfl

/-- Only the task of the next request goes on. -/
theorem task_of_taskStep (hs : Serves R fs s₀ n c) {l : Label W} (hturn : InTurn c l)
    (ht : c.tasks[i]? = some ⟨msg, aux, p⟩) (htask : TaskStep fs c i msg aux l p q u) : i = n := by
  have hended : p.ended = false := by cases htask <;> rfl
  obtain hlt | heq | hgt := Nat.lt_trichotomy i n
  · have hbefore := hs.before i _ ht hlt
    exact absurd (hended.symm.trans hbefore) (by simp)
  · exact heq
  · obtain rfl := hs.behind i msg aux p ht hgt
    have hn : n < c.tasks.length := lt_trans hgt (List.getElem?_eq_some_iff.mp ht).1
    obtain ⟨⟨m, a, r⟩, hcurrent⟩ : ∃ task, c.tasks[n]? = some task :=
      ⟨_, List.getElem?_eq_getElem hn⟩
    have hnot := not_ended_of_at (hs.current m a r hcurrent)
    obtain rfl : l = .lookup i := by cases htask <;> rfl
    have htake : (c.tasks.take i)[n]? = some ⟨m, a, r⟩ := by
      rw [List.getElem?_take_of_lt hgt, hcurrent]
    have hdone := hturn _ (List.mem_of_getElem? htake)
    exact absurd (hnot.symm.trans hdone) (by simp)

theorem serves_taskStep (hs : Serves R fs s₀ n c) {l : Label W}
    (ht : c.tasks[n]? = some ⟨msg, aux, p⟩) (htask : TaskStep fs c n msg aux l p q u) :
    ∃ m, Serves R fs s₀ m (u.setPhase n q) := by
  have hat := hs.current msg aux p ht
  have hnext : aux = (serve fs b s₀ (c.first n)).nextAux := by
    rw [serve_nextAux, length_first hs.le]
    exact hs.aux n msg aux p ht
  have hcreated : At fs b (serve fs b s₀ (c.first n)) msg c.fids (R.abs c.world) .received →
      R.abs (if (newFid msg.body aux).isSome then W.create aux c.world else c.world) =
        (serve fs b s₀ (c.first n)).created b msg.body := by
    intro hreceived
    unfold Server.created
    rw [← hnext, ← hreceived.2]
    split_ifs
    · exact R.create aux c.world
    · rfl
  cases htask with
  | routed handler hroute =>
    refine ⟨n, serves_setPhase hs rfl rfl rfl ht ?_⟩
    have hfids := hat.1
    rw [hfids] at hroute
    refine ⟨by rw [hnext], hfids, handler, hroute, ?_⟩
    rw [hcreated hat]
  | refused e hroute =>
    refine ⟨n, serves_setPhase hs rfl rfl rfl ht ?_⟩
    have hfids := hat.1
    rw [hfids, hnext] at hroute
    obtain ⟨herror, hsame, hworld⟩ := dispatchOnce_refused (b := b) hroute
    refine ⟨by rw [herror]; rfl, hsame.trans hfids.symm, ?_⟩
    rw [hworld, hcreated hat]
  | ran newfid o k r world hexec =>
    refine ⟨n, serves_setPhase hs rfl rfl rfl ht ?_⟩
    obtain ⟨hnew, hfids, handler, hroute, hrun⟩ := hat
    refine ⟨hnew, hfids, handler, hroute, ?_⟩
    rw [Prog.run_op, R.exec o c.world r world hexec] at hrun
    exact hrun
  | failed newfid e => exact ⟨n, serves_setPhase hs rfl rfl rfl ht (at_failed hat)⟩
  | handled newfid response =>
    exact ⟨n, serves_setPhase hs rfl rfl rfl ht (at_afterHandler hat)⟩
  | clunked fid newfid response hu =>
    obtain ⟨-, rfl, -, hok, hfids, hworld⟩ := hat
    exact ⟨n, serves_setPhase hs rfl rfl rfl ht (at_afterClunk hok hfids hworld)⟩
  | inserted newfid response hu =>
    obtain ⟨hok, hfids, hworld⟩ := hat
    exact ⟨n, serves_setPhase hs rfl rfl rfl ht ⟨by rw [hok]; rfl, hfids, hworld⟩⟩
  | skipped response hr =>
    refine ⟨n + 1, serves_end hs rfl rfl ht rfl rfl rfl ?_⟩
    simp [replyTo, hr]
  | sent response hr hlen =>
    refine ⟨n + 1, serves_end hs rfl rfl ht rfl rfl rfl ?_⟩
    rw [replyTo, if_pos ⟨hr, hlen⟩]
  | tooLong response hr hlen =>
    refine ⟨n + 1, serves_end hs rfl rfl ht rfl rfl rfl ?_⟩
    rw [replyTo, if_neg fun h => absurd h.2 (not_le.mpr hlen), List.append_nil]

theorem serves_turn (c : Conn W) (l : Label W) (t : Conn W) (hs : ∃ n, Serves R fs s₀ n c)
    (hturn : InTurn c l) (hstep : step fs c l = some t) : ∃ n, Serves R fs s₀ n t := by
  obtain ⟨n, hs⟩ := hs
  cases connStep_of_step hstep with
  | spawned frame msg rest hr hm => exact ⟨n, serves_spawn hs msg⟩
  | undecodable | hungUp =>
    exact ⟨n, hs.le, hs.nextAux, hs.aux, hs.before, hs.behind, hs.written, hs.idle, hs.current⟩
  | ticked e world hw =>
    have habs := R.tick e c.world world hw
    refine ⟨n, hs.le, hs.nextAux, hs.aux, hs.before, hs.behind, hs.written, ?_, ?_⟩
    · intro hnone
      rw [habs]
      exact hs.idle hnone
    · intro msg aux p ht
      rw [habs]
      exact hs.current msg aux p ht
  | task i msg aux p q l u ht htask =>
    obtain rfl := task_of_taskStep hs hturn ht htask
    exact serves_taskStep hs ht htask

theorem serves_first (s₀ : Server b.State) {world : W.State} (hworld : R.abs world = s₀.world) :
    Serves R fs s₀ 0 (.start s₀.fids s₀.nextAux world) where
  le := le_rfl
  nextAux := rfl
  aux _ _ _ _ hj := nomatch hj
  before _ _ hj := nomatch hj
  behind _ _ _ _ hj := nomatch hj
  written := rfl
  idle _ := ⟨rfl, hworld⟩
  current _ _ _ hj := nomatch hj

/-- When the tasks of a connection do not overlap, the table, the world and the replies are those of
`dispatch_once` called for one request after the other. -/
theorem served_in_turn (R : Alone W b) (s₀ : Server b.State) {world : W.State}
    (hworld : R.abs world = s₀.world) {ls : List (Label W)}
    (hr : runs (step fs) (.start s₀.fids s₀.nextAux world) ls = some c)
    (hturn : Along (step fs) InTurn (.start s₀.fids s₀.nextAux world) ls)
    (hend : ∀ task ∈ c.tasks, task.phase.ended = true) :
    c.fids = (serve fs b s₀ (requests ls)).fids ∧
      R.abs c.world = (serve fs b s₀ (requests ls)).world ∧
      c.written = repliesTo fs b 0 s₀ (requests ls) := by
  have hstart : ∃ n, Serves R fs s₀ n (Conn.start s₀.fids s₀.nextAux world) :=
    ⟨0, serves_first s₀ hworld⟩
  obtain ⟨n, hs⟩ := runs_invariant_along serves_turn hturn hr hstart
  have hmsgs : c.tasks.map Task.msg = requests ls := by
    simpa [Conn.start] using map_msg_of_run hr
  have hnone : c.tasks[n]? = none := by
    cases hn : c.tasks[n]? with
    | none => rfl
    | some task =>
      obtain ⟨msg, aux, p⟩ := task
      have hnot := not_ended_of_at (hs.current msg aux p hn)
      have hdone := hend _ (List.mem_of_getElem? hn)
      exact absurd (hnot.symm.trans hdone) (by simp)
  have hfirst : c.first n = requests ls := by
    unfold Conn.first
    rw [hmsgs, List.take_of_length_le]
    rw [← hmsgs, List.length_map]
    exact List.getElem?_eq_none_iff.mp hnone
  obtain ⟨hfids, habs⟩ := hs.idle hnone
  have hwritten := hs.written
  rw [hfirst] at hfids habs hwritten
  exact ⟨hfids, habs, hwritten⟩

end

/-! The host filesystem. -/

/-- A host that only the handlers of one connection call. -/
def Host.alone (h : Host) : SharedHost where
  State := h.State
  Event := Empty
  exec o s := some (h.exec o s)
  tick e _ := nomatch e

/-- The objects of fids without their locks. -/
def LockedObjs.unlock {σ : Type} (w : LockedObjs σ) : Host.Objs σ :=
  ⟨fun a => (w.objs a).toUnpfsFid, w.host⟩

theorem unlock_set {σ : Type} (w : LockedObjs σ) (a : ObjId) (fid : LockedFid) :
    (w.set a fid).unlock =
      { w.unlock with objs := Function.update w.unlock.objs a fid.toUnpfsFid } := by
  have hobjs : ∀ c, ((w.set a fid).objs c).toUnpfsFid =
      Function.update (fun c => (w.objs c).toUnpfsFid) a fid.toUnpfsFid c := by
    intro c
    by_cases hc : c = a
    · subst hc
      simp [LockedObjs.set]
    · simp [LockedObjs.set, hc]
  unfold LockedObjs.unlock
  simp only [hobjs]
  rfl

/-- What changes a lock only. -/
theorem unlock_set_of_eq {σ : Type} {w : LockedObjs σ} {a : ObjId} {fid : LockedFid}
    (h : fid.toUnpfsFid = (w.objs a).toUnpfsFid) : (w.set a fid).unlock = w.unlock := by
  rw [unlock_set, h]
  have hsame : Function.update w.unlock.objs a (w.objs a).toUnpfsFid = w.unlock.objs :=
    Function.update_eq_self a w.unlock.objs
  rw [hsame]

theorem exec_unlock {h : Host} {o : UnpfsOp} {w w' : LockedObjs h.alone.State} {r : UnpfsRes o}
    (hexec : h.alone.lockedExec o w = some (r, w')) :
    h.objsExec o w.unlock = (r, w'.unlock) := by
  cases o with
  | realpathRead a =>
    cases hexec
    rw [unlock_set_of_eq]
    · rfl
    · rfl
  | realpathUnread a =>
    cases hexec
    rw [unlock_set_of_eq]
    · rfl
    · rfl
  | realpathWrite a path =>
    simp only [SharedHost.lockedExec] at hexec
    split_ifs at hexec
    cases hexec
    rw [unlock_set]
    rfl
  | fileLock a =>
    simp only [SharedHost.lockedExec] at hexec
    split_ifs at hexec
    cases hexec
    rw [unlock_set_of_eq]
    · rfl
    · rfl
  | fileSet a file =>
    cases hexec
    rw [unlock_set]
    rfl
  | fileUnlock a =>
    cases hexec
    rw [unlock_set_of_eq]
    · rfl
    · rfl
  | host o =>
    cases hexec
    rfl

/-- While handlers run one after the other, the locks make no difference. -/
def Host.unlock (h : Host) : Alone h.alone.world h.backend where
  abs := LockedObjs.unlock
  create a w := unlock_set w a LockedFid.default
  exec _ _ _ _ := exec_unlock
  tick e := nomatch e

/-- `Tattach` of fid 1 and its `Tclunk`, the one looked up after the reply to the other. -/
def attachClunk : List (Label (dirHost [srv]).alone.world) :=
  [.recv [104, 1, 0, 1, 0, 0, 0, 255, 255, 255, 255, 0, 0, 0, 0, 0, 0, 0, 0],
    .recv [120, 2, 0, 1, 0, 0, 0], .lookup 0, .run 0, .run 0, .finish 0, .insert 0, .send 0,
    .lookup 1, .finish 1, .clunk 1, .send 1]

def noFids : Server (dirHost [srv]).backend.State :=
  .start (⟨fun _ => UnpfsFid.default, ()⟩ : Host.Objs Unit)

def noRequests : Conn (dirHost [srv]).alone.world :=
  .start .new 0 (⟨fun _ => LockedFid.default, ()⟩ : LockedObjs Unit)

theorem served_in_turn_attachClunk : ∃ c : Conn (dirHost [srv]).alone.world,
    runs (step (Unpfs srv)) noRequests attachClunk = some c ∧
      c.fids = (serve (Unpfs srv) (dirHost [srv]).backend noFids (requests attachClunk)).fids ∧
      c.fids.get 1 = none ∧ c.written.map Prod.fst = [0, 1] := by
  have hrun : (runs (step (Unpfs srv)) noRequests attachClunk).isSome = true := rfl
  have hget := (Option.some_get hrun).symm
  have hturn : Along (step (Unpfs srv)) InTurn noRequests attachClunk := by decide
  have hend : ((runs (step (Unpfs srv)) noRequests attachClunk).get hrun).tasks.all
      (fun task => task.phase.ended) = true := rfl
  have hserved := served_in_turn (dirHost [srv]).unlock noFids rfl hget hturn
    (List.all_eq_true.mp hend)
  exact ⟨_, hget, hserved.1, rfl, rfl⟩

end P9cpu.Ninep
