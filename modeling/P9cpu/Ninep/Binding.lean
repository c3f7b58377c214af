import P9cpu.Ninep.Conn

/-! A reply that was sent implies its effect on the fid table, for any filesystem and any
interleaving of the tasks of a connection. -/
namespace P9cpu.Ninep
open Core

variable {Op : Type} {Res : Op → Type} {W : World Op Res} {fs : Filesystem Op Res}

/-- What a phase carries belongs to the request of its task. -/
def Phase.Consistent (msg : Msg) (aux : ObjId) : Phase Op Res → Prop
  | .handling newfid _ => newfid = newFid msg.body aux
  | .clunking fid newfid _ => msg.body = .tclunk fid ∧ newfid = newFid msg.body aux
  | .inserting newfid _ => newFid msg.body aux = some newfid
  | _ => True

theorem consistent_afterHandler (msg : Msg) (aux : ObjId) (response : Fcall) :
    (afterHandler msg.body (newFid msg.body aux) response : Phase Op Res).Consistent msg aux := by
  have hafter :
      (afterClunk (newFid msg.body aux) response : Phase Op Res).Consistent msg aux := by
    cases h : newFid msg.body aux with
    | none => exact trivial
    | some newfid => exact h
  cases hb : msg.body with
  | tclunk fid => exact ⟨hb, by rw [hb]⟩
  | _ => simpa only [afterHandler, hb] using hafter

theorem consistent_taskStep {s u : Conn W} {i : ℕ} {msg : Msg} {aux : ObjId} {l : Label W}
    {p q : Phase Op Res} (h : TaskStep fs s i msg aux l p q u) (hp : p.Consistent msg aux) :
    q.Consistent msg aux := by
  cases h with
  | routed handler hroute => rfl
  | ran newfid o k r world hexec => exact hp
  | handled newfid response =>
    obtain rfl : newfid = newFid msg.body aux := hp
    exact consistent_afterHandler msg aux response
  | clunked fid newfid response hu =>
    obtain ⟨-, rfl⟩ := hp
    cases h : newFid msg.body aux with
    | none => exact trivial
    | some newfid => exact h
  | _ => exact trivial

/-- Every task is consistent, and a reply was written by a task of the connection. -/
structure Conn.Consistent (s : Conn W) : Prop where
  phase : s.All (fun msg aux p => p.Consistent msg aux)
  written : ∀ i m, (i, m) ∈ s.written → i < s.tasks.length

theorem consistent_step (s : Conn W) (l : Label W) (t : Conn W) (hs : s.Consistent)
    (h : step fs s l = some t) : t.Consistent := by
  cases connStep_of_step h with
  | spawned frame msg rest hr hm =>
    refine ⟨hs.phase.spawn trivial, fun i m hw => ?_⟩
    have hlt : i < s.tasks.length := hs.written i m hw
    simp only [Conn.spawn, List.length_append, List.length_singleton]
    omega
  | undecodable frame e hm => exact ⟨hs.phase, hs.written⟩
  | hungUp => exact ⟨hs.phase, hs.written⟩
  | ticked e world hw => exact ⟨hs.phase, hs.written⟩
  | task i msg aux p q l u ht hstep =>
    have htasks : u.tasks = s.tasks := by cases hstep <;> rfl
    have hq : q.Consistent msg aux := consistent_taskStep hstep (hs.phase i msg aux p ht)
    refine ⟨hs.phase.setPhase htasks ht hq, fun j m hw => ?_⟩
    rw [Conn.setPhase_length, htasks]
    rw [Conn.setPhase_written] at hw
    cases hstep with
    | sent response hr hlen =>
      obtain hw | hw := List.mem_append.mp hw
      · exact hs.written j m hw
      · obtain ⟨rfl, rfl⟩ : j = i ∧ m = ⟨msg.tag, response⟩ := by simpa using hw
        exact (List.getElem?_eq_some_iff.mp ht).1
    | _ => exact hs.written j m hw

theorem consistent_run {s : Conn W} {nextAux : ObjId} {world : W.State} {fids : FidTable}
    {ls : List (Label W)} (h : runs (step fs) (.start fids nextAux world) ls = some s) :
    s.Consistent := by
  refine runs_invariant consistent_step h ⟨?_, ?_⟩
  · intro i msg aux p ht
    simp [Conn.start] at ht
  · intro i m hw
    simp [Conn.start] at hw

def IsError (response : Fcall) : Prop := ∃ ecode, response = .rlerror ecode

/-- No request in `Q` is outstanding. -/
def Conn.Quiet (Q : Msg → Prop) (s : Conn W) : Prop :=
  s.All (fun msg _ p => Q msg → p.ended = true)

/-- Requests outside `Q` keep the property `P` of what the table has for `f`. -/
structure Keeps (f : UInt32) (P : Option Fid → Prop) (Q : Msg → Prop) : Prop where
  remove : ∀ (msg : Msg) (fid : UInt32) (t : FidTable), msg.body = .tclunk fid → ¬ Q msg →
    P (t.get f) → P ((t.remove fid).get f)
  insert : ∀ (msg : Msg) (aux : ObjId) (newfid : Fid) (t : FidTable),
    newFid msg.body aux = some newfid → ¬ Q msg → P (t.get f) → P ((t.insert newfid).get f)

/-- The request updates the table, and its update makes `P` hold. -/
structure Makes (f : UInt32) (P : Option Fid → Prop) (msg : Msg) (aux : ObjId) : Prop where
  updates : (∃ fid, msg.body = .tclunk fid) ∨ ∃ newfid, newFid msg.body aux = some newfid
  remove : ∀ (fid : UInt32) (t : FidTable), msg.body = .tclunk fid → P ((t.remove fid).get f)
  insert : ∀ (newfid : Fid) (t : FidTable), newFid msg.body aux = some newfid →
    P ((t.insert newfid).get f)

/-- Request `i` has its effect before its reply, and no outstanding request can undo it. -/
structure Effective (f : UInt32) (P : Option Fid → Prop) (Q : Msg → Prop) (i : ℕ) (msg : Msg)
    (aux : ObjId) (s : Conn W) : Prop where
  consistent : s.Consistent
  task : ∃ p, s.tasks[i]? = some ⟨msg, aux, p⟩ ∧
    ∀ response, p = .replying response → IsError response ∨ P (s.fids.get f)
  others : ∀ (j : ℕ) (m : Msg) (a : ObjId) (p : Phase Op Res), j ≠ i →
    s.tasks[j]? = some ⟨m, a, p⟩ → Q m → p.ended = true
  written : ∀ m, (i, m) ∈ s.written → IsError m.body ∨ P (s.fids.get f)

section
variable {f : UInt32} {P : Option Fid → Prop} {Q : Msg → Prop} {i : ℕ} {msg : Msg} {aux : ObjId}

/-- A step of another task does not undo the effect. -/
theorem keeps_taskStep (hkeep : Keeps f P Q) {s u : Conn W} {j : ℕ} {m : Msg} {a : ObjId}
    {l : Label W} {p q : Phase Op Res} (h : TaskStep fs s j m a l p q u)
    (hp : p.Consistent m a) (hend : Q m → p.ended = true) (hP : P (s.fids.get f)) :
    P (u.fids.get f) := by
  cases h with
  | clunked fid newfid response hu =>
    have hQ : ¬ Q m := fun hQ => by simpa [Phase.ended] using hend hQ
    exact hkeep.remove m fid s.fids hp.1 hQ hP
  | inserted newfid response hu =>
    have hQ : ¬ Q m := fun hQ => by simpa [Phase.ended] using hend hQ
    exact hkeep.insert m a newfid s.fids hp hQ hP
  | _ => exact hP

/-- The steps of the request itself: the table is updated before the reply is ready. -/
theorem makes_taskStep (hmake : Makes f P msg aux) {s u : Conn W} {l : Label W}
    {p q : Phase Op Res} (h : TaskStep fs s i msg aux l p q u) (hp : p.Consistent msg aux)
    (hreply : ∀ response, p = .replying response → IsError response ∨ P (s.fids.get f))
    (hw : ∀ m, (i, m) ∈ s.written → IsError m.body ∨ P (s.fids.get f)) :
    (∀ response, q = .replying response → IsError response ∨ P (u.fids.get f)) ∧
      ∀ m, (i, m) ∈ u.written → IsError m.body ∨ P (u.fids.get f) := by
  cases h with
  | routed handler hroute => exact ⟨fun _ h => (nomatch h), hw⟩
  | refused e hroute =>
    refine ⟨fun response h => ?_, hw⟩
    cases h
    exact .inl ⟨_, rfl⟩
  | ran newfid o k r world hexec => exact ⟨fun _ h => (nomatch h), hw⟩
  | failed newfid e =>
    refine ⟨fun response h => ?_, hw⟩
    cases h
    exact .inl ⟨_, rfl⟩
  | handled newfid response =>
    obtain rfl : newfid = newFid msg.body aux := hp
    refine ⟨fun r h => ?_, hw⟩
    obtain ⟨fid, hb⟩ | ⟨newfid, hn⟩ := hmake.updates
    · simp [afterHandler, hb] at h
    · cases hb : msg.body <;> rw [hn] at h <;> simp [afterHandler, hb, afterClunk] at h
  | clunked fid newfid response hu =>
    have hP := hmake.remove fid s.fids hp.1
    exact ⟨fun _ _ => .inr hP, fun _ _ => .inr hP⟩
  | inserted newfid response hu =>
    have hP := hmake.insert newfid s.fids hp
    exact ⟨fun _ _ => .inr hP, fun _ _ => .inr hP⟩
  | skipped response hr => exact ⟨fun _ h => (nomatch h), hw⟩
  | sent response hr hlen =>
    refine ⟨fun _ h => (nomatch h), fun m h => ?_⟩
    obtain h | h := List.mem_append.mp h
    · exact hw m h
    · obtain rfl : m = ⟨msg.tag, response⟩ := by simpa using h
      exact hreply response rfl
  | tooLong response hr hlen => exact ⟨fun _ h => (nomatch h), hw⟩

/-- A task that takes a step has not ended. -/
theorem not_ended_of_taskStep {s u : Conn W} {j : ℕ} {m : Msg} {a : ObjId} {l : Label W}
    {p q : Phase Op Res} (h : TaskStep fs s j m a l p q u) : p.ended = false := by
  cases h <;> rfl

theorem effective_step (hkeep : Keeps f P Q) (hmake : Makes f P msg aux) (s : Conn W)
    (l : Label W) (t : Conn W) (hs : Effective f P Q i msg aux s)
    (hl : ∀ m, l.request = some m → ¬ Q m) (h : step fs s l = some t) :
    Effective f P Q i msg aux t := by
  have hcons : t.Consistent := consistent_step s l t hs.consistent h
  obtain ⟨p, hp, hreply⟩ := hs.task
  cases connStep_of_step h with
  | spawned frame m rest hr hm =>
    refine ⟨hcons, ⟨p, Conn.task_spawn m hp, hreply⟩, fun j m' a r hj ht hQ => ?_, hs.written⟩
    obtain ht | ⟨-, rfl, -, -⟩ := Conn.spawn_task ht
    · exact hs.others j m' a r hj ht hQ
    · exact absurd hQ (hl m' (by simp [Label.request, hm]))
  | undecodable frame e hm => exact ⟨hcons, ⟨p, hp, hreply⟩, hs.others, hs.written⟩
  | hungUp => exact ⟨hcons, ⟨p, hp, hreply⟩, hs.others, hs.written⟩
  | ticked e world hw => exact ⟨hcons, ⟨p, hp, hreply⟩, hs.others, hs.written⟩
  | task j m a r q l u ht hstep =>
    have htasks : u.tasks = s.tasks := by cases hstep <;> rfl
    have hr : r.Consistent m a := hs.consistent.phase j m a r ht
    by_cases hij : j = i
    · subst hij
      obtain ⟨rfl, rfl, rfl⟩ : m = msg ∧ a = aux ∧ r = p := by simpa [ht] using hp
      obtain ⟨hq, hw⟩ := makes_taskStep hmake hstep hr hreply hs.written
      refine ⟨hcons, ⟨q, Conn.setPhase_task_self htasks ht, hq⟩, ?_, hw⟩
      intro k m' a' r' hk htk
      rw [Conn.setPhase_task_of_ne q htasks (Ne.symm hk)] at htk
      exact hs.others k m' a' r' hk htk
    · have hend : Q m → r.ended = true := hs.others j m a r hij ht
      have hP : ∀ response : Fcall, IsError response ∨ P (s.fids.get f) →
          IsError response ∨ P (u.fids.get f) :=
        fun response => Or.imp_right (keeps_taskStep hkeep hstep hr hend)
      refine ⟨hcons, ⟨p, ?_, fun response h => hP response (hreply response h)⟩, ?_, ?_⟩
      · rw [Conn.setPhase_task_of_ne q htasks hij]
        exact hp
      · intro k m' a' r' hk htk hQ
        rcases Conn.task_setPhase htasks ht htk with ⟨-, rfl, -, -⟩ | ⟨-, htk⟩
        · have hfalse := hend hQ
          rw [not_ended_of_taskStep hstep] at hfalse
          cases hfalse
        · exact hs.others k m' a' r' hk htk hQ
      · intro m' hm'
        refine hP m'.body (hs.written m' ?_)
        rw [Conn.setPhase_written] at hm'
        cases hstep with
        | sent response hr hlen =>
          obtain hm' | hm' := List.mem_append.mp hm'
          · exact hm'
          · exact absurd (Prod.mk.inj (List.mem_singleton.mp hm')).1 (Ne.symm hij)
        | _ => exact hm'

/-- From the reception of a request on, while nothing in `Q` is outstanding or received. -/
theorem effective_run (hkeep : Keeps f P Q) {s₁ s₂ s : Conn W} {frame rest : List UInt8}
    {ls : List (Label W)} (hmake : Makes f P msg s₁.nextAux) (hs₁ : s₁.Consistent)
    (hrecv : step fs s₁ (.recv frame) = some s₂) (hmsg : readMsg frame = .ok (msg, rest))
    (hrun : runs (step fs) s₂ ls = some s) (hquiet : s₁.Quiet Q)
    (hlater : ∀ m ∈ requests ls, ¬ Q m) :
    Effective f P Q s₁.tasks.length msg s₁.nextAux s := by
  have hs₂ : s₂ = s₁.spawn msg := by
    simp only [step, hmsg] at hrecv
    split_ifs at hrecv
    exact (Option.some.inj hrecv).symm
  have hcons : s₂.Consistent := consistent_step s₁ _ s₂ hs₁ hrecv
  subst hs₂
  have hstart : Effective f P Q s₁.tasks.length msg s₁.nextAux (s₁.spawn msg) := by
    refine ⟨hcons, ⟨.received, by simp [Conn.spawn], ?_⟩, ?_, ?_⟩
    · intro response hreplying
      cases hreplying
    · intro j m a p hj ht hQ
      obtain ht | ⟨rfl, -, -, -⟩ := Conn.spawn_task ht
      · exact hquiet j m a p ht hQ
      · exact absurd rfl hj
    · intro m hw
      exact absurd (hs₁.written _ m hw) (lt_irrefl _)
  have halong : Along (step fs) (fun _ l => ∀ m, Label.request l = some m → ¬ Q m)
      (s₁.spawn msg) ls :=
    Along.of_forall (fun l hl m hm => hlater m (List.mem_filterMap.mpr ⟨l, hl, hm⟩)) _
  exact runs_invariant_along (effective_step hkeep hmake) halong hrun hstart

end

/-- The request binds `f` anew or unbinds it. -/
def Touches (f : UInt32) (msg : Msg) : Prop := msg.body.newfid = some f ∨ msg.body = .tclunk f

theorem keeps_binding (f : UInt32) (aux : ObjId) :
    Keeps f (fun o => o = some ⟨f, aux⟩) (Touches f) where
  remove msg fid t hb hQ ht := by
    have hne : f ≠ fid := by
      rintro rfl
      exact hQ (.inr hb)
    simpa [hne] using ht
  insert msg a newfid t hn hQ ht := by
    have hne : f ≠ newfid.fid := by
      rintro rfl
      obtain ⟨g, hg, rfl⟩ := Option.map_eq_some_iff.mp hn
      exact hQ (.inl hg)
    simpa [hne] using ht

theorem makes_binding {f : UInt32} {msg : Msg} (h : msg.body.newfid = some f) (aux : ObjId) :
    Makes f (fun o => o = some ⟨f, aux⟩) msg aux where
  updates := .inr ⟨⟨f, aux⟩, by simp [newFid, h]⟩
  remove fid t hb := by simp [hb, Fcall.newfid] at h
  insert newfid t hn := by
    obtain rfl : (⟨f, aux⟩ : Fid) = newfid := by simpa [newFid, h] using hn
    simp

theorem keeps_unbound (f : UInt32) :
    Keeps f (fun o => o = none) (fun msg => msg.body.newfid = some f) where
  remove msg fid t hb hQ ht := by simp [ht]
  insert msg a newfid t hn hQ ht := by
    have hne : f ≠ newfid.fid := by
      rintro rfl
      obtain ⟨g, hg, rfl⟩ := Option.map_eq_some_iff.mp hn
      exact hQ hg
    simpa [hne] using ht

theorem makes_unbound {f : UInt32} {msg : Msg} (h : msg.body = .tclunk f) (aux : ObjId) :
    Makes f (fun o => o = none) msg aux where
  updates := .inl ⟨f, h⟩
  remove fid t hb := by
    obtain rfl : f = fid := by simpa [h] using hb
    simp
  insert newfid t hn := by simp [newFid, h, Fcall.newfid] at hn

/-- Take any run, a request received in it and the state at its end. If a reply other than
`Rlerror` to a request with the new fid `f` was sent, and since that request was received
nothing else that touches `f` was outstanding or received, then `f` is bound to the object of
that request. If `Rclunk` for `f` was sent, and since that `Tclunk` was received no request with
the new fid `f` was outstanding or received, then `f` is unbound. -/
theorem reply_implies_effect {world : W.State} {ls₁ ls₂ : List (Label W)} {s₁ s₂ s : Conn W}
    {frame rest : List UInt8} {msg : Msg} (f : UInt32)
    (h₁ : runs (step fs) (.start .new 0 world) ls₁ = some s₁)
    (hrecv : step fs s₁ (.recv frame) = some s₂) (hmsg : readMsg frame = .ok (msg, rest))
    (h₂ : runs (step fs) s₂ ls₂ = some s) :
    (msg.body.newfid = some f → s₁.Quiet (Touches f) → (∀ m ∈ requests ls₂, ¬ Touches f m) →
      (∃ m, (s₁.tasks.length, m) ∈ s.written ∧ ¬ IsError m.body) →
      s.fids.get f = some ⟨f, s₁.nextAux⟩) ∧
    (msg.body = .tclunk f → s₁.Quiet (fun m => m.body.newfid = some f) →
      (∀ m ∈ requests ls₂, m.body.newfid ≠ some f) →
      (s₁.tasks.length, (⟨msg.tag, .rclunk⟩ : Msg)) ∈ s.written →
      s.fids.get f = none) := by
  have hcons : s₁.Consistent := consistent_run h₁
  constructor
  · intro hnew hquiet hlater hsent
    obtain ⟨m, hm, hok⟩ := hsent
    have heff := effective_run (keeps_binding f s₁.nextAux) (makes_binding hnew s₁.nextAux)
      hcons hrecv hmsg h₂ hquiet hlater
    exact (heff.written m hm).resolve_left hok
  · intro hclunk hquiet hlater hsent
    have heff := effective_run (keeps_unbound f) (makes_unbound hclunk s₁.nextAux) hcons hrecv
      hmsg h₂ hquiet hlater
    refine (heff.written _ hsent).resolve_left ?_
    rintro ⟨ecode, h⟩
    cases h

/-- A filesystem that only attaches, and nothing beside its handlers. -/
def attachOnly : Filesystem Empty (fun _ => Unit) where
  rattach _ _ _ _ _ := return .rattach ⟨QidType.FILE, 0, 2⟩

def idleWorld : World Empty (fun _ => Unit) where
  State := Unit
  Event := Empty
  create _ s := s
  exec o _ := nomatch o
  tick e _ := nomatch e

theorem reply_implies_effect_attach :
    ∃ s : Conn idleWorld, runs (step attachOnly) (.start .new 0 ())
        [.recv [104, 1, 0, 5, 0, 0, 0, 255, 255, 255, 255, 0, 0, 0, 0, 0, 0, 0, 0],
          .lookup 0, .finish 0, .insert 0, .send 0] = some s ∧
      s.fids.get 5 = some ⟨5, 0⟩ := by
  let frame : List UInt8 := [104, 1, 0, 5, 0, 0, 0, 255, 255, 255, 255, 0, 0, 0, 0, 0, 0, 0, 0]
  let msg : Msg := ⟨1, .tattach 5 NOFID "" "" 0⟩
  let s₁ : Conn idleWorld := .start .new 0 ()
  let ls₂ : List (Label idleWorld) := [.lookup 0, .finish 0, .insert 0, .send 0]
  let s : Conn idleWorld :=
    { s₁ with
      fids := FidTable.new.insert ⟨5, 0⟩
      nextAux := 1
      tasks := [⟨msg, 0, .done⟩]
      written := [(0, ⟨1, .rattach ⟨QidType.FILE, 0, 2⟩⟩)] }
  have h₁ : runs (step attachOnly) s₁ [] = some s₁ := rfl
  have hrecv : step attachOnly s₁ (.recv frame) = some (s₁.spawn msg) := rfl
  have hmsg : readMsg frame = .ok (msg, []) := rfl
  have h₂ : runs (step attachOnly) (s₁.spawn msg) ls₂ = some s := rfl
  refine ⟨s, rfl, (reply_implies_effect 5 h₁ hrecv hmsg h₂).1 rfl ?_ ?_ ?_⟩
  · intro i m aux p ht
    simp [s₁, Conn.start] at ht
  · intro m hm
    simp [ls₂, requests, Label.request] at hm
  · refine ⟨_, List.mem_singleton_self _, ?_⟩
    rintro ⟨e, h⟩
    cases h

end P9cpu.Ninep
