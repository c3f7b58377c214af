import P9cpu.Cpu.Failures

/-! The pending map and the sessions map: what a `start` call does to them, and where the id
of a session is. -/
namespace P9cpu.Cpu
open Core

variable {I : Type}

/-- `start` has removed the pending entry and has not returned. -/
def Phase.inFlight : Phase → Bool
  | .starting _ | .binding _ | .launching _ | .accepting _ _ | .sending _ _ _ _ => true
  | _ => false

@[simp] theorem release_pending (s : Server I) (k : ℕ) (p : Phase) :
    (s.release k p).pending = s.pending := by
  cases p <;> rfl

/-- The maps of `s` are those of `s₀`. -/
def SameMaps (s₀ s : Server I) : Prop := s.pending = s₀.pending ∧ s.sessions = s₀.sessions

theorem SameMaps.release {s₀ s : Server I} (h : SameMaps s₀ s) (k : ℕ) (p : Phase) :
    SameMaps s₀ (s.release k p) :=
  ⟨(release_pending s k p).trans h.1, (Server.release_sessions s k p).trans h.2⟩

variable [DecidableEq I] {s t u : Server I} {k : ℕ}

omit [DecidableEq I] in
theorem stepChild_pending {c : ℕ} {child : Child I} {e : ChildEvent}
    (hstep : s.stepChild c child e = some t) : t.pending = s.pending := by
  revert hstep
  fun_cases Server.stepChild s c child e
  all_goals intro hstep
  all_goals cases hstep
  all_goals rfl

omit [DecidableEq I] in
theorem stepCopy_pending {j : ℕ} {task : Copy} {rxOpen : Bool} {e : TaskEvent}
    (hstep : s.stepCopy j task rxOpen e = some t) : t.pending = s.pending := by
  revert hstep
  fun_cases Server.stepCopy s j task rxOpen e
  all_goals intro hstep
  all_goals cases hstep
  all_goals rfl

/-- A call changes the maps at its own id only. -/
theorem CallStep.maps_of_ne {request : Request I} {p q : Phase} (h : CallStep s k request p q u)
    {sid : I} (hsid : sid ≠ request.sid) :
    u.pending sid = s.pending sid ∧ u.sessions sid = s.sessions sid := by
  cases h with
  | failed _ p | dropped _ p => exact ⟨by rw [release_pending], by rw [Server.release_sessions]⟩
  | dialed | forwarded | tookPending => exact ⟨Function.update_of_ne hsid _ _, rfl⟩
  | inserted | removed => exact ⟨rfl, Function.update_of_ne hsid _ _⟩
  | _ => exact ⟨rfl, rfl⟩

theorem CallStep.maps_of_stdin {sid : I} {p q : Phase} (h : CallStep s k (.stdin sid) p q u) :
    u.pending = s.pending ∧ u.sessions = s.sessions := by
  cases h with
  | failed _ p | dropped _ p => exact ⟨release_pending s k p, Server.release_sessions s k p⟩
  | _ => exact ⟨rfl, rfl⟩

/-! A `start` call that fails. -/

/-- No call but `k` changes the maps. -/
def OnlyCall (k : ℕ) (s : Server I) (label : Label I) : Prop :=
  label.movesCall ≠ some k → ∀ t, s.step label = some t →
    t.pending = s.pending ∧ t.sessions = s.sessions

/-- The maps of `s` are those of `s₀` without the pending entry. -/
def TookPending (s₀ s : Server I) (sid : I) : Prop :=
  s₀.pending sid ≠ none ∧ s.pending = Function.update s₀.pending sid none ∧
    s.sessions = s₀.sessions

theorem onlyCall_of_moves {label : Label I} (h : label.movesCall = some k) : OnlyCall k s label :=
  fun hne => absurd h hne

theorem onlyCall_call (request : Request I) : OnlyCall k s (.call request) := by
  rintro - t ⟨⟩
  exact ⟨rfl, rfl⟩

/-- What a `start` call begun in `s₀` has made of the maps when it is in a phase. -/
def Tried (s₀ s : Server I) (sid : I) : Phase → Prop
  | .called => SameMaps s₀ s
  | .done (.error _) => s₀.pending sid = none ∧ SameMaps s₀ s ∨ TookPending s₀ s sid
  | .done (.ok _) | .dropped => True
  | _ => TookPending s₀ s sid

theorem TookPending.release {s₀ : Server I} {sid : I} (h : TookPending s₀ s sid) (k : ℕ)
    (p : Phase) : TookPending s₀ (s.release k p) sid :=
  ⟨h.1, (release_pending s k p).trans h.2.1, (Server.release_sessions s k p).trans h.2.2⟩

theorem tried_callStep {s₀ : Server I} {sid : I} {cmd : Cmd} {p q : Phase}
    (h : Tried s₀ s sid p) (hstep : CallStep s k (.start sid cmd) p q u)
    (hfails : ∀ e, q = .done (.error e) → Fails s (.start sid cmd) p e) :
    Tried s₀ (u.setPhase k q) sid q := by
  cases hstep with
  | failed _ _ e hp =>
    -- the entry was there if and only if the call got past its first step
    cases hfails e rfl with
    | start sid cmd hnone => exact .inl ⟨h.1 ▸ hnone, h.release k _⟩
    | running | bind | no9pPort | stdio | spawn | accept | send =>
      exact .inr (TookPending.release h k _)
  | dropped => trivial
  | tookPending sid cmd session hsome =>
    refine ⟨?_, ?_, h.2⟩
    · rw [← h.1, hsome]
      simp
    · exact congrArg (fun m => Function.update m sid none) h.1
  | lockedSessions | bound | spawned | accepted | sent => exact h
  | inserted => trivial

/-- The `start` call has been made in `s₀`, and no other call has changed the maps since. -/
def Trying (s₀ : Server I) (sid : I) (cmd : Cmd) (s : Server I) : Prop :=
  ∃ p, s.calls[s₀.calls.length]? = some ⟨.start sid cmd, p⟩ ∧ Tried s₀ s sid p

theorem Tried.same {s₀ : Server I} {sid : I} {p : Phase} (h : Tried s₀ s sid p)
    (hpending : t.pending = s.pending) (hsessions : t.sessions = s.sessions) :
    Tried s₀ t sid p := by
  unfold Tried SameMaps TookPending at h ⊢
  rw [hpending, hsessions]
  exact h

theorem trying_step {s₀ : Server I} {sid : I} {cmd : Cmd} (s : Server I) (label : Label I)
    (t : Server I) (h : Trying s₀ sid cmd s) (honly : OnlyCall s₀.calls.length s label)
    (hstep : s.step label = some t) : Trying s₀ sid cmd t := by
  obtain ⟨p, hcall, htried⟩ := h
  by_cases hlabel : label.movesCall = some s₀.calls.length
  · cases serverStep_of_step hstep with
    | @moved _ i request p' q u hlabel' hi hmove =>
      obtain rfl := Option.some.inj (hlabel'.symm.trans hlabel)
      rw [hcall] at hi
      cases hi
      have hq : (u.setPhase s₀.calls.length q).calls[s₀.calls.length]? =
          some ⟨.start sid cmd, q⟩ := by
        rw [calls_moved hcall hmove.calls_eq, if_pos rfl]
      refine ⟨q, hq, tried_callStep htried hmove fun e he => ?_⟩
      subst he
      exact fails_of_step hstep hcall hmove.live hq
    | _ => cases hlabel
  · obtain ⟨hpending, hsessions⟩ := honly hlabel t hstep
    refine ⟨p, ?_, htried.same hpending hsessions⟩
    by_contra hne
    exact hlabel (moves_of_call_ne hstep hcall hne)

/-- A `start` call that fails leaves the maps as they were if and only if its id was not
pending: past its first step it has removed the entry, and none of its errors puts it back. -/
theorem failed_start_sameMaps_iff {s t : Server I} {sid : I} {cmd : Cmd} {e : Error}
    {labels : List (Label I)}
    (h : runs Server.step s (.call (.start sid cmd) :: labels) = some t)
    (honly : Along Server.step (OnlyCall s.calls.length) s (.call (.start sid cmd) :: labels))
    (herror : t.calls[s.calls.length]? = some ⟨.start sid cmd, .done (.error e)⟩) :
    (t.pending = s.pending ∧ t.sessions = s.sessions) ↔ s.pending sid = none := by
  obtain ⟨u, hu, hrest⟩ := runs_cons_eq_some.mp h
  have hbegun : Trying s sid cmd u := by
    cases hu
    exact ⟨.called, by simp, rfl, rfl⟩
  obtain ⟨p, hcall, htried⟩ := runs_invariant_along trying_step (honly.2 u hu) hrest hbegun
  rw [herror] at hcall
  cases hcall
  rcases htried with ⟨hnone, hsame⟩ | ⟨hsome, hpending, -⟩
  · exact ⟨fun _ => hnone, fun _ => hsame⟩
  · constructor
    · intro hsame
      have hlost : t.pending sid = none := by simp [hpending]
      rw [hsame.1] at hlost
      exact hlost
    · intro hnone
      exact absurd hnone hsome

/-- A command that wants 9p. -/
def ninepCmd : Cmd := ⟨"ls", [], [], [], true, false, "/tmp", 0, 0⟩

def dialRun : List (Label ℕ) := [.call (.dial 0), .dial 0]

/-- `start` of a session for which `ninep_forward` was not called. -/
def no9pRun : List (Label ℕ) :=
  [.call (.start 0 ninepCmd), .start 1 .takePending, .start 1 .lockSessions,
    .start 1 (.bound 40000)]

theorem onlyCall_no9pRun (s : Server ℕ) : Along Server.step (OnlyCall 1) s no9pRun :=
  ⟨onlyCall_call _, fun _ _ => ⟨onlyCall_of_moves rfl, fun _ _ => ⟨onlyCall_of_moves rfl,
    fun _ _ => ⟨onlyCall_of_moves rfl, fun _ _ => trivial⟩⟩⟩⟩

theorem failed_start_sameMaps_iff_no9pRun :
    ∃ s t : Server ℕ, runs Server.step Server.new dialRun = some s ∧
      runs Server.step s no9pRun = some t ∧
      ((t.pending = s.pending ∧ t.sessions = s.sessions) ↔ s.pending 0 = none) := by
  have hdial : runs Server.step Server.new dialRun =
      some ((runs Server.step Server.new dialRun).get rfl) := rfl
  have hno9p : runs Server.step ((runs Server.step Server.new dialRun).get rfl) no9pRun =
      some ((runs Server.step ((runs Server.step Server.new dialRun).get rfl) no9pRun).get rfl) :=
    rfl
  have herror : ((runs Server.step ((runs Server.step Server.new dialRun).get rfl) no9pRun).get
      rfl).calls[1]? = some ⟨.start 0 ninepCmd, .done (.error .no9pPort)⟩ := rfl
  exact ⟨_, _, hdial, hno9p, failed_start_sameMaps_iff hno9p (onlyCall_no9pRun _) herror⟩

/-- The session was dialed, and after the failed `start` it cannot be started any more. -/
theorem not_failed_start_sameMaps :
    ¬ ∀ (before after : List (Label ℕ)) (s t : Server ℕ) (sid : ℕ) (cmd : Cmd) (e : Error),
      runs Server.step Server.new before = some s →
      runs Server.step s (.call (.start sid cmd) :: after) = some t →
      Along Server.step (OnlyCall s.calls.length) s (.call (.start sid cmd) :: after) →
      t.calls[s.calls.length]? = some ⟨.start sid cmd, .done (.error e)⟩ →
      t.pending = s.pending ∧ t.sessions = s.sessions := by
  intro h
  have hsame := h dialRun no9pRun.tail _ _ 0 ninepCmd .no9pPort rfl rfl (onlyCall_no9pRun _) rfl
  have hlost : (none : Option PendingSession) = some ⟨none⟩ := congrFun hsame.1 0
  cases hlost

/-! The id of a session. -/

/-- A `dial` is for an id that has no session, and none of whose `start` calls is under way. -/
def DialsFresh (s : Server I) (label : Label I) : Prop :=
  ∀ (k : ℕ) (sid : I), label = .dial k → s.calls[k]? = some ⟨.dial sid, .called⟩ →
    s.sessions sid = none ∧
      ∀ (i : ℕ) (cmd : Cmd) (p : Phase), s.calls[i]? = some ⟨.start sid cmd, p⟩ →
        p.inFlight = false

structure OnePlace (s : Server I) : Prop where
  apart : ∀ sid : I, s.pending sid = none ∨ s.sessions sid = none
  /-- between the two maps, an id is with one `start` call -/
  moving : ∀ (k : ℕ) (sid : I) (cmd : Cmd) (p : Phase), s.calls[k]? = some ⟨.start sid cmd, p⟩ →
    p.inFlight = true → s.pending sid = none ∧ s.sessions sid = none
  once : ∀ (i k : ℕ) (sid : I) (ci ck : Cmd) (pi pk : Phase),
    s.calls[i]? = some ⟨.start sid ci, pi⟩ → s.calls[k]? = some ⟨.start sid ck, pk⟩ →
      pi.inFlight = true → pk.inFlight = true → i = k
  started : ∀ (k : ℕ) (sid : I) (cmd : Cmd),
    s.calls[k]? ≠ some ⟨.start sid cmd, .done (.error .duplicateId)⟩

omit [DecidableEq I] in
/-- Call `k` goes from one phase to the next and may change the maps. -/
theorem OnePlace.moved {request : Request I} {p q : Phase} (h : OnePlace s)
    (hcall : s.calls[k]? = some ⟨request, p⟩) (hu : u.calls = s.calls)
    (hapart : ∀ sid : I, u.pending sid = none ∨ u.sessions sid = none)
    (hothers : ∀ (i : ℕ) (sid : I) (cmd : Cmd) (p' : Phase), i ≠ k →
      s.calls[i]? = some ⟨.start sid cmd, p'⟩ → p'.inFlight = true →
        u.pending sid = none ∧ u.sessions sid = none)
    (hself : ∀ (sid : I) (cmd : Cmd), request = .start sid cmd → q.inFlight = true →
      u.pending sid = none ∧ u.sessions sid = none ∧
        ∀ (i : ℕ) (cmd' : Cmd) (p' : Phase), i ≠ k → s.calls[i]? = some ⟨.start sid cmd', p'⟩ →
          p'.inFlight = false)
    (hdone : ∀ (sid : I) (cmd : Cmd), request = .start sid cmd →
      q ≠ .done (.error .duplicateId)) : OnePlace (u.setPhase k q) := by
  constructor
  case apart =>
    exact hapart
  case moving =>
    intro i sid cmd p' hi hp'
    rw [calls_moved hcall hu] at hi
    split_ifs at hi with hik
    · cases hi
      obtain ⟨hpending, hsessions, -⟩ := hself sid cmd rfl hp'
      exact ⟨hpending, hsessions⟩
    · exact hothers i sid cmd p' hik hi hp'
  case once =>
    intro i j sid ci cj pi pj hi hj hpi hpj
    rw [calls_moved hcall hu] at hi hj
    split_ifs at hi hj with hik hjk hjk
    · omega
    · cases hi
      have hnone := (hself sid ci rfl hpi).2.2 j cj pj hjk hj
      simp [hnone] at hpj
    · cases hj
      have hnone := (hself sid cj rfl hpj).2.2 i ci pi hik hi
      simp [hnone] at hpi
    · exact h.once i j sid ci cj pi pj hi hj hpi hpj
  case started =>
    intro i sid cmd hi
    rw [calls_moved hcall hu] at hi
    split_ifs at hi with hik
    · cases hi
      exact hdone sid cmd rfl rfl
    · exact h.started i sid cmd hi

omit [DecidableEq I] in
/-- A step that adds no id to a map and does not begin a launch. -/
theorem OnePlace.keep {request : Request I} {p q : Phase} (h : OnePlace s)
    (hcall : s.calls[k]? = some ⟨request, p⟩) (hu : u.calls = s.calls)
    (hpending : ∀ sid, s.pending sid = none → u.pending sid = none)
    (hsessions : ∀ sid, s.sessions sid = none → u.sessions sid = none)
    (hflight : q.inFlight = true → p.inFlight = true)
    (hdone : ∀ (sid : I) (cmd : Cmd), request = .start sid cmd →
      q ≠ .done (.error .duplicateId)) : OnePlace (u.setPhase k q) := by
  refine h.moved hcall hu (fun sid => ?_) (fun i sid cmd p' _ hi hp' => ?_)
    (fun sid cmd hrequest hq => ?_) hdone
  · exact (h.apart sid).imp (hpending sid) (hsessions sid)
  · have hnone := h.moving i sid cmd p' hi hp'
    exact ⟨hpending sid hnone.1, hsessions sid hnone.2⟩
  · subst hrequest
    have hnone := h.moving k sid cmd p hcall (hflight hq)
    refine ⟨hpending sid hnone.1, hsessions sid hnone.2, fun i cmd' p' hik hi => ?_⟩
    by_contra hp'
    exact hik (h.once i k sid cmd' cmd p' p hi hcall (by simpa using hp') (hflight hq))

omit [DecidableEq I] in
/-- `start` finds its id in the sessions map only if it was there when the entry was taken. -/
theorem OnePlace.not_duplicate {sid : I} {cmd : Cmd} {p : Phase} (h : OnePlace s)
    (hcall : s.calls[k]? = some ⟨.start sid cmd, p⟩) :
    ¬ Fails s (.start sid cmd) p .duplicateId := by
  intro hfails
  cases hfails with
  | running _ _ ninep hsome => exact hsome (h.moving k sid cmd _ hcall rfl).2
  | stdio _ _ l _ he => simp [Server.stdioError] at he

theorem onePlace_callStep {request : Request I} {p q : Phase} (h : OnePlace s)
    (hfresh : ∀ sid, request = .dial sid → q = .done (.ok .unit) → s.sessions sid = none ∧
      ∀ (i : ℕ) (cmd : Cmd) (p : Phase), s.calls[i]? = some ⟨.start sid cmd, p⟩ →
        p.inFlight = false)
    (hcall : s.calls[k]? = some ⟨request, p⟩) (hstep : CallStep s k request p q u)
    (hfails : ∀ e, q = .done (.error e) → Fails s request p e) :
    OnePlace (u.setPhase k q) := by
  have hu := hstep.calls_eq
  cases hstep with
  | failed _ _ e hp =>
    refine h.keep hcall hu (by simp) (by simp) (by simp [Phase.inFlight]) ?_
    rintro sid cmd rfl hq
    cases hq
    exact h.not_duplicate hcall (hfails .duplicateId rfl)
  | dropped _ _ hp =>
    exact h.keep hcall hu (by simp) (by simp) (by simp [Phase.inFlight]) (by simp)
  | dialed sid hnone =>
    obtain ⟨hsessions, hflight⟩ := hfresh sid rfl rfl
    refine h.moved hcall hu (fun sid' => ?_) (fun i sid' cmd p' _ hi hp' => ?_) (by simp) (by simp)
    · by_cases hsid : sid' = sid
      · subst hsid
        exact .inr hsessions
      · rcases h.apart sid' with hn | hn
        · exact .inl (by simp [hsid, hn])
        · exact .inr hn
    · have hsid : sid' ≠ sid := by
        rintro rfl
        simp [hflight i cmd p' hi] at hp'
      have hnone' := h.moving i sid' cmd p' hi hp'
      exact ⟨by simp [hsid, hnone'.1], hnone'.2⟩
  | forwarded sid port hsome =>
    refine h.keep hcall hu (fun sid' hn => ?_) (fun _ hn => hn) (by simp [Phase.inFlight]) (by simp)
    have hsid : sid' ≠ sid := by
      rintro rfl
      exact hsome hn
    simp [hsid, hn]
  | tookPending sid cmd session hsome =>
    have hsessions : s.sessions sid = none := by
      rcases h.apart sid with hn | hn
      · simp [hsome] at hn
      · exact hn
    have htook : ∀ sid', s.pending sid' = none →
        Function.update s.pending sid none sid' = none := by
      intro sid' hn
      by_cases hsid : sid' = sid <;> simp [hsid, hn]
    refine h.moved hcall hu (fun sid' => ?_) (fun i sid' cmd' p' _ hi hp' => ?_) ?_ (by simp)
    · exact (h.apart sid').imp_left (htook sid')
    · have hnone := h.moving i sid' cmd' p' hi hp'
      exact ⟨htook sid' hnone.1, hnone.2⟩
    · rintro _ _ ⟨⟩ -
      refine ⟨by simp, hsessions, fun i cmd' p' _ hi => ?_⟩
      by_contra hp'
      have hnone := (h.moving i sid cmd' p' hi (by simpa using hp')).1
      simp [hsome] at hnone
  | inserted sid cmd l c peer =>
    have hpending : s.pending sid = none := (h.moving k sid cmd _ hcall rfl).1
    refine h.moved hcall hu (fun sid' => ?_) (fun i sid' cmd' p' hik hi hp' => ?_)
      (by simp [Phase.inFlight]) (by simp)
    · by_cases hsid : sid' = sid
      · subst hsid
        exact .inl hpending
      · refine (h.apart sid').imp_right fun hn => ?_
        exact (Function.update_of_ne hsid _ _).trans hn
    · have hsid : sid' ≠ sid := by
        rintro rfl
        exact hik (h.once i k sid' cmd' cmd p' _ hi hcall hp' rfl)
      have hnone := h.moving i sid' cmd' p' hi hp'
      exact ⟨hnone.1, (Function.update_of_ne hsid _ _).trans hnone.2⟩
  | removed sid ret =>
    refine h.keep hcall hu (fun _ hn => hn) (fun sid' hn => ?_) (by simp [Phase.inFlight]) (by simp)
    by_cases hsid : sid' = sid <;> simp [hsid, hn]
  | tookItem | wrote =>
    refine h.keep hcall hu (fun _ hn => hn) (fun _ hn => hn) ?_ (by simp)
    split <;> simp [Phase.inFlight]
  | _ =>
    exact h.keep hcall hu (fun _ hn => hn) (fun _ hn => hn) (by simp [Phase.inFlight]) (by simp)

omit [DecidableEq I] in
theorem OnePlace.same (h : OnePlace s) (hcalls : t.calls = s.calls)
    (hpending : t.pending = s.pending) (hsessions : t.sessions = s.sessions) : OnePlace t := by
  constructor
  case apart =>
    rw [hpending, hsessions]
    exact h.apart
  case moving =>
    rw [hcalls, hpending, hsessions]
    exact h.moving
  case once =>
    rw [hcalls]
    exact h.once
  case started =>
    rw [hcalls]
    exact h.started

omit [DecidableEq I] in
theorem OnePlace.called (h : OnePlace s) (request : Request I) :
    OnePlace { s with calls := s.calls ++ [⟨request, .called⟩] } := by
  have hflight : ∀ p : Phase, p.inFlight = true → p ≠ .called := by
    rintro _ hp rfl
    cases hp
  constructor
  case apart =>
    exact h.apart
  case moving =>
    intro i sid cmd p hi hp
    exact h.moving i sid cmd p (call_of_called hi (hflight p hp)) hp
  case once =>
    intro i j sid ci cj pi pj hi hj hpi hpj
    exact h.once i j sid ci cj pi pj (call_of_called hi (hflight pi hpi))
      (call_of_called hj (hflight pj hpj)) hpi hpj
  case started =>
    intro i sid cmd hi
    exact h.started i sid cmd (call_of_called hi (by simp))

theorem label_of_dialed {label : Label I} {sid : I} {ret : Except Error Answer}
    (hcall : s.calls[k]? = some ⟨.dial sid, .called⟩) (hlabel : label.movesCall = some k)
    (hstep : s.step label = some t) (ht : t.calls[k]? = some ⟨.dial sid, .done ret⟩) :
    label = .dial k := by
  cases label <;> simp only [Label.movesCall, Option.some.injEq, reduceCtorEq] at hlabel
  all_goals subst hlabel
  case dial => rfl
  case drop =>
    simp only [Server.step, hcall, Phase.returned] at hstep
    cases hstep
    rw [calls_moved hcall (Server.release_calls s _ _), if_pos rfl] at ht
    cases ht
  all_goals simp [Server.step, hcall] at hstep

theorem onePlace_step (s : Server I) (label : Label I) (t : Server I) (h : OnePlace s)
    (hfresh : DialsFresh s label) (hstep : s.step label = some t) : OnePlace t := by
  cases serverStep_of_step hstep with
  | called request => exact h.called request
  | @moved _ k request p q u hlabel hcall hmove =>
    have hq : (u.setPhase k q).calls[k]? = some ⟨request, q⟩ := by
      rw [calls_moved hcall hmove.calls_eq, if_pos rfl]
    refine onePlace_callStep h (fun sid hrequest hdone => ?_) hcall hmove fun e he => ?_
    · subst hrequest hdone
      cases hmove with
      | dialed =>
        exact hfresh k sid (label_of_dialed hcall hlabel hstep hq) hcall
    · subst he
      exact fails_of_step hstep hcall hmove.live hq
  | child hchild hstep =>
    obtain ⟨hcalls, hsessions, -⟩ := stepChild_same hstep
    exact h.same hcalls (stepChild_pending hstep) hsessions
  | copy htask hcopy =>
    obtain ⟨hcalls, hsessions, -⟩ := stepCopy_same hcopy
    exact h.same hcalls (stepCopy_pending hcopy) hsessions
  | forwardDone htask => exact h.same rfl rfl rfl

omit [DecidableEq I] in
theorem onePlace_new : OnePlace (Server.new : Server I) := by
  constructor <;> simp [Server.new]

/-- While ids are dialed only before they are started, no id is in both maps: `dial` refuses
every id that is in one of them, and `start` never has to. -/
theorem one_place {labels : List (Label I)} {s : Server I}
    (h : runs Server.step Server.new labels = some s)
    (hfresh : Along Server.step DialsFresh Server.new labels) :
    (∀ sid : I, s.pending sid = none ∨ s.sessions sid = none) ∧
    (∀ (k : ℕ) (sid : I), s.calls[k]? = some ⟨.dial sid, .called⟩ → DialsFresh s (.dial k) →
      s.pending sid ≠ none ∨ s.sessions sid ≠ none → (s.dial sid).1 = .error .duplicateId) ∧
    ∀ (k : ℕ) (sid : I) (cmd : Cmd),
      s.calls[k]? ≠ some ⟨.start sid cmd, .done (.error .duplicateId)⟩ := by
  have hone : OnePlace s := runs_invariant_along onePlace_step hfresh h onePlace_new
  refine ⟨hone.apart, fun k sid hcall hdial hknown => ?_, hone.started⟩
  have hsessions := (hdial k sid rfl hcall).1
  rcases hknown with hsome | hsome
  · cases hpending : s.pending sid with
    | none => exact absurd hpending hsome
    | some session => simp [Server.dial, hpending]
  · exact absurd hsessions hsome

omit [DecidableEq I] in
theorem dialsFresh_of_ne {label : Label I} (h : ∀ k, label ≠ .dial k) : DialsFresh s label :=
  fun k _ hlabel => absurd hlabel (h k)

/-- A session is dialed and its `start` is under way. -/
def startingRun : List (Label ℕ) := dialRun ++ [.call (.start 0 ninepCmd), .start 1 .takePending]

theorem dialsFresh_startingRun : Along Server.step DialsFresh Server.new startingRun := by
  refine ⟨dialsFresh_of_ne (by simp), fun t ht => ⟨?_, fun _ _ => ?_⟩⟩
  · rintro k sid ⟨⟩ -
    cases ht
    refine ⟨rfl, fun i cmd p hi => ?_⟩
    have hmem := List.mem_of_getElem? hi
    simp [Server.new] at hmem
  · exact ⟨dialsFresh_of_ne (by simp), fun _ _ => ⟨dialsFresh_of_ne (by simp), fun _ _ => trivial⟩⟩

theorem one_place_startingRun :
    ∃ s : Server ℕ, runs Server.step Server.new startingRun = some s ∧
      (∀ sid : ℕ, s.pending sid = none ∨ s.sessions sid = none) :=
  ⟨(runs Server.step Server.new startingRun).get rfl, rfl, (one_place rfl dialsFresh_startingRun).1⟩

/-- The session of `connectRun` is up when its id is dialed again. -/
def redialRun : List (Label ℕ) :=
  connectRun ++ [.start 1 .sent, .start 1 .sent, .start 1 .sent, .call (.dial 0), .dial 2]

theorem not_one_place :
    ¬ ∀ (labels : List (Label ℕ)) (s : Server ℕ), runs Server.step Server.new labels = some s →
      ∀ sid : ℕ, s.pending sid = none ∨ s.sessions sid = none := by
  intro h
  have hone := h redialRun _ rfl 0
  rcases hone with hnone | hnone
  · cases hnone
  · cases hnone

end P9cpu.Cpu
