import P9cpu.Cpu.Launch

/-! Who has a session: the `start` call that makes it, the sessions map, and the calls that
took a pointer to it. -/
namespace P9cpu.Cpu
open Core

variable {I : Type} {s t u : Server I} {k : ℕ}

/-- The child that a `start` call has spawned. -/
def Phase.owns : Phase → Option ℕ
  | .accepting _ c | .sending _ c _ _ => some c
  | _ => none

/-- The child on whose stdin a call has a pointer. -/
def Phase.usesStdin : Phase → Option ℕ
  | .lockingStdin c | .streaming c | .writing c _ => some c
  | _ => none

namespace Server

/-- The id under which the session of a child was inserted. -/
def sidOf (s : Server I) (c : ℕ) : Option I :=
  (s.children[c]?).bind (fun child => child.session.map Session.sid)

theorem sidOf_modifyChild {c : ℕ} {f : Child I → Child I}
    (h : ∀ child, (f child).session.map Session.sid = child.session.map Session.sid) :
    (s.modifyChild c f).sidOf = s.sidOf := by
  funext d
  simp only [sidOf, modifyChild, List.getElem?_modify]
  split
  · cases s.children[d]? with
    | none => rfl
    | some child => exact h child
  · simp

theorem sidOf_closeListener (s : Server I) (k : ℕ) : (s.closeListener k).sidOf = s.sidOf := by
  funext c
  simp only [sidOf, closeListener, List.getElem?_map]
  cases s.children[c]? with
  | none => rfl
  | some child =>
    simp only [Option.map_some, Option.bind_some]
    split <;> rfl

theorem sidOf_setLink (s : Server I) (c : ℕ) (link : Link) : (s.setLink c link).sidOf = s.sidOf :=
  sidOf_modifyChild fun _ => rfl

theorem sidOf_release (s : Server I) (k : ℕ) (p : Phase) : (s.release k p).sidOf = s.sidOf := by
  cases p with
  | launching l => exact sidOf_closeListener s k
  | accepting l c => exact sidOf_closeListener s k
  | sending l c peer n => exact (sidOf_closeListener _ k).trans (sidOf_setLink s peer .closed)
  | _ => rfl

theorem sidOf_spawnChild (s : Server I) (l : Launch) : (s.spawnChild l).sidOf = s.sidOf := by
  funext c
  simp only [sidOf, spawnChild, List.getElem?_append]
  split_ifs with hc
  · rfl
  · have hnone : s.children[c]? = none := List.getElem?_eq_none (by omega)
    rw [hnone]
    cases c - s.children.length with
    | zero => rfl
    | succ n => rfl

theorem length_closeListener (s : Server I) (k : ℕ) :
    (s.closeListener k).children.length = s.children.length := by
  simp [closeListener]

theorem length_modifyChild (s : Server I) (c : ℕ) (f : Child I → Child I) :
    (s.modifyChild c f).children.length = s.children.length := by
  simp [modifyChild]

theorem length_release (s : Server I) (k : ℕ) (p : Phase) :
    (s.release k p).children.length = s.children.length := by
  cases p with
  | launching l => exact length_closeListener s k
  | accepting l c => exact length_closeListener s k
  | sending l c peer n =>
    exact (length_closeListener _ k).trans (length_modifyChild s peer _)
  | _ => rfl

end Server

structure Owned (s : Server I) : Prop where
  exclusive : ∀ (i k : ℕ) (ci ck : Call I), s.calls[i]? = some ci → s.calls[k]? = some ck →
    ci.phase.holdsSessions = true → ck.phase.holdsSessions = true → i = k
  vacant : ∀ (k : ℕ) (call : Call I), s.calls[k]? = some call →
    call.phase.holdsSessions = true → s.sessions call.request.sid = none
  owned : ∀ (k : ℕ) (call : Call I) (c : ℕ), s.calls[k]? = some call →
    call.phase.owns = some c → c < s.children.length ∧ s.sidOf c = none
  users : ∀ (k : ℕ) (call : Call I) (c : ℕ), s.calls[k]? = some call →
    call.phase.usesStdin = some c → ∃ sid, call.request = .stdin sid ∧ s.sidOf c = some sid
  mapped : ∀ (sid : I) (c : ℕ), s.sessions sid = some c → s.sidOf c = some sid
  /-- a session stays in the map until a `wait` on it returns -/
  kept : ∀ (c : ℕ) (sid : I), s.sidOf c = some sid → s.sessions sid = some c ∨
    ∃ (k : ℕ) (ret : Except Error Answer), s.calls[k]? = some ⟨.wait sid, .done ret⟩

theorem holdsSessions_of_owns {p : Phase} {c : ℕ} (h : p.owns = some c) :
    p.holdsSessions = true := by
  cases p <;> simp_all [Phase.owns, Phase.holdsSessions]

theorem not_holdsSessions_of_unlocked (h : s.unlocked = true) {i : ℕ} {call : Call I}
    (hcall : s.calls[i]? = some call) : call.phase.holdsSessions = false := by
  rw [Server.unlocked, List.all_eq_true] at h
  simpa using h call (List.mem_of_getElem? hcall)

/-- A call moves on and neither the map nor a session's id changes. -/
theorem Owned.moved {request : Request I} {p q : Phase} (h : Owned s)
    (hcall : s.calls[k]? = some ⟨request, p⟩) (hu : u.calls = s.calls) (hlive : p.returned = false)
    (hsessions : u.sessions = s.sessions) (hsid : u.sidOf = s.sidOf)
    (hlen : s.children.length ≤ u.children.length)
    (hholds : q.holdsSessions = true →
      p.holdsSessions = true ∨ s.unlocked = true ∧ s.sessions request.sid = none)
    (howns : ∀ c, q.owns = some c →
      p.owns = some c ∨ c < u.children.length ∧ s.sidOf c = none)
    (huses : ∀ c, q.usesStdin = some c →
      p.usesStdin = some c ∨ ∃ sid, request = .stdin sid ∧ s.sessions sid = some c) :
    Owned (u.setPhase k q) where
  exclusive i j ci cj hi hj hci hcj := by
    rw [calls_moved hcall hu] at hi hj
    -- no other call holds the lock when `k` does
    have hother : ∀ (i : ℕ) (ci : Call I), i ≠ k → s.calls[i]? = some ci →
        ci.phase.holdsSessions = true → q.holdsSessions ≠ true := by
      intro i ci hik hi hci hq
      rcases hholds hq with hp | ⟨hunlocked, -⟩
      · exact hik (h.exclusive i k ci _ hi hcall hci hp)
      · simp [not_holdsSessions_of_unlocked hunlocked hi] at hci
    split_ifs at hi hj with hik hjk hjk
    · exact hik.trans hjk.symm
    · cases hi
      exact absurd hci (hother j cj hjk hj hcj)
    · cases hj
      exact absurd hcj (hother i ci hik hi hci)
    · exact h.exclusive i j ci cj hi hj hci hcj
  vacant i call hi hholds' := by
    rw [calls_moved hcall hu] at hi
    rw [Server.setPhase_sessions, hsessions]
    split_ifs at hi with hik
    · cases hi
      rcases hholds hholds' with hp | ⟨-, hnone⟩
      · exact h.vacant k ⟨request, p⟩ hcall hp
      · exact hnone
    · exact h.vacant i call hi hholds'
  owned i call c hi hc := by
    rw [calls_moved hcall hu] at hi
    change c < u.children.length ∧ u.sidOf c = none
    rw [hsid]
    split_ifs at hi with hik
    · cases hi
      rcases howns c hc with hp | hnew
      · have := h.owned k ⟨request, p⟩ c hcall hp
        exact ⟨by omega, this.2⟩
      · exact hnew
    · have := h.owned i call c hi hc
      exact ⟨by omega, this.2⟩
  users i call c hi hc := by
    rw [calls_moved hcall hu] at hi
    change ∃ sid, _ ∧ u.sidOf c = some sid
    rw [hsid]
    split_ifs at hi with hik
    · cases hi
      rcases huses c hc with hp | ⟨sid, hrequest, hfound⟩
      · exact h.users k ⟨request, p⟩ c hcall hp
      · exact ⟨sid, hrequest, h.mapped sid c hfound⟩
    · exact h.users i call c hi hc
  mapped sid c hc := by
    change u.sidOf c = _
    rw [Server.setPhase_sessions, hsessions] at hc
    rw [hsid]
    exact h.mapped sid c hc
  kept c sid hc := by
    change u.sidOf c = _ at hc
    rw [hsid] at hc
    rw [Server.setPhase_sessions, hsessions]
    rcases h.kept c sid hc with hmap | ⟨i, ret, hi⟩
    · exact .inl hmap
    · refine .inr ⟨i, ret, ?_⟩
      have hik : i ≠ k := by
        rintro rfl
        obtain ⟨-, rfl⟩ := Call.mk.inj (Option.some.inj (hi.symm.trans hcall))
        simp [Phase.returned] at hlive
      rw [calls_moved hcall hu, if_neg hik, hi]

variable [DecidableEq I]

theorem sidOf_insertSession {sid : I} {l : Launch} {c peer : ℕ} (hc : c < s.children.length) :
    (s.insertSession k sid l c peer).sidOf = Function.update s.sidOf c (some sid) := by
  have hclosed : ((s.setLink peer (.delivered l.cmd)).closeListener k).sidOf = s.sidOf :=
    (Server.sidOf_closeListener _ k).trans (Server.sidOf_setLink s peer _)
  have hlen : ((s.setLink peer (.delivered l.cmd)).closeListener k).children.length =
      s.children.length :=
    (Server.length_closeListener _ k).trans (Server.length_modifyChild s peer _)
  funext d
  by_cases hd : d = c
  · subst hd
    have hget : d < ((s.setLink peer (.delivered l.cmd)).closeListener k).children.length := by
      omega
    simp [Server.sidOf, Server.insertSession, Server.modifyChild, List.getElem?_eq_getElem hget]
  · have hsame : (s.insertSession k sid l c peer).sidOf d =
        ((s.setLink peer (.delivered l.cmd)).closeListener k).sidOf d := by
      simp [Server.sidOf, Server.insertSession, Server.modifyChild, Ne.symm hd]
    rw [hsame, hclosed, Function.update_of_ne hd]

theorem Owned.inserted {sid : I} {cmd : Cmd} {l : Launch} {c peer : ℕ} (h : Owned s)
    (hcall : s.calls[k]? = some ⟨.start sid cmd, .sending l c peer .shutdown⟩) :
    Owned ((s.insertSession k sid l c peer).setPhase k (.done (.ok .unit))) := by
  have hu : (s.insertSession k sid l c peer).calls = s.calls := rfl
  have hc := h.owned k _ c hcall rfl
  have hsid : (s.insertSession k sid l c peer).sidOf = Function.update s.sidOf c (some sid) :=
    sidOf_insertSession hc.1
  have hvacant : s.sessions sid = none := h.vacant k _ hcall rfl
  -- `k` held the lock, so no other call does
  have hother : ∀ (i : ℕ) (call : Call I),
      ((s.insertSession k sid l c peer).setPhase k (.done (.ok .unit))).calls[i]? = some call →
        call.phase.holdsSessions = false := by
    intro i call hi
    rw [calls_moved hcall hu] at hi
    split_ifs at hi with hik
    · cases hi
      rfl
    · cases hlock : call.phase.holdsSessions with
      | false => rfl
      | true => exact absurd (h.exclusive i k call _ hi hcall hlock rfl) hik
  have hmoved : ∀ (i : ℕ) (call : Call I),
      ((s.insertSession k sid l c peer).setPhase k (.done (.ok .unit))).calls[i]? = some call →
        call.phase.returned = true ∨ s.calls[i]? = some call := by
    intro i call hi
    rw [calls_moved hcall hu] at hi
    split_ifs at hi with hik
    · cases hi
      exact .inl rfl
    · exact .inr hi
  constructor
  case exclusive =>
    intro i j ci cj hi hj hci
    simp [hother i ci hi] at hci
  case vacant =>
    intro i call hi hlock
    simp [hother i call hi] at hlock
  case owned =>
    intro i call d hi hd
    have hlock := holdsSessions_of_owns hd
    simp [hother i call hi] at hlock
  case users =>
    intro i call d hi hd
    change ∃ sid', _ ∧ (s.insertSession k sid l c peer).sidOf d = some sid'
    rw [hsid]
    rcases hmoved i call hi with hret | hi
    · cases hp : call.phase <;> simp [hp, Phase.returned, Phase.usesStdin] at hret hd
    · obtain ⟨sid', hrequest, hold⟩ := h.users i call d hi hd
      have hdc : d ≠ c := by
        rintro rfl
        simp [hc.2] at hold
      exact ⟨sid', hrequest, by rw [Function.update_of_ne hdc, hold]⟩
  case mapped =>
    intro sid' d hd
    change (s.insertSession k sid l c peer).sidOf d = _
    change Function.update s.sessions sid (some c) sid' = some d at hd
    rw [hsid]
    by_cases heq : sid' = sid
    · subst heq
      rw [Function.update_self] at hd
      cases hd
      exact Function.update_self ..
    · rw [Function.update_of_ne heq] at hd
      have hold := h.mapped sid' d hd
      have hdc : d ≠ c := by
        rintro rfl
        simp [hc.2] at hold
      rw [Function.update_of_ne hdc, hold]
  case kept =>
    intro d sid' hd
    change (s.insertSession k sid l c peer).sidOf d = _ at hd
    change Function.update s.sessions sid (some c) sid' = some d ∨ _
    rw [hsid] at hd
    by_cases hdc : d = c
    · subst hdc
      rw [Function.update_self] at hd
      cases hd
      exact .inl (Function.update_self ..)
    · rw [Function.update_of_ne hdc] at hd
      rcases h.kept d sid' hd with hmap | ⟨i, ret, hi⟩
      · have hne : sid' ≠ sid := by
          rintro rfl
          simp [hvacant] at hmap
        exact .inl (by rw [Function.update_of_ne hne, hmap])
      · have hik : i ≠ k := by
          rintro rfl
          simp [hcall] at hi
        exact .inr ⟨i, ret, by rw [calls_moved hcall hu, if_neg hik, hi]⟩

theorem Owned.removed {sid : I} {ret : Except Error ℤ} (h : Owned s)
    (hcall : s.calls[k]? = some ⟨.wait sid, .removing ret⟩) (hlock : s.unlocked = true) :
    Owned ({ s with sessions := Function.update s.sessions sid none }.setPhase k
      (.done (ret.map Answer.code))) := by
  have hcalls := calls_moved (q := .done (ret.map Answer.code)) hcall
    (u := { s with sessions := Function.update s.sessions sid none }) rfl
  have hold : ∀ (i : ℕ) (call : Call I),
      ({ s with sessions := Function.update s.sessions sid none }.setPhase k
        (.done (ret.map Answer.code))).calls[i]? = some call →
        call.phase.returned = true ∨ s.calls[i]? = some call := by
    intro i call hi
    rw [hcalls] at hi
    split_ifs at hi with hik
    · cases hi
      exact .inl rfl
    · exact .inr hi
  have hfree : ∀ (i : ℕ) (call : Call I),
      ({ s with sessions := Function.update s.sessions sid none }.setPhase k
        (.done (ret.map Answer.code))).calls[i]? = some call →
        call.phase.holdsSessions = false := by
    intro i call hi
    rcases hold i call hi with hret | hi
    · cases hp : call.phase <;> simp_all [Phase.returned, Phase.holdsSessions]
    · exact not_holdsSessions_of_unlocked hlock hi
  constructor
  case exclusive =>
    intro i j ci cj hi hj hci
    simp [hfree i ci hi] at hci
  case vacant =>
    intro i call hi hlock
    simp [hfree i call hi] at hlock
  case owned =>
    intro i call d hi hd
    have hlock := holdsSessions_of_owns hd
    simp [hfree i call hi] at hlock
  case users =>
    intro i call d hi hd
    rcases hold i call hi with hret | hi
    · cases hp : call.phase <;> simp [hp, Phase.returned, Phase.usesStdin] at hret hd
    · exact h.users i call d hi hd
  case mapped =>
    intro sid' d hd
    change Function.update s.sessions sid none sid' = some d at hd
    by_cases heq : sid' = sid
    · simp [heq] at hd
    · rw [Function.update_of_ne heq] at hd
      exact h.mapped sid' d hd
  case kept =>
    intro d sid' hd
    change Function.update s.sessions sid none sid' = some d ∨ _
    by_cases heq : sid' = sid
    · subst heq
      exact .inr ⟨k, _, by rw [hcalls, if_pos rfl]⟩
    · rcases h.kept d sid' hd with hmap | ⟨i, ret', hi⟩
      · exact .inl (by rw [Function.update_of_ne heq, hmap])
      · have hik : i ≠ k := by
          rintro rfl
          simp [hcall] at hi
        exact .inr ⟨i, ret', by rw [hcalls, if_neg hik, hi]⟩

theorem owned_callStep {request : Request I} {p q : Phase} (h : Owned s)
    (hcall : s.calls[k]? = some ⟨request, p⟩) (hstep : CallStep s k request p q u) :
    Owned (u.setPhase k q) := by
  have hu := hstep.calls_eq
  have hlive := hstep.live
  cases hstep with
  | inserted sid cmd l c peer => exact h.inserted hcall
  | removed sid ret hlock => exact h.removed hcall hlock
  | failed _ _ e hp | dropped _ _ hp =>
    exact h.moved hcall hu hlive (Server.release_sessions s k p) (Server.sidOf_release s k p)
      (Nat.le_of_eq (Server.length_release s k p).symm) (by simp [Phase.holdsSessions])
      (by simp [Phase.owns]) (by simp [Phase.usesStdin])
  | spawned sid cmd l =>
    refine h.moved hcall hu hlive rfl (Server.sidOf_spawnChild s l) (by simp [Server.spawnChild])
      (fun _ => .inl rfl) ?_
      (by simp [Phase.usesStdin])
    intro c hc
    obtain rfl := Option.some.inj hc
    exact .inr ⟨by simp [Server.spawnChild], by simp [Server.sidOf]⟩
  | lockedSessions sid cmd ninep hlock hnone =>
    exact h.moved hcall hu hlive rfl rfl (Nat.le_refl _) (fun _ => .inr ⟨hlock, hnone⟩)
      (by simp [Phase.owns]) (by simp [Phase.usesStdin])
  | accepted sid cmd l c peer child hchild hlink =>
    exact h.moved hcall hu hlive rfl (Server.sidOf_setLink s peer _)
      (Nat.le_of_eq (Server.length_modifyChild s peer _).symm) (fun _ => .inl rfl)
      (fun _ hc => .inl hc) (by simp [Phase.usesStdin])
  | bound | sent =>
    exact h.moved hcall hu hlive rfl rfl (Nat.le_refl _) (fun _ => .inl rfl) (fun _ hc => .inl hc)
      (by simp [Phase.usesStdin])
  | foundStdin sid c hc =>
    refine h.moved hcall hu hlive rfl rfl (Nat.le_refl _) (by simp [Phase.holdsSessions])
      (by simp [Phase.owns]) fun d hd => .inr ?_
    obtain rfl := Option.some.inj hd
    exact ⟨sid, rfl, hc⟩
  | lockedStdin sid c =>
    exact h.moved hcall hu hlive rfl rfl (Nat.le_refl _) (by simp [Phase.holdsSessions])
      (by simp [Phase.owns]) (fun _ hd => .inl hd)
  | tookItem sid c item =>
    refine h.moved hcall hu hlive rfl rfl (Nat.le_refl _) ?_ ?_ ?_ <;> split <;>
      simp [Phase.holdsSessions, Phase.owns, Phase.usesStdin]
  | wrote sid c len rest =>
    refine h.moved hcall hu hlive rfl (Server.sidOf_modifyChild fun _ => rfl)
      (Nat.le_of_eq (Server.length_modifyChild s c _).symm) ?_ ?_ ?_ <;> split <;>
      simp [Phase.holdsSessions, Phase.owns, Phase.usesStdin]
  | pushed | joined =>
    refine h.moved hcall hu hlive rfl (Server.sidOf_modifyChild fun child => ?_)
      (Nat.le_of_eq (Server.length_modifyChild s _ _).symm) (by simp [Phase.holdsSessions])
      (by simp [Phase.owns]) (by simp [Phase.usesStdin])
    cases child.session <;> rfl
  | _ =>
    exact h.moved hcall hu hlive rfl rfl (Nat.le_refl _) (by simp [Phase.holdsSessions])
      (by simp [Phase.owns]) (by simp [Phase.usesStdin])

omit [DecidableEq I] in
/-- A step of a child or of a task. -/
theorem Owned.same (h : Owned s) (hcalls : t.calls = s.calls) (hsessions : t.sessions = s.sessions)
    (hsid : t.sidOf = s.sidOf) (hlen : t.children.length = s.children.length) : Owned t := by
  constructor
  case exclusive =>
    rw [hcalls]
    exact h.exclusive
  case vacant =>
    rw [hcalls, hsessions]
    exact h.vacant
  case owned =>
    rw [hcalls, hsid, hlen]
    exact h.owned
  case users =>
    rw [hcalls, hsid]
    exact h.users
  case mapped =>
    rw [hsessions, hsid]
    exact h.mapped
  case kept =>
    rw [hcalls, hsessions, hsid]
    exact h.kept

omit [DecidableEq I] in
theorem Owned.called (h : Owned s) (request : Request I) :
    Owned { s with calls := s.calls ++ [⟨request, .called⟩] } := by
  have hold : ∀ (i : ℕ) (call : Call I), (s.calls ++ [⟨request, .called⟩])[i]? = some call →
      s.calls[i]? = some call ∨ call.phase = .called := by
    intro i call hi
    exact (getElem?_concat_cases hi).imp_right fun hnew => congrArg Call.phase hnew.2
  constructor
  case exclusive =>
    intro i k ci ck hi hk hci hck
    rcases hold i ci hi with hi | hp
    · rcases hold k ck hk with hk | hp
      · exact h.exclusive i k ci ck hi hk hci hck
      · simp [hp, Phase.holdsSessions] at hck
    · simp [hp, Phase.holdsSessions] at hci
  case vacant =>
    intro i call hi hlock
    rcases hold i call hi with hi | hp
    · exact h.vacant i call hi hlock
    · simp [hp, Phase.holdsSessions] at hlock
  case owned =>
    intro i call c hi hc
    rcases hold i call hi with hi | hp
    · exact h.owned i call c hi hc
    · simp [hp, Phase.owns] at hc
  case users =>
    intro i call c hi hc
    rcases hold i call hi with hi | hp
    · exact h.users i call c hi hc
    · simp [hp, Phase.usesStdin] at hc
  case mapped =>
    exact h.mapped
  case kept =>
    intro c sid hc
    rcases h.kept c sid hc with hmap | ⟨k, ret, hk⟩
    · exact .inl hmap
    · refine .inr ⟨k, ret, ?_⟩
      rw [List.getElem?_append_left (List.getElem?_eq_some_iff.mp hk).1, hk]

omit [DecidableEq I] in
/-- What a child does to itself leaves the calls and the sessions alone. -/
theorem stepChild_same {c : ℕ} {child : Child I} {e : ChildEvent}
    (hstep : s.stepChild c child e = some t) :
    t.calls = s.calls ∧ t.sessions = s.sessions ∧ t.tasks = s.tasks ∧ t.sidOf = s.sidOf ∧
      t.children.length = s.children.length := by
  revert hstep
  fun_cases Server.stepChild s c child e
  all_goals intro hstep
  all_goals cases hstep
  all_goals refine ⟨rfl, rfl, rfl, Server.sidOf_modifyChild fun child => ?_,
    Server.length_modifyChild s c _⟩
  case case16.refl => rw [Child.setPipe_session]
  case case18.refl => rw [Child.setPipe_session]
  all_goals rfl

omit [DecidableEq I] in
theorem stepCopy_same {j : ℕ} {task : Copy} {rxOpen : Bool} {e : TaskEvent}
    (hstep : s.stepCopy j task rxOpen e = some t) :
    t.calls = s.calls ∧ t.sessions = s.sessions ∧ t.sidOf = s.sidOf ∧
      t.children.length = s.children.length := by
  revert hstep
  fun_cases Server.stepCopy s j task rxOpen e
  all_goals intro hstep
  all_goals cases hstep
  case case5.refl =>
    refine ⟨rfl, rfl, Server.sidOf_modifyChild fun child => ?_, Server.length_modifyChild s _ _⟩
    rw [Child.setPipe_session]
  all_goals exact ⟨rfl, rfl, rfl, rfl⟩

theorem owned_step (s : Server I) (label : Label I) (t : Server I) (h : Owned s)
    (hstep : s.step label = some t) : Owned t := by
  cases serverStep_of_step hstep with
  | called request => exact h.called request
  | moved hlabel hcall hmove => exact owned_callStep h hcall hmove
  | child hchild hstep =>
    obtain ⟨hcalls, hsessions, -, hsid, hlen⟩ := stepChild_same hstep
    exact h.same hcalls hsessions hsid hlen
  | copy htask hcopy =>
    obtain ⟨hcalls, hsessions, hsid, hlen⟩ := stepCopy_same hcopy
    exact h.same hcalls hsessions hsid hlen
  | forwardDone htask => exact h.same rfl rfl rfl rfl

omit [DecidableEq I] in
theorem owned_new : Owned (Server.new : Server I) := by
  constructor <;> simp [Server.new, Server.sidOf]

end P9cpu.Cpu
