import P9cpu.Cpu.Calls

/-! A `start` call holds the sessions lock while it waits for its child to connect. The other
calls get on only if the child does connect. -/
namespace P9cpu.Cpu
open Core

variable {I : Type} {s t u : Server I} {k : ℕ}

/-- A `start` call waits in `accept`, under the sessions lock, for a child that has exited. -/
def Server.Wedged (s : Server I) : Prop :=
  ∃ (k : ℕ) (request : Request I) (l : Launch) (c : ℕ) (child : Child I) (code : Option ℤ),
    s.calls[k]? = some ⟨request, .accepting l c⟩ ∧ s.children[c]? = some child ∧
      child.phase = .exited code

/-- The label ends a child before its connection is accepted: `unshare` or `connect` fails in
it, or a signal kills it. -/
def Label.abortsLaunch : Label I → Option ℕ
  | .child c (.failed .unshare) | .child c (.failed .connectToPort) | .child c .killed => some c
  | _ => none

/-- No such end comes while the `start` call of the child waits in `accept`. -/
def ConnectsFirst (s : Server I) (label : Label I) : Prop :=
  ∀ (c k : ℕ) (request : Request I) (l : Launch),
    label.abortsLaunch = some c → s.calls[k]? ≠ some ⟨request, .accepting l c⟩

/-- The child is on its way to the listener of call `k`, or in its backlog. -/
def Child.Awaits (child : Child I) (k : ℕ) : Prop :=
  match child.phase with
  | .unsharing | .connecting => True
  | .reading => child.link = .queued k
  | _ => False

structure Launched (s : Server I) : Prop where
  ports : ∀ (i k : ℕ) (ci ck : Call I) (port : UInt16),
    s.calls[i]? = some ci → s.calls[k]? = some ck →
      ci.phase.listener = some port → ck.phase.listener = some port → i = k
  waiting : ∀ (k : ℕ) (request : Request I) (l : Launch) (c : ℕ),
    s.calls[k]? = some ⟨request, .accepting l c⟩ →
      ∃ child, s.children[c]? = some child ∧ child.port = l.port ∧ child.Awaits k
  peers : ∀ (k : ℕ) (request : Request I) (l : Launch) (c peer : ℕ) (n : Sending),
    s.calls[k]? = some ⟨request, .sending l c peer n⟩ →
      ∃ child, s.children[peer]? = some child ∧ child.link = .accepted k
  fresh : ∀ (c : ℕ) (child : Child I), s.children[c]? = some child →
    child.phase = .unsharing ∨ child.phase = .connecting → child.link = .none

/-- What a step of call `k` leaves of a child. -/
structure Child.Moved (k : ℕ) (child child' : Child I) : Prop where
  port : child'.port = child.port
  phase : child'.phase = child.phase
  link : child'.link = child.link ∨ child.link = .queued k ∨ child.link = .accepted k

theorem Child.Moved.trans {a b c : Child I} (hab : a.Moved k b) (hbc : b.Moved k c) :
    a.Moved k c where
  port := hbc.port.trans hab.port
  phase := hbc.phase.trans hab.phase
  link := by
    rcases hab.link with hb | hb
    · rcases hbc.link with hc | hc
      · exact .inl (hc.trans hb)
      · exact .inr (hb ▸ hc)
    · exact .inr hb

/-- A step of call `k` keeps the children but for their links to it. -/
def Keeps (k : ℕ) (s u : Server I) : Prop :=
  ∀ c : ℕ, Option.Rel (Child.Moved k) s.children[c]? u.children[c]?

theorem Keeps.of_eq (h : u.children = s.children) : Keeps k s u := by
  intro c
  rw [h]
  cases s.children[c]? with
  | none => exact .none
  | some child => exact .some ⟨rfl, rfl, .inl rfl⟩

theorem Keeps.trans (hst : Keeps k s t) (htu : Keeps k t u) : Keeps k s u := by
  intro c
  have hs := hst c
  have ht := htu c
  generalize s.children[c]? = a at hs
  generalize t.children[c]? = b at hs ht
  generalize u.children[c]? = d at ht
  cases hs with
  | none => exact ht
  | some hab =>
    cases ht with
    | some hbc => exact .some (hab.trans hbc)

theorem Keeps.modifyChild {c : ℕ} {f : Child I → Child I}
    (h : ∀ child, s.children[c]? = some child → child.Moved k (f child)) :
    Keeps k s (s.modifyChild c f) := by
  intro d
  simp only [Server.modifyChild, List.getElem?_modify]
  split
  · rename_i hcd
    subst hcd
    cases hc : s.children[c]? with
    | none => exact .none
    | some child => exact .some (h child hc)
  · simpa using Keeps.of_eq (s := s) (k := k) rfl d

theorem Keeps.closeListener : Keeps k s (s.closeListener k) := by
  intro c
  simp only [Server.closeListener, List.getElem?_map]
  cases s.children[c]? with
  | none => exact .none
  | some child =>
    refine .some ?_
    by_cases hlink : child.link = .queued k
    · simp only [hlink, if_true]
      exact ⟨rfl, rfl, .inr (.inl hlink)⟩
    · simp only [hlink, if_false]
      exact ⟨rfl, rfl, .inl rfl⟩

theorem Keeps.setLink {peer : ℕ} {child : Child I} {link : Link}
    (hchild : s.children[peer]? = some child)
    (h : child.link = .queued k ∨ child.link = .accepted k) : Keeps k s (s.setLink peer link) := by
  refine Keeps.modifyChild fun child' hchild' => ?_
  obtain rfl := Option.some.inj (hchild.symm.trans hchild')
  exact ⟨rfl, rfl, .inr h⟩

theorem keeps_release {request : Request I} {p : Phase} (h : Launched s)
    (hcall : s.calls[k]? = some ⟨request, p⟩) : Keeps k s (s.release k p) := by
  cases p with
  | launching l => exact Keeps.closeListener
  | accepting l c => exact Keeps.closeListener
  | sending l c peer n =>
    obtain ⟨child, hchild, hlink⟩ := h.peers k request l c peer n hcall
    exact (Keeps.setLink hchild (.inr hlink)).trans Keeps.closeListener
  | _ => exact Keeps.of_eq rfl

theorem Child.Awaits.moved {child child' : Child I} {i : ℕ} (hik : i ≠ k) (h : child.Awaits i)
    (hm : child.Moved k child') : child'.Awaits i := by
  unfold Child.Awaits at h ⊢
  rw [hm.phase]
  cases hp : child.phase with
  | reading =>
    simp only [hp] at h
    rcases hm.link with hl | hl | hl
    · exact hl.trans h
    · rw [h] at hl
      exact absurd (Link.queued.inj hl) hik
    · simp [h] at hl
  | _ => simp_all

theorem Launched.waiting_of_keeps (h : Launched s) (hkeeps : Keeps k s u) {i : ℕ} (hik : i ≠ k)
    {request : Request I} {l : Launch} {c : ℕ} (hcall : s.calls[i]? = some ⟨request, .accepting l c⟩) :
    ∃ child, u.children[c]? = some child ∧ child.port = l.port ∧ child.Awaits i := by
  obtain ⟨child, hchild, hport, hawaits⟩ := h.waiting i request l c hcall
  have hrel := hkeeps c
  rw [hchild] at hrel
  generalize u.children[c]? = d at hrel
  cases hrel with
  | some hm => exact ⟨_, rfl, hm.port.trans hport, hawaits.moved hik hm⟩

theorem Launched.peers_of_keeps (h : Launched s) (hkeeps : Keeps k s u) {i : ℕ} (hik : i ≠ k)
    {request : Request I} {l : Launch} {c peer : ℕ} {n : Sending}
    (hcall : s.calls[i]? = some ⟨request, .sending l c peer n⟩) :
    ∃ child, u.children[peer]? = some child ∧ child.link = .accepted i := by
  obtain ⟨child, hchild, hlink⟩ := h.peers i request l c peer n hcall
  have hrel := hkeeps peer
  rw [hchild] at hrel
  generalize u.children[peer]? = d at hrel
  cases hrel with
  | some hm =>
    refine ⟨_, rfl, ?_⟩
    rcases hm.link with hl | hl | hl
    · exact hl.trans hlink
    · simp [hlink] at hl
    · rw [hlink] at hl
      exact absurd (Link.accepted.inj hl) hik

theorem Launched.fresh_of_keeps (h : Launched s) (hkeeps : Keeps k s u) (c : ℕ) (child' : Child I)
    (hchild' : u.children[c]? = some child')
    (hphase : child'.phase = .unsharing ∨ child'.phase = .connecting) : child'.link = .none := by
  have hrel := hkeeps c
  rw [hchild'] at hrel
  cases hchild : s.children[c]? with
  | none => simp [hchild] at hrel
  | some child =>
    rw [hchild] at hrel
    cases hrel with
    | some hm =>
      have hnone : child.link = .none := h.fresh c child hchild (hm.phase ▸ hphase)
      rcases hm.link with hl | hl | hl
      · exact hl.trans hnone
      · simp [hnone] at hl
      · simp [hnone] at hl

/-- A step that leaves the calls alone and changes no child's place in its launch. -/
theorem Launched.same (h : Launched s) (hcalls : u.calls = s.calls)
    (hkeeps : Keeps s.calls.length s u) : Launched u where
  ports i k ci ck port := by
    rw [hcalls]
    exact h.ports i k ci ck port
  waiting k request l c hcall := by
    rw [hcalls] at hcall
    have hlt := (List.getElem?_eq_some_iff.mp hcall).1
    exact h.waiting_of_keeps hkeeps (by omega) hcall
  peers k request l c peer n hcall := by
    rw [hcalls] at hcall
    have hlt := (List.getElem?_eq_some_iff.mp hcall).1
    exact h.peers_of_keeps hkeeps (by omega) hcall
  fresh := h.fresh_of_keeps hkeeps

theorem listener_ne_of_listening {port : UInt16} (h : s.listening port = false) {i : ℕ}
    {call : Call I} (hcall : s.calls[i]? = some call) : call.phase.listener ≠ some port := by
  simp only [Server.listening, List.any_eq_false, decide_eq_true_eq] at h
  exact h call (List.mem_of_getElem? hcall)

/-- A call moves on with no listener, with the one it had, or with a new one; it does not
enter `accept`. -/
theorem Launched.moved {request : Request I} {p q : Phase} (h : Launched s)
    (hcall : s.calls[k]? = some ⟨request, p⟩) (hu : u.calls = s.calls) (hkeeps : Keeps k s u)
    (hport : ∀ port, q.listener = some port →
      p.listener = some port ∨ s.listening port = false)
    (hacc : ∀ l c, q ≠ .accepting l c)
    (hpeer : ∀ l c peer n, q = .sending l c peer n →
      ∃ child, u.children[peer]? = some child ∧ child.link = .accepted k) :
    Launched (u.setPhase k q) where
  ports i j ci cj port hi hj hci hcj := by
    rw [calls_moved hcall hu] at hi hj
    by_contra hij
    -- a port of `q` is that of call `k` before, or of no call
    have hother : ∀ (i : ℕ) (ci : Call I), i ≠ k → s.calls[i]? = some ci →
        ci.phase.listener = some port → q.listener ≠ some port := by
      intro i ci hik hi hci hq
      rcases hport port hq with hp | hp
      · exact hik (h.ports i k ci ⟨request, p⟩ port hi hcall hci hp)
      · exact listener_ne_of_listening hp hi hci
    split_ifs at hi hj with hik hjk hjk
    · exact hij (hik.trans hjk.symm)
    · cases hi
      exact hother j cj hjk hj hcj hci
    · cases hj
      exact hother i ci hik hi hci hcj
    · exact hij (h.ports i j ci cj port hi hj hci hcj)
  waiting i r l c hi := by
    rw [calls_moved hcall hu] at hi
    split_ifs at hi with hik
    · cases hi
      exact absurd rfl (hacc l c)
    · exact h.waiting_of_keeps hkeeps hik hi
  peers i r l c peer n hi := by
    rw [calls_moved hcall hu] at hi
    split_ifs at hi with hik
    · cases hi
      exact hik ▸ hpeer l c peer n rfl
    · exact h.peers_of_keeps hkeeps hik hi
  fresh := h.fresh_of_keeps hkeeps

variable [DecidableEq I]

theorem keeps_insertSession {request : Request I} {sid : I} {l : Launch} {c peer : ℕ} {n : Sending}
    (h : Launched s) (hcall : s.calls[k]? = some ⟨request, .sending l c peer n⟩) :
    Keeps k s (s.insertSession k sid l c peer) := by
  obtain ⟨child, hchild, hlink⟩ := h.peers k request l c peer n hcall
  have hlinked : Keeps k s (s.setLink peer (.delivered l.cmd)) := Keeps.setLink hchild (.inr hlink)
  have hclosed : Keeps k s ((s.setLink peer (.delivered l.cmd)).closeListener k) :=
    hlinked.trans Keeps.closeListener
  exact hclosed.trans (Keeps.modifyChild fun child _ => ⟨rfl, rfl, .inl rfl⟩)

omit [DecidableEq I] in
theorem Launched.spawned {request : Request I} {l : Launch} (h : Launched s)
    (hcall : s.calls[k]? = some ⟨request, .launching l⟩) :
    Launched ((s.spawnChild l).setPhase k (.accepting l s.children.length)) := by
  have hnew : ∀ (c : ℕ) (child : Child I), s.children[c]? = some child →
      (s.children ++ [Child.spawned l])[c]? = some child := by
    intro c child hchild
    rw [List.getElem?_append_left (List.getElem?_eq_some_iff.mp hchild).1, hchild]
  have hcalls := calls_moved (q := .accepting l s.children.length) hcall (u := s.spawnChild l) rfl
  constructor
  case ports =>
    intro i j ci cj port hi hj hci hcj
    rw [hcalls] at hi hj
    have hself : ∀ port, (Phase.accepting l s.children.length).listener = some port →
        (Phase.launching l).listener = some port := fun _ hp => hp
    split_ifs at hi hj with hik hjk hjk
    · omega
    · cases hi
      exact hik.trans (h.ports k j _ cj port hcall hj (hself port hci) hcj)
    · cases hj
      exact (h.ports i k ci _ port hi hcall hci (hself port hcj)).trans hjk.symm
    · exact h.ports i j ci cj port hi hj hci hcj
  case waiting =>
    intro i r l' c hi
    rw [hcalls] at hi
    split_ifs at hi with hik
    · cases hi
      exact ⟨Child.spawned l, by simp [Server.spawnChild], rfl, trivial⟩
    · obtain ⟨child, hchild, hport, hawaits⟩ := h.waiting i r l' c hi
      exact ⟨child, hnew c child hchild, hport, hawaits⟩
  case peers =>
    intro i r l' c peer n hi
    rw [hcalls] at hi
    split_ifs at hi with hik
    · cases hi
    · obtain ⟨child, hchild, hlink⟩ := h.peers i r l' c peer n hi
      exact ⟨child, hnew peer child hchild, hlink⟩
  case fresh =>
    intro c child hchild hphase
    simp only [Server.setPhase_children, Server.spawnChild, List.getElem?_append] at hchild
    split_ifs at hchild with hc
    · exact h.fresh c child hchild hphase
    · have hmem := List.mem_of_getElem? hchild
      rw [List.mem_singleton] at hmem
      rw [hmem]
      rfl

theorem launched_callStep {request : Request I} {p q : Phase} (h : Launched s)
    (hcall : s.calls[k]? = some ⟨request, p⟩) (hstep : CallStep s k request p q u) :
    Launched (u.setPhase k q) := by
  have hu := hstep.calls_eq
  cases hstep with
  | spawned sid cmd l => exact h.spawned hcall
  | failed _ _ e | dropped =>
    exact h.moved hcall hu (keeps_release h hcall) (by simp [Phase.listener]) (by simp) (by simp)
  | inserted sid cmd l c peer =>
    exact h.moved hcall hu (keeps_insertSession h hcall) (by simp [Phase.listener]) (by simp)
      (by simp)
  | bound sid cmd ninep l hport hl hhandles =>
    refine h.moved hcall hu (Keeps.of_eq rfl) ?_ (by simp) (by simp)
    intro port hq
    obtain rfl := Option.some.inj hq
    exact .inr hport
  | accepted sid cmd l c peer child hchild hlink =>
    refine h.moved hcall hu (Keeps.setLink hchild (.inl hlink)) (fun port hq => .inl hq) (by simp)
      ?_
    rintro _ _ _ _ ⟨⟩
    exact ⟨{ child with link := .accepted k }, by
      simp [Server.setLink, Server.modifyChild, hchild], rfl⟩
  | sent sid cmd l c peer n m =>
    refine h.moved hcall hu (Keeps.of_eq rfl) (fun port hq => .inl hq) (by simp) ?_
    rintro _ _ _ _ ⟨⟩
    exact h.peers k _ l c peer n hcall
  | tookItem sid c item =>
    refine h.moved hcall hu (Keeps.of_eq rfl) ?_ ?_ ?_ <;> split <;> simp [Phase.listener]
  | wrote sid c len rest =>
    refine h.moved hcall hu (Keeps.modifyChild fun _ _ => ⟨rfl, rfl, .inl rfl⟩) ?_ ?_ ?_ <;>
      split <;> simp [Phase.listener]
  | pushed | joined =>
    exact h.moved hcall hu (Keeps.modifyChild fun _ _ => ⟨rfl, rfl, .inl rfl⟩)
      (by simp [Phase.listener]) (by simp) (by simp)
  | _ =>
    exact h.moved hcall hu (Keeps.of_eq rfl) (by simp [Phase.listener]) (by simp) (by simp)

omit [DecidableEq I] in
/-- A step of child `c` itself. -/
theorem Launched.child {c : ℕ} {child : Child I} {f : Child I → Child I} (h : Launched s)
    (hchild : s.children[c]? = some child) (hport : (f child).port = child.port)
    (hawaits : ∀ k request l, s.calls[k]? = some ⟨request, .accepting l c⟩ → child.port = l.port →
      child.Awaits k → (f child).Awaits k)
    (hlink : ∀ k, child.link = .accepted k → (f child).link = .accepted k)
    (hfresh : (f child).phase = .unsharing ∨ (f child).phase = .connecting →
      (f child).link = .none) : Launched (s.modifyChild c f) := by
  have hself : (s.modifyChild c f).children[c]? = some (f child) := by
    simp [Server.modifyChild, hchild]
  have hother : ∀ d : ℕ, d ≠ c → (s.modifyChild c f).children[d]? = s.children[d]? := by
    intro d hd
    simp [Server.modifyChild, Ne.symm hd]
  refine ⟨h.ports, ?_, ?_, ?_⟩
  · intro k request l d hcall
    obtain ⟨child', hchild', hp, ha⟩ := h.waiting k request l d hcall
    by_cases hd : d = c
    · subst hd
      obtain rfl := Option.some.inj (hchild.symm.trans hchild')
      exact ⟨_, hself, hport.trans hp, hawaits k request l hcall hp ha⟩
    · exact ⟨child', (hother d hd).trans hchild', hp, ha⟩
  · intro k request l d peer n hcall
    obtain ⟨child', hchild', hl⟩ := h.peers k request l d peer n hcall
    by_cases hd : peer = c
    · subst hd
      obtain rfl := Option.some.inj (hchild.symm.trans hchild')
      exact ⟨_, hself, hlink k hl⟩
    · exact ⟨child', (hother peer hd).trans hchild', hl⟩
  · intro d child' hchild' hphase
    by_cases hd : d = c
    · subst hd
      obtain rfl := Option.some.inj (hself.symm.trans hchild')
      exact hfresh hphase
    · rw [hother d hd] at hchild'
      exact h.fresh d child' hchild' hphase

omit [DecidableEq I] in
theorem Launched.keepsLaunch {c : ℕ} {child : Child I} {f : Child I → Child I} (h : Launched s)
    (hchild : s.children[c]? = some child) (hport : (f child).port = child.port)
    (hphase : (f child).phase = child.phase) (hlink : (f child).link = child.link) :
    Launched (s.modifyChild c f) := by
  refine h.child hchild hport ?_ ?_ ?_
  · intro k request l _ _ ha
    unfold Child.Awaits at ha ⊢
    rwa [hphase, hlink]
  · intro k hl
    exact hlink.trans hl
  · rw [hphase, hlink]
    exact h.fresh c child hchild

omit [DecidableEq I] in
/-- The child goes on to a phase in which it has its connection behind it, and no call waits
for that connection. -/
theorem Launched.leaves {c : ℕ} {child : Child I} {f : Child I → Child I} (h : Launched s)
    (hchild : s.children[c]? = some child)
    (hno : ∀ k request l, s.calls[k]? = some ⟨request, .accepting l c⟩ → ¬ child.Awaits k)
    (hport : (f child).port = child.port) (hlink : (f child).link = child.link)
    (hphase : (f child).phase ≠ .unsharing ∧ (f child).phase ≠ .connecting) :
    Launched (s.modifyChild c f) := by
  refine h.child hchild hport ?_ ?_ ?_
  · intro k request l hcall _ ha
    exact absurd ha (hno k request l hcall)
  · intro k hl
    exact hlink.trans hl
  · rintro (hp | hp)
    · exact absurd hp hphase.1
    · exact absurd hp hphase.2

omit [DecidableEq I] in
/-- The errors of `connect` after its connection come when no call waits for it any more. -/
theorem not_awaits_of_at {c : ℕ} {child : Child I} {e : LaunchError} (hat : e.at child = true)
    (habort : (Label.child (I := I) c (.failed e)).abortsLaunch ≠ some c) : ¬ child.Awaits k := by
  intro ha
  unfold Child.Awaits at ha
  cases hphase : child.phase with
  | unsharing => cases e <;> simp_all [LaunchError.at, Label.abortsLaunch]
  | connecting => cases e <;> simp_all [LaunchError.at, Label.abortsLaunch]
  | reading =>
    rw [hphase] at ha
    cases e <;> simp_all [LaunchError.at]
  | _ => simp [hphase] at ha

omit [DecidableEq I] in
theorem launched_stepChild {c : ℕ} {child : Child I} {e : ChildEvent} (h : Launched s)
    (hfirst : ConnectsFirst s (.child c e)) (hchild : s.children[c]? = some child)
    (hstep : s.stepChild c child e = some t) : Launched t := by
  revert hstep
  fun_cases Server.stepChild s c child e
  all_goals intro hstep
  all_goals cases hstep
  case case1.refl hphase =>
    have hnone : child.link = .none := h.fresh c child hchild (.inl hphase)
    exact h.child hchild rfl (fun _ _ _ _ _ _ => trivial) (fun k hl => hl) (fun _ => hnone)
  case case3.refl i call hcall hphase =>
    refine h.child hchild rfl ?_ ?_ (by simp)
    · intro k request l haccept hport _
      have hik : i = k := by
        refine h.ports i k call _ l.port hcall haccept ?_ rfl
        exact hphase.2.trans (congrArg some hport)
      simp [Child.Awaits, hik]
    · intro k hl
      have hnone : child.link = .none := h.fresh c child hchild (.inr hphase.1)
      simp [hnone] at hl
  case case6.refl cmd hlink hphase =>
    refine h.leaves hchild (fun _ _ _ _ ha => ?_) rfl rfl (by simp)
    simp [Child.Awaits, hphase, hlink] at ha
  case case8.refl cmd hphase =>
    refine h.leaves hchild (fun _ _ _ _ ha => ?_) rfl rfl (by simp)
    simp [Child.Awaits, hphase] at ha
  case case10.refl e hat =>
    refine h.leaves hchild (fun k request l haccept ha => ?_) rfl rfl (by simp)
    by_cases habort : (Label.child (I := I) c (.failed e)).abortsLaunch = some c
    · exact hfirst c k request l habort haccept
    · exact not_awaits_of_at hat habort ha
  case case12.refl code hphase =>
    refine h.leaves hchild (fun _ _ _ _ ha => ?_) rfl rfl (by simp)
    simp [Child.Awaits, hphase] at ha
  case case15.refl hlive =>
    refine h.leaves hchild (fun k request l haccept _ => ?_) rfl rfl (by simp)
    exact hfirst c k request l rfl haccept
  case case16.refl out buf p hp => exact h.keepsLaunch hchild (by simp) (by simp) (by simp)
  case case18.refl out => exact h.keepsLaunch hchild (by simp) (by simp) (by simp)

omit [DecidableEq I] in
theorem stepCopy_keeps {j : ℕ} {task : Copy} {rxOpen : Bool} {e : TaskEvent}
    (hstep : s.stepCopy j task rxOpen e = some t) : t.calls = s.calls ∧ Keeps k s t := by
  revert hstep
  fun_cases Server.stepCopy s j task rxOpen e
  all_goals intro hstep
  all_goals cases hstep
  case case5.refl =>
    exact ⟨rfl, Keeps.modifyChild fun _ _ => ⟨by simp, by simp, .inl (by simp)⟩⟩
  all_goals exact ⟨rfl, Keeps.of_eq rfl⟩

omit [DecidableEq I] in
theorem Launched.called (h : Launched s) (request : Request I) :
    Launched { s with calls := s.calls ++ [⟨request, .called⟩] } := by
  have hlisten : ∀ (call : Call I) (port : UInt16), call.phase.listener = some port →
      call.phase ≠ .called := by
    intro call port hport hphase
    simp [hphase, Phase.listener] at hport
  refine ⟨?_, ?_, ?_, h.fresh⟩
  · intro i k ci ck port hi hk hci hck
    exact h.ports i k ci ck port (call_of_called hi (hlisten ci port hci))
      (call_of_called hk (hlisten ck port hck)) hci hck
  · intro k request l c hk
    exact h.waiting k request l c (call_of_called hk (by simp))
  · intro k request l c peer n hk
    exact h.peers k request l c peer n (call_of_called hk (by simp))

theorem launched_step (s : Server I) (label : Label I) (t : Server I) (h : Launched s)
    (hfirst : ConnectsFirst s label) (hstep : s.step label = some t) : Launched t := by
  cases serverStep_of_step hstep with
  | called request => exact h.called request
  | moved hlabel hcall hmove => exact launched_callStep h hcall hmove
  | child hchild hstep => exact launched_stepChild h hfirst hchild hstep
  | copy htask hcopy =>
    obtain ⟨hcalls, hkeeps⟩ := stepCopy_keeps (k := s.calls.length) hcopy
    exact h.same hcalls hkeeps
  | forwardDone htask => exact h.same rfl (Keeps.of_eq rfl)

omit [DecidableEq I] in
theorem launched_new : Launched (Server.new : Server I) := by
  constructor <;> simp [Server.new]

omit [DecidableEq I] in
theorem Launched.not_wedged (h : Launched s) : ¬ s.Wedged := by
  rintro ⟨k, request, l, c, child, code, hcall, hchild, hphase⟩
  obtain ⟨child', hchild', -, hawaits⟩ := h.waiting k request l c hcall
  obtain rfl := Option.some.inj (hchild.symm.trans hchild')
  simp [Child.Awaits, hphase] at hawaits

omit [DecidableEq I] in
theorem exits_of_abort {c : ℕ} {child : Child I} {e : ChildEvent}
    (habort : (Label.child (I := I) c e).abortsLaunch ≠ none)
    (hstep : s.stepChild c child e = some t) :
    ∃ code, t = s.modifyChild c (fun child => { child with phase := .exited code }) := by
  revert hstep
  fun_cases Server.stepChild s c child e
  all_goals intro hstep
  all_goals cases hstep
  case case10.refl => exact ⟨_, rfl⟩
  case case15.refl => exact ⟨_, rfl⟩
  all_goals simp [Label.abortsLaunch] at habort

/-- The end of a child before it connected leaves its call in `accept`. -/
theorem wedged_of_abort {label : Label I} (hstep : s.step label = some t)
    (hfirst : ¬ ConnectsFirst s label) : t.Wedged := by
  simp only [ConnectsFirst, not_forall, not_not] at hfirst
  obtain ⟨c, k, request, l, habort, hcall⟩ := hfirst
  cases serverStep_of_step hstep with
  | @child d child e t hchild hexit =>
    have hc : d = c := by
      unfold Label.abortsLaunch at habort
      split at habort <;> simp_all
    subst hc
    obtain ⟨code, rfl⟩ := exits_of_abort (by simp [habort]) hexit
    refine ⟨k, request, l, d, { child with phase := .exited code }, code, hcall, ?_, rfl⟩
    simp [Server.modifyChild, hchild]
  | moved hlabel => cases label <;> simp [Label.movesCall, Label.abortsLaunch] at hlabel habort
  | _ => simp [Label.abortsLaunch] at habort

omit [DecidableEq I] in
/-- While a call waits for a child that is gone, no call gets at any session. -/
theorem getSession_of_wedged (h : s.Wedged) (sid : I) : s.getSession sid = none := by
  obtain ⟨k, request, l, c, child, code, hcall, -, -⟩ := h
  have hlocked : s.unlocked = false := by
    rw [Server.unlocked, List.all_eq_false]
    exact ⟨_, List.mem_of_getElem? hcall, by simp [Phase.holdsSessions]⟩
  simp [Server.getSession, hlocked]

/-- No call of a run is left waiting for a child that has exited if and only if no child ends
before its connection is accepted. -/
theorem never_wedged_iff {labels : List (Label I)} {s : Server I}
    (h : runs Server.step Server.new labels = some s) :
    (∀ (ls ms : List (Label I)) (t : Server I), labels = ls ++ ms →
      runs Server.step Server.new ls = some t → ¬ t.Wedged) ↔
    Along Server.step ConnectsFirst Server.new labels := by
  constructor
  · intro hnever
    refine along_of_prefix fun ms l ns t hlabels ht => ?_
    by_contra hfirst
    subst hlabels
    obtain ⟨t', ht', hrest⟩ := runs_append_eq_some.mp h
    obtain rfl := Option.some.inj (ht.symm.trans ht')
    obtain ⟨u, hu, -⟩ := runs_cons_eq_some.mp hrest
    have hms : runs Server.step Server.new (ms ++ [l]) = some u := by
      simp [runs_append, ht, hu]
    exact hnever (ms ++ [l]) ns u (by simp) hms (wedged_of_abort hu hfirst)
  · intro hfirst ls ms t hlabels ht
    subst hlabels
    exact (runs_invariant_along launched_step hfirst.append_left ht launched_new).not_wedged

/-- `start` of a command without 9p on a session just created, up to its `accept`. -/
def startRun : List (Label ℕ) :=
  [.call (.dial 0), .dial 0,
    .call (.start 0 ⟨"ls", [], [], [], false, false, "/tmp", 0, 0⟩), .start 1 .takePending,
    .start 1 .lockSessions, .start 1 (.bound 40000), .start 1 .spawned]

def connectRun : List (Label ℕ) :=
  startRun ++ [.child 0 .unshared, .child 0 (.connected 1), .start 1 (.accepted 0)]

theorem connectRun_isSome : (runs Server.step Server.new connectRun).isSome = true := by
  decide +kernel

theorem never_wedged_iff_connectRun :
    (∀ (ls ms : List (Label ℕ)) (t : Server ℕ), connectRun = ls ++ ms →
      runs Server.step Server.new ls = some t → ¬ t.Wedged) ↔
    Along Server.step ConnectsFirst Server.new connectRun :=
  never_wedged_iff (Option.some_get connectRun_isSome).symm

/-- `unshare` fails in the child of `startRun`. -/
theorem wedged_of_unshare :
    ¬ ∀ (labels : List (Label ℕ)) (s : Server ℕ),
      runs Server.step Server.new labels = some s → ¬ s.Wedged := by
  intro h
  apply h (startRun ++ [.child 0 (.failed .unshare)]) _ rfl
  exact ⟨1, _, _, 0, _, _, rfl, rfl, rfl⟩

end P9cpu.Cpu
