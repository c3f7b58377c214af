import P9cpu.Cpu.Pending

/-! `wait` joins the handles of its session: which of them are joined already, and what the
call returns. -/
namespace P9cpu.Cpu
open Core
open Ninep (IoError)

variable {I : Type} {s t u : Server I} {k : ℕ}

/-- The child to whose session a `wait`, `stdout` or `stderr` call has a pointer. -/
def Phase.visits : Phase → Option ℕ
  | .pushing c _ | .lockingChild c | .waiting c | .lockingHandles c _ | .joining c _ _ => some c
  | _ => none

/-- What a `wait` call has kept of the exit status of its child. -/
def Phase.result : Phase → Option (Except Error ℤ)
  | .exited ret | .lockingHandles _ ret | .joining _ _ ret | .removing ret => some ret
  | _ => none

namespace Server

/-- A part of a child. -/
def look {α : Type} (s : Server I) (f : Child I → Option α) (c : ℕ) : Option α :=
  (s.children[c]?).bind f

theorem look_modifyChild {α : Type} {f : Child I → Option α} {c : ℕ} {g : Child I → Child I}
    (h : ∀ child, f (g child) = f child) : (s.modifyChild c g).look f = s.look f := by
  funext d
  simp only [look, modifyChild, List.getElem?_modify]
  split
  · cases s.children[d]? with
    | none => rfl
    | some child => exact h child
  · simp

theorem look_closeListener {α : Type} {f : Child I → Option α}
    (h : ∀ (child : Child I) (link : Link), f { child with link := link } = f child)
    (s : Server I) (k : ℕ) : (s.closeListener k).look f = s.look f := by
  funext c
  simp only [look, closeListener, List.getElem?_map]
  cases s.children[c]? with
  | none => rfl
  | some child =>
    simp only [Option.map_some, Option.bind_some]
    split
    · exact h child .closed
    · rfl

theorem look_release {α : Type} {f : Child I → Option α}
    (h : ∀ (child : Child I) (link : Link), f { child with link := link } = f child)
    (s : Server I) (k : ℕ) (p : Phase) : (s.release k p).look f = s.look f := by
  cases p with
  | launching l => exact look_closeListener h s k
  | accepting l c => exact look_closeListener h s k
  | sending l c peer n =>
    exact (look_closeListener h _ k).trans (look_modifyChild fun child => h child .closed)
  | _ => rfl

theorem look_spawnChild {α : Type} {f : Child I → Option α} {l : Launch}
    (h : f (Child.spawned l) = none) (s : Server I) : (s.spawnChild l).look f = s.look f := by
  funext c
  simp only [look, spawnChild, List.getElem?_append]
  split_ifs with hc
  · rfl
  · rw [List.getElem?_eq_none (by omega : s.children.length ≤ c)]
    cases c - s.children.length with
    | zero => exact h
    | succ n => rfl

/-- The exit result of a child that has exited. -/
def exitOf (s : Server I) : ℕ → Option (Except Error ℤ) :=
  s.look (fun child => exitResult child.phase)

theorem exitOf_modifyChild {c d : ℕ} {g : Child I → Child I} {ret : Except Error ℤ}
    (h : ∀ child, s.children[c]? = some child → exitResult child.phase = some ret →
      exitResult (g child).phase = some ret)
    (hd : s.exitOf d = some ret) : (s.modifyChild c g).exitOf d = some ret := by
  simp only [exitOf, look, modifyChild, List.getElem?_modify] at hd ⊢
  split
  · rename_i hcd
    subst hcd
    cases hc : s.children[c]? with
    | none => simp [hc] at hd
    | some child =>
      simp only [hc, Option.bind_some] at hd
      exact h child hc hd
  · simpa using hd

theorem sidOf_of_look (h : u.look Child.session = s.look Child.session) : u.sidOf = s.sidOf := by
  have hmap : ∀ (v : Server I) (c : ℕ), v.sidOf c = (v.look Child.session c).map Session.sid := by
    intro v c
    simp only [sidOf, look]
    cases v.children[c]? <;> rfl
  funext c
  rw [hmap, hmap, h]

theorem handles_of_look (h : u.look Child.session = s.look Child.session) :
    u.handles = s.handles := by
  funext c
  exact congrArg (fun session => Option.elim session [] Session.handles) (congrFun h c)

/-- A change of the handles of one session. -/
theorem handles_modifySession (s : Server I) (c d : ℕ) (g : List Handle → List Handle) :
    (s.modifyChild c (fun child => { child with
      session := child.session.map (fun session =>
        { session with handles := g session.handles }) })).handles d =
      if d = c ∧ (s.look Child.session c).isSome = true then g (s.handles c) else s.handles d := by
  by_cases hdc : d = c
  · subst hdc
    rcases hd : s.children[d]? with _ | child
    · simp [handles, look, modifyChild, hd]
    · cases hsession : child.session <;> simp [handles, look, modifyChild, hd, hsession]
  · simp [handles, look, modifyChild, hdc, Ne.symm hdc]

theorem handles_takeHandle (s : Server I) (c i d : ℕ) :
    (s.takeHandle c i).handles d =
      if d = c ∧ (s.look Child.session c).isSome = true then
        (s.handles c).modify i (fun h => { h with joined := true }) else s.handles d :=
  handles_modifySession s c d (fun handles => handles.modify i (fun h => { h with joined := true }))

theorem handles_pushHandle (s : Server I) (c j d : ℕ) :
    (s.pushHandle c j).handles d =
      if d = c ∧ (s.look Child.session c).isSome = true then s.handles c ++ [Handle.mk j false]
      else s.handles d :=
  handles_modifySession s c d (fun handles => handles ++ [Handle.mk j false])

end Server

theorem exitResult_failed {child : Child I} {e : LaunchError} (h : e.at child = true) :
    Server.exitResult child.phase = none := by
  unfold LaunchError.at at h
  cases hp : child.phase <;> cases e <;> simp_all [Server.exitResult]

theorem stepChild_look {c : ℕ} {child : Child I} {e : ChildEvent}
    (hchild : s.children[c]? = some child) (hstep : s.stepChild c child e = some t) :
    t.look Child.session = s.look Child.session ∧
      ∀ (d : ℕ) (ret : Except Error ℤ), s.exitOf d = some ret → t.exitOf d = some ret := by
  have hlook : ∀ g : Child I → Child I, (∀ child, (g child).session = child.session) →
      (Server.exitResult child.phase = none ∨ (g child).phase = child.phase) →
      (s.modifyChild c g).look Child.session = s.look Child.session ∧
        ∀ (d : ℕ) (ret : Except Error ℤ),
          s.exitOf d = some ret → (s.modifyChild c g).exitOf d = some ret := by
    intro g hsession hphase
    refine ⟨Server.look_modifyChild hsession, fun d ret hd => Server.exitOf_modifyChild ?_ hd⟩
    intro child' hchild' hret
    rw [hchild] at hchild'
    cases hchild'
    rcases hphase with hnone | hsame
    · simp [hnone] at hret
    · rw [hsame, hret]
  revert hstep
  fun_cases Server.stepChild s c child e
  all_goals intro hstep
  all_goals cases hstep
  case case10.refl e hat => exact hlook _ (fun _ => rfl) (.inl (exitResult_failed hat))
  case case15.refl hlive =>
    refine hlook _ (fun _ => rfl) (.inl ?_)
    cases hp : child.phase with
    | exited code => exact absurd hp (hlive code)
    | _ => rfl
  case case16.refl => exact hlook _ (by simp) (.inr (by simp))
  case case18.refl => exact hlook _ (by simp) (.inr (by simp))
  all_goals refine hlook _ (fun _ => rfl) (.inl ?_)
  all_goals simp_all [Server.exitResult]

theorem stepCopy_look {j : ℕ} {task : Copy} {rxOpen : Bool} {e : TaskEvent}
    (hstep : s.stepCopy j task rxOpen e = some t) :
    t.look Child.session = s.look Child.session ∧
      ∀ (d : ℕ) (ret : Except Error ℤ), s.exitOf d = some ret → t.exitOf d = some ret := by
  revert hstep
  fun_cases Server.stepCopy s j task rxOpen e
  all_goals intro hstep
  all_goals cases hstep
  case case5.refl =>
    refine ⟨Server.look_modifyChild (by simp), fun d ret hd => ?_⟩
    exact Server.exitOf_modifyChild (fun child _ hret => by simpa using hret) hd
  all_goals exact ⟨rfl, fun _ _ hd => hd⟩

/-- The handles of a child before `n` are joined, and no other. -/
def Server.JoinedTo (s : Server I) (c n : ℕ) : Prop :=
  n ≤ (s.handles c).length ∧
    ∀ (j : ℕ) (h : Handle), (s.handles c)[j]? = some h → (h.joined = true ↔ j < n)

/-- The host's `wait` on a child of the session failed, or the child has exited with `ret`. -/
def Server.Exited (WaitFails : ℕ → IoError → Prop) (s : Server I) (k : ℕ) (sid : I)
    (ret : Except Error ℤ) : Prop :=
  (∃ e, WaitFails k e ∧ ret = .error (.commandError e)) ∨
    ∃ c, s.sidOf c = some sid ∧ s.exitOf c = some ret

structure Joining (WaitFails : ℕ → IoError → Prop) (s : Server I) : Prop where
  visits : ∀ (k : ℕ) (call : Call I) (c : ℕ), s.calls[k]? = some call →
    call.phase.visits = some c → s.sidOf c = some call.request.sid
  exclusive : ∀ (i k : ℕ) (ci ck : Call I) (c : ℕ), s.calls[i]? = some ci →
    s.calls[k]? = some ck → ci.phase.holdsHandles c = true → ck.phase.holdsHandles c = true → i = k
  results : ∀ (k : ℕ) (call : Call I) (ret : Except Error ℤ), s.calls[k]? = some call →
    call.phase.result = some ret → s.Exited WaitFails k call.request.sid ret
  answers : ∀ (k : ℕ) (sid : I) (ret : Except Error Answer),
    s.calls[k]? = some ⟨.wait sid, .done ret⟩ → ret = .error .sessionNotExist ∨
      ∃ r : Except Error ℤ, ret = r.map Answer.code ∧ s.Exited WaitFails k sid r
  joined : ∀ c, ∃ n, s.JoinedTo c n
  joining : ∀ (k : ℕ) (request : Request I) (c i : ℕ) (ret : Except Error ℤ),
    s.calls[k]? = some ⟨request, .joining c i ret⟩ → s.JoinedTo c i
  whole : ∀ (k : ℕ) (request : Request I), s.calls[k]? ≠ some ⟨request, .panicked⟩

variable {WaitFails : ℕ → IoError → Prop}

theorem Server.Exited.mono {sid : I} {ret : Except Error ℤ} (h : s.Exited WaitFails k sid ret)
    (hsid : ∀ c sid, s.sidOf c = some sid → t.sidOf c = some sid)
    (hexit : ∀ c ret, s.exitOf c = some ret → t.exitOf c = some ret) :
    t.Exited WaitFails k sid ret := by
  rcases h with hfail | ⟨c, hc, hret⟩
  · exact .inl hfail
  · exact .inr ⟨c, hsid c sid hc, hexit c ret hret⟩

/-- A step of call `k`, by what it does to the handles of the children. -/
theorem Joining.moved {request : Request I} {p q : Phase} (h : Joining WaitFails s)
    (hcall : s.calls[k]? = some ⟨request, p⟩) (hu : u.calls = s.calls)
    (hsid : ∀ c sid, s.sidOf c = some sid → u.sidOf c = some sid)
    (hexit : ∀ c ret, s.exitOf c = some ret → u.exitOf c = some ret)
    (hjoined : ∀ c, ∃ n, u.JoinedTo c n)
    (hothers : ∀ (i : ℕ) (r : Request I) (c n : ℕ) (ret : Except Error ℤ), i ≠ k →
      s.calls[i]? = some ⟨r, .joining c n ret⟩ → u.JoinedTo c n)
    (hself : ∀ c n ret, q = .joining c n ret → u.JoinedTo c n)
    (hvisits : ∀ c, q.visits = some c → p.visits = some c ∨ s.sidOf c = some request.sid)
    (hholds : ∀ c, q.holdsHandles c = true → p.holdsHandles c = true ∨
      ∀ call ∈ s.calls, call.phase.holdsHandles c = false)
    (hresult : ∀ ret, q.result = some ret → p.result = some ret ∨
      s.Exited WaitFails k request.sid ret)
    (hanswer : ∀ sid ret, request = .wait sid → q = .done ret → ret = .error .sessionNotExist ∨
      ∃ r : Except Error ℤ, ret = r.map Answer.code ∧ s.Exited WaitFails k sid r)
    (hwhole : q ≠ .panicked) : Joining WaitFails (u.setPhase k q) := by
  have hsid' : ∀ c sid, s.sidOf c = some sid → (u.setPhase k q).sidOf c = some sid := hsid
  have hexit' : ∀ c ret, s.exitOf c = some ret → (u.setPhase k q).exitOf c = some ret := hexit
  constructor
  case visits =>
    intro i call c hi hc
    rw [calls_moved hcall hu] at hi
    split_ifs at hi with hik
    · cases hi
      rcases hvisits c hc with hp | hnew
      · exact hsid' c _ (h.visits k ⟨request, p⟩ c hcall hp)
      · exact hsid' c _ hnew
    · exact hsid' c _ (h.visits i call c hi hc)
  case exclusive =>
    intro i j ci cj c hi hj hci hcj
    rw [calls_moved hcall hu] at hi hj
    by_contra hij
    -- the lock of `q` is that of call `k` before, or was free
    have hother : ∀ (i : ℕ) (ci : Call I), i ≠ k → s.calls[i]? = some ci →
        ci.phase.holdsHandles c = true → q.holdsHandles c = false := by
      intro i ci hik hi hci
      by_contra hq
      rcases hholds c (by simpa using hq) with hp | hfree
      · exact hik (h.exclusive i k ci ⟨request, p⟩ c hi hcall hci hp)
      · simp [hfree ci (List.mem_of_getElem? hi)] at hci
    split_ifs at hi hj with hik hjk hjk
    · exact hij (hik.trans hjk.symm)
    · cases hi
      simp [hother j cj hjk hj hcj] at hci
    · cases hj
      simp [hother i ci hik hi hci] at hcj
    · exact hij (h.exclusive i j ci cj c hi hj hci hcj)
  case results =>
    intro i call ret hi hret
    rw [calls_moved hcall hu] at hi
    split_ifs at hi with hik
    · cases hi
      subst hik
      rcases hresult ret hret with hp | hnew
      · exact (h.results i ⟨request, p⟩ ret hcall hp).mono hsid' hexit'
      · exact hnew.mono hsid' hexit'
    · exact (h.results i call ret hi hret).mono hsid' hexit'
  case answers =>
    intro i sid ret hi
    rw [calls_moved hcall hu] at hi
    have hold : ret = .error .sessionNotExist ∨
        ∃ r : Except Error ℤ, ret = r.map Answer.code ∧ s.Exited WaitFails i sid r := by
      split_ifs at hi with hik
      · cases hi
        subst hik
        exact hanswer sid ret rfl rfl
      · exact h.answers i sid ret hi
    rcases hold with hmissing | ⟨r, hr, hexited⟩
    · exact .inl hmissing
    · exact .inr ⟨r, hr, hexited.mono hsid' hexit'⟩
  case joined =>
    exact hjoined
  case joining =>
    intro i r c n ret hi
    rw [calls_moved hcall hu] at hi
    split_ifs at hi with hik
    · cases hi
      exact hself c n ret rfl
    · exact hothers i r c n ret hik hi
  case whole =>
    intro i r hi
    rw [calls_moved hcall hu] at hi
    split_ifs at hi with hik
    · cases hi
      exact hwhole rfl
    · exact h.whole i r hi

/-- A step of call `k` that leaves the handles alone. -/
theorem Joining.keep {request : Request I} {p q : Phase} (h : Joining WaitFails s)
    (hcall : s.calls[k]? = some ⟨request, p⟩) (hu : u.calls = s.calls)
    (hlook : u.look Child.session = s.look Child.session) (hexit : u.exitOf = s.exitOf)
    (hjoining : ∀ c n ret, q = .joining c n ret → s.JoinedTo c n)
    (hvisits : ∀ c, q.visits = some c → p.visits = some c ∨ s.sidOf c = some request.sid)
    (hholds : ∀ c, q.holdsHandles c = true → p.holdsHandles c = true ∨
      ∀ call ∈ s.calls, call.phase.holdsHandles c = false)
    (hresult : ∀ ret, q.result = some ret → p.result = some ret ∨
      s.Exited WaitFails k request.sid ret)
    (hanswer : ∀ sid ret, request = .wait sid → q = .done ret → ret = .error .sessionNotExist ∨
      ∃ r : Except Error ℤ, ret = r.map Answer.code ∧ s.Exited WaitFails k sid r)
    (hwhole : q ≠ .panicked) : Joining WaitFails (u.setPhase k q) := by
  have hsid : u.sidOf = s.sidOf := Server.sidOf_of_look hlook
  have hhandles : u.handles = s.handles := Server.handles_of_look hlook
  have hjoinedTo : ∀ c n, s.JoinedTo c n → u.JoinedTo c n := by
    intro c n hn
    unfold Server.JoinedTo at hn ⊢
    rw [hhandles]
    exact hn
  refine h.moved hcall hu (fun c sid hc => ?_) (fun c ret hc => ?_) (fun c => ?_)
    (fun i r c n ret _ hi => ?_) (fun c n ret hq => ?_) hvisits hholds hresult hanswer hwhole
  · rw [hsid, hc]
  · rw [hexit, hc]
  · obtain ⟨n, hn⟩ := h.joined c
    exact ⟨n, hjoinedTo c n hn⟩
  · exact hjoinedTo c n (h.joining i r c n ret hi)
  · exact hjoinedTo c n (hjoining c n ret hq)

/-- A phase of a call that does not concern the handles of a session. -/
structure Phase.Idle (q : Phase) : Prop where
  visits : q.visits = none
  holds : ∀ c, q.holdsHandles c = false
  result : q.result = none
  whole : q ≠ .panicked

/-- A step of call `k` that leaves the handles alone, to a phase that does not concern them. -/
theorem Joining.idles {request : Request I} {p q : Phase} (h : Joining WaitFails s)
    (hcall : s.calls[k]? = some ⟨request, p⟩) (hu : u.calls = s.calls)
    (hlook : u.look Child.session = s.look Child.session) (hexit : u.exitOf = s.exitOf)
    (hend : ∀ sid ret, request = .wait sid → q ≠ .done ret) (hq : q.Idle) :
    Joining WaitFails (u.setPhase k q) := by
  refine h.keep hcall hu hlook hexit (fun c n ret hjoining => ?_) (fun c hc => ?_) (fun c hc => ?_)
    (fun ret hret => ?_) (fun sid ret hwait hdone => absurd hdone (hend sid ret hwait)) hq.whole
  · subst hjoining
    cases hq.visits
  · rw [hq.visits] at hc
    cases hc
  · rw [hq.holds c] at hc
    cases hc
  · rw [hq.result] at hret
    cases hret

theorem exitOf_release (s : Server I) (k : ℕ) (p : Phase) : (s.release k p).exitOf = s.exitOf :=
  Server.look_release (fun _ _ => rfl) s k p

theorem look_session_release (s : Server I) (k : ℕ) (p : Phase) :
    (s.release k p).look Child.session = s.look Child.session :=
  Server.look_release (fun _ _ => rfl) s k p

theorem isSome_of_handles {c i : ℕ} {handle : Handle} (h : (s.handles c)[i]? = some handle) :
    (s.look Child.session c).isSome = true := by
  unfold Server.handles at h
  cases hsession : s.look Child.session c with
  | none =>
    have hnone : (s.children[c]?).bind Child.session = none := hsession
    simp [hnone] at h
  | some session => rfl

/-- The next handle is joined. -/
theorem Server.JoinedTo.take {c i : ℕ} {handle : Handle} (h : s.JoinedTo c i)
    (hhandle : (s.handles c)[i]? = some handle) : (s.takeHandle c i).JoinedTo c (i + 1) := by
  have hlt := (List.getElem?_eq_some_iff.mp hhandle).1
  have hhandles : (s.takeHandle c i).handles c =
      (s.handles c).modify i (fun h => { h with joined := true }) := by
    rw [Server.handles_takeHandle, if_pos ⟨rfl, isSome_of_handles hhandle⟩]
  unfold Server.JoinedTo
  rw [hhandles]
  refine ⟨by rw [List.length_modify]; omega, fun j h' hj => ?_⟩
  rw [List.getElem?_modify] at hj
  by_cases hij : i = j
  · subst hij
    rw [hhandle] at hj
    simp only [if_true] at hj
    cases hj
    simp
  · simp only [hij, if_false] at hj
    rw [h.2 j h' (by simpa using hj)]
    omega

/-- A new handle is not joined. -/
theorem Server.JoinedTo.push {c n : ℕ} (h : s.JoinedTo c n) (d j : ℕ) :
    (s.pushHandle d j).JoinedTo c n := by
  have hhandles : (s.pushHandle d j).handles c = s.handles c ∨
      (s.pushHandle d j).handles c = s.handles c ++ [Handle.mk j false] := by
    rw [Server.handles_pushHandle]
    split_ifs with hcd
    · exact .inr (by rw [hcd.1])
    · exact .inl rfl
  unfold Server.JoinedTo
  rcases hhandles with hsame | hpushed
  · rw [hsame]
    exact h
  · rw [hpushed]
    refine ⟨by simpa using Nat.le_succ_of_le h.1, fun i h' hi => ?_⟩
    rcases getElem?_concat_cases hi with hi | ⟨hlast, rfl⟩
    · exact h.2 i h' hi
    · have hle := h.1
      simp only [Bool.false_eq_true, false_iff]
      omega

theorem joinedTo_takeHandle_of_ne {c d i n : ℕ} (hcd : c ≠ d) (h : s.JoinedTo c n) :
    (s.takeHandle d i).JoinedTo c n := by
  have hhandles : (s.takeHandle d i).handles c = s.handles c := by
    rw [Server.handles_takeHandle, if_neg fun h => hcd h.1]
  unfold Server.JoinedTo
  rw [hhandles]
  exact h

section
variable [DecidableEq I]

theorem exitOf_insertSession (s : Server I) (k : ℕ) (sid : I) (l : Launch) (c peer : ℕ) :
    (s.insertSession k sid l c peer).exitOf = s.exitOf := by
  have hlinked : (s.setLink peer (.delivered l.cmd)).exitOf = s.exitOf :=
    Server.look_modifyChild fun _ => rfl
  have hclosed : ((s.setLink peer (.delivered l.cmd)).closeListener k).exitOf = s.exitOf :=
    (Server.look_closeListener (fun _ _ => rfl) _ k).trans hlinked
  change (Server.modifyChild _ c _).look _ = _
  refine Eq.trans (Server.look_modifyChild fun child => ?_) hclosed
  rfl

theorem handles_insertSession {sid : I} {l : Launch} {c peer d : ℕ} (hdc : d ≠ c) :
    (s.insertSession k sid l c peer).handles d = s.handles d := by
  have hlinked : (s.setLink peer (.delivered l.cmd)).look Child.session = s.look Child.session :=
    Server.look_modifyChild fun _ => rfl
  have hclosed : ((s.setLink peer (.delivered l.cmd)).closeListener k).handles = s.handles :=
    Server.handles_of_look ((Server.look_closeListener (fun _ _ => rfl) _ k).trans hlinked)
  have hsame : (s.insertSession k sid l c peer).handles d =
      ((s.setLink peer (.delivered l.cmd)).closeListener k).handles d := by
    simp [Server.handles, Server.insertSession, Server.modifyChild, Ne.symm hdc]
  rw [hsame, hclosed]

/-- The handles that a session begins with are not joined. -/
theorem joinedTo_insertSession {sid : I} {l : Launch} {c peer : ℕ} (hc : c < s.children.length) :
    (s.insertSession k sid l c peer).JoinedTo c 0 := by
  have hget : c < ((s.setLink peer (.delivered l.cmd)).closeListener k).children.length := by
    simpa [Server.setLink, Server.length_closeListener, Server.length_modifyChild] using hc
  have hhandles : (s.insertSession k sid l c peer).handles c =
      l.handles.map (fun j => ⟨j, false⟩) := by
    simp [Server.handles, Server.insertSession, Server.modifyChild, List.getElem?_eq_getElem hget]
  unfold Server.JoinedTo
  rw [hhandles]
  refine ⟨Nat.zero_le _, fun j h hj => ?_⟩
  obtain ⟨task, -, rfl⟩ := List.mem_map.mp (List.mem_of_getElem? hj)
  simp

theorem Joining.inserted {sid : I} {cmd : Cmd} {l : Launch} {c peer : ℕ}
    (h : Joining WaitFails s) (howned : Owned s)
    (hcall : s.calls[k]? = some ⟨.start sid cmd, .sending l c peer .shutdown⟩) :
    Joining WaitFails ((s.insertSession k sid l c peer).setPhase k (.done (.ok .unit))) := by
  obtain ⟨hc, hnone⟩ := howned.owned k _ c hcall rfl
  have hsid : (s.insertSession k sid l c peer).sidOf = Function.update s.sidOf c (some sid) :=
    sidOf_insertSession hc
  have hjoinedTo : ∀ d n, d ≠ c → s.JoinedTo d n →
      (s.insertSession k sid l c peer).JoinedTo d n := by
    intro d n hdc hn
    unfold Server.JoinedTo at hn ⊢
    rw [handles_insertSession hdc]
    exact hn
  refine h.moved hcall rfl (fun d sid' hd => ?_) (fun d ret hd => ?_) (fun d => ?_)
    (fun i r d n ret _ hi => ?_) (by simp) (by simp [Phase.visits]) (by simp [Phase.holdsHandles])
    (by simp [Phase.result]) (by simp) (by simp)
  · have hdc : d ≠ c := by
      rintro rfl
      simp [hnone] at hd
    rw [hsid, Function.update_of_ne hdc, hd]
  · rw [exitOf_insertSession, hd]
  · by_cases hdc : d = c
    · subst hdc
      exact ⟨0, joinedTo_insertSession hc⟩
    · obtain ⟨n, hn⟩ := h.joined d
      exact ⟨n, hjoinedTo d n hdc hn⟩
  · -- a call that joins the handles of a session came after its insertion
    have hvisits := h.visits i _ d hi rfl
    have hdc : d ≠ c := by
      rintro rfl
      simp [hnone] at hvisits
    exact hjoinedTo d n hdc (h.joining i r d n ret hi)

omit [DecidableEq I] in
theorem Joining.took {sid : I} {c i : ℕ} {ret : Except Error ℤ} {handle : Handle}
    (h : Joining WaitFails s) (hcall : s.calls[k]? = some ⟨.wait sid, .joining c i ret⟩)
    (hhandle : (s.handles c)[i]? = some handle) :
    Joining WaitFails ((s.takeHandle c i).setPhase k (.joining c (i + 1) ret)) := by
  have hsid : (s.takeHandle c i).sidOf = s.sidOf := by
    refine Server.sidOf_modifyChild fun child => ?_
    cases child.session <;> rfl
  have hexit : (s.takeHandle c i).exitOf = s.exitOf := Server.look_modifyChild fun _ => rfl
  have hnext : (s.takeHandle c i).JoinedTo c (i + 1) := (h.joining k _ c i ret hcall).take hhandle
  refine h.moved hcall rfl (fun d sid' hd => by rw [hsid, hd]) (fun d ret hd => by rw [hexit, hd])
    (fun d => ?_) (fun j r d n ret' hjk hj => ?_) ?_ (fun d hd => .inl hd) (fun d hd => .inl hd)
    (fun ret hret => .inl hret) (by simp) (by simp)
  · by_cases hdc : d = c
    · exact ⟨i + 1, hdc ▸ hnext⟩
    · obtain ⟨n, hn⟩ := h.joined d
      exact ⟨n, joinedTo_takeHandle_of_ne hdc hn⟩
  · have hdc : d ≠ c := by
      rintro rfl
      exact hjk (h.exclusive j k _ _ d hj hcall (by simp [Phase.holdsHandles])
        (by simp [Phase.holdsHandles]))
    exact joinedTo_takeHandle_of_ne hdc (h.joining j r d n ret' hj)
  · rintro d n ret' ⟨⟩
    exact hnext

theorem joining_callStep {request : Request I} {p q : Phase} (h : Joining WaitFails s)
    (howned : Owned s) (hcall : s.calls[k]? = some ⟨request, p⟩)
    (hstep : CallStep s k request p q u)
    (hfirst : ∀ c ret, p = .lockingHandles c ret → q = .joining c 0 ret →
      ∀ handle, (s.handles c)[0]? = some handle → handle.joined = false)
    (hfails : ∀ e, q = .done (.error e) → Fails s request p e)
    (hwait : ∀ e, q = .exited (.error (.commandError e)) → WaitFails k e) :
    Joining WaitFails (u.setPhase k q) := by
  have hu := hstep.calls_eq
  cases hstep with
  | inserted sid cmd l c peer => exact h.inserted howned hcall
  | joined sid c i ret handle task hhandle => exact h.took hcall hhandle
  | failed _ _ e hp =>
    refine h.keep hcall hu (look_session_release s k p) (exitOf_release s k p) (by simp)
      (by simp [Phase.visits]) (by simp [Phase.holdsHandles]) (by simp [Phase.result]) ?_ (by simp)
    rintro sid ret rfl hret
    obtain rfl := Phase.done.inj hret
    cases hfails e rfl with
    | wait | joins => exact .inl rfl
    | waited => exact .inr ⟨.error e, rfl, h.results k _ _ hcall rfl⟩
  | dropped _ _ hp =>
    refine h.idles hcall hu (look_session_release s k p) (exitOf_release s k p) (by simp) ?_
    constructor <;> simp [Phase.visits, Phase.holdsHandles, Phase.result]
  | pushed out sid c j hfree =>
    have hsid : (s.pushHandle c j).sidOf = s.sidOf := by
      refine Server.sidOf_modifyChild fun child => ?_
      cases child.session <;> rfl
    have hexit : (s.pushHandle c j).exitOf = s.exitOf := Server.look_modifyChild fun _ => rfl
    refine h.moved hcall hu (fun d sid' hd => by rw [hsid, hd]) (fun d ret hd => by rw [hexit, hd])
      (fun d => ?_) (fun i r d n ret _ hi => (h.joining i r d n ret hi).push c j) (by simp)
      (by simp [Phase.visits]) (by simp [Phase.holdsHandles]) (by simp [Phase.result]) (by simp)
      (by simp)
    obtain ⟨n, hn⟩ := h.joined d
    exact ⟨n, hn.push c j⟩
  | lockedHandles sid c ret hfree =>
    refine h.keep hcall hu rfl rfl ?_ (fun d hd => .inl hd) ?_ (fun ret hret => .inl hret) (by simp)
      (by simp)
    · rintro d n ret' ⟨⟩
      -- what is joined is a prefix of the handles, and it does not reach the first
      obtain ⟨n, hle, hn⟩ := h.joined c
      refine ⟨Nat.zero_le _, fun j handle hj => ?_⟩
      have hn0 : n = 0 := by
        by_contra hpos
        have hlt : 0 < (s.handles c).length := by omega
        have hget := List.getElem?_eq_getElem hlt
        have hjoined := (hn 0 _ hget).mpr (by omega)
        rw [hfirst c ret rfl rfl _ hget] at hjoined
        cases hjoined
      rw [hn j handle hj, hn0]
    · intro d hd
      have hdc : d = c := by simpa [Phase.holdsHandles, eq_comm] using hd
      subst hdc
      exact .inr hfree
  | joinedAgain sid c i ret handle hhandle hjoined =>
    have hlt := ((h.joining k _ c i ret hcall).2 i handle hhandle).mp hjoined
    omega
  | spawned sid cmd l =>
    refine h.idles hcall hu (Server.look_spawnChild rfl s) (Server.look_spawnChild rfl s)
      (by simp) ?_
    constructor <;> simp [Phase.visits, Phase.holdsHandles, Phase.result]
  | accepted sid cmd l c peer =>
    refine h.idles hcall hu (Server.look_modifyChild fun _ => rfl)
      (Server.look_modifyChild fun _ => rfl) (by simp) ?_
    constructor <;> simp [Phase.visits, Phase.holdsHandles, Phase.result]
  | tookItem sid c item =>
    refine h.idles hcall hu rfl rfl (by simp) ?_
    constructor <;> split <;> simp [Phase.visits, Phase.holdsHandles, Phase.result]
  | wrote sid c len rest =>
    refine h.idles hcall hu (Server.look_modifyChild fun _ => rfl)
      (Server.look_modifyChild fun _ => rfl) (by simp) ?_
    constructor <;> split <;> simp [Phase.visits, Phase.holdsHandles, Phase.result]
  | foundHandles out sid c j hc | foundChild sid c hc =>
    refine h.keep hcall hu rfl rfl (by simp) (fun d hd => .inr ?_) (by simp [Phase.holdsHandles])
      (by simp [Phase.result]) (by simp) (by simp)
    obtain rfl := Option.some.inj hd
    exact howned.mapped sid _ hc
  | lockedChild sid c =>
    exact h.keep hcall hu rfl rfl (by simp) (fun d hd => .inl hd) (by simp [Phase.holdsHandles])
      (by simp [Phase.result]) (by simp) (by simp)
  | reaped sid c child ret hchild hret =>
    refine h.keep hcall hu rfl rfl (by simp) (by simp [Phase.visits]) (by simp [Phase.holdsHandles])
      (fun ret' hret' => .inr ?_) (by simp) (by simp)
    obtain rfl := Option.some.inj hret'
    refine .inr ⟨c, h.visits k _ c hcall rfl, ?_⟩
    simp [Server.exitOf, Server.look, hchild, hret]
  | waitFailed sid c e =>
    refine h.keep hcall hu rfl rfl (by simp) (by simp [Phase.visits]) (by simp [Phase.holdsHandles])
      (fun ret' hret' => .inr ?_) (by simp) (by simp)
    obtain rfl := Option.some.inj hret'
    exact .inl ⟨e, hwait e rfl, rfl⟩
  | foundJoins sid c ret hc =>
    refine h.keep hcall hu rfl rfl (by simp) (fun d hd => .inr ?_) (by simp [Phase.holdsHandles])
      (fun ret' hret' => .inl hret') (by simp) (by simp)
    obtain rfl := Option.some.inj hd
    exact howned.mapped sid _ hc
  | joinedAll sid c i ret =>
    exact h.keep hcall hu rfl rfl (by simp) (by simp [Phase.visits]) (by simp [Phase.holdsHandles])
      (fun ret' hret' => .inl hret') (by simp) (by simp)
  | removed sid ret =>
    refine h.keep hcall hu rfl rfl (by simp) (by simp [Phase.visits]) (by simp [Phase.holdsHandles])
      (by simp [Phase.result]) ?_ (by simp)
    rintro sid' ret' ⟨⟩ hret
    obtain rfl := Phase.done.inj hret
    exact .inr ⟨ret, rfl, h.results k _ ret hcall rfl⟩
  | _ =>
    refine h.idles hcall hu rfl rfl (by simp) ?_
    constructor <;> simp [Phase.visits, Phase.holdsHandles, Phase.result]

/-! Which step of a `wait` call it was. -/

theorem stepWait_of_step {label : Label I} {sid : I} {p q : Phase}
    (hcall : s.calls[k]? = some ⟨.wait sid, p⟩) (hlabel : label.movesCall = some k)
    (hstep : s.step label = some t) (ht : t.calls[k]? = some ⟨.wait sid, q⟩) :
    q = .dropped ∨ ∃ e, label = .wait k e ∧ s.stepWait k sid p e = some t := by
  cases label <;> simp only [Label.movesCall, Option.some.injEq, reduceCtorEq] at hlabel
  all_goals subst hlabel
  case drop =>
    simp only [Server.step, hcall] at hstep
    split_ifs at hstep
    cases hstep
    rw [calls_moved hcall (Server.release_calls s _ _), if_pos rfl] at ht
    cases ht
    exact .inl rfl
  case wait e =>
    simp only [Server.step, hcall] at hstep
    exact .inr ⟨e, rfl, hstep⟩
  all_goals simp [Server.step, hcall] at hstep

/-- The labels of the two steps that the invariant asks about. -/
theorem event_of_stepWait {sid : I} {p q : Phase} {e : WaitEvent}
    (hcall : s.calls[k]? = some ⟨.wait sid, p⟩) (hstep : s.stepWait k sid p e = some t)
    (ht : t.calls[k]? = some ⟨.wait sid, q⟩) :
    (∀ c ret, p = .lockingHandles c ret → q = .joining c 0 ret → e = .lockHandles) ∧
      ∀ err, q = .exited (.error (.commandError err)) → e = .waitFailed err := by
  have hphase : ∀ (u : Server I) (q' : Phase), t = u.setPhase k q' → u.calls = s.calls →
      q = q' := by
    rintro u q' rfl hu
    rw [calls_moved hcall hu, if_pos rfl] at ht
    cases ht
    rfl
  revert hstep
  fun_cases Server.stepWait s k sid p e
  all_goals intro hstep
  all_goals cases hstep
  case case1.refl =>
    cases hphase _ _ rfl (Server.release_calls s k _)
    simp
  case case12.refl =>
    cases hphase _ _ rfl (Server.release_calls s k _)
    simp
  case case7.refl c ret hret =>
    cases hphase _ _ rfl rfl
    refine ⟨by simp, ?_⟩
    rintro err ⟨⟩
    obtain ⟨child, -, hexit⟩ := Option.bind_eq_some_iff.mp hret
    unfold Server.exitResult at hexit
    split at hexit <;> simp at hexit
  case case10.refl e c =>
    cases hphase _ _ rfl rfl
    refine ⟨by simp, ?_⟩
    rintro err ⟨⟩
    rfl
  all_goals cases hphase _ _ rfl rfl
  all_goals simp

/-- No `wait` locks the handles of a session while the first of them is joined already. -/
def JoinsOnce (s : Server I) (label : Label I) : Prop :=
  ∀ (k : ℕ) (sid : I) (c : ℕ) (ret : Except Error ℤ), label = .wait k .lockHandles →
    s.calls[k]? = some ⟨.wait sid, .lockingHandles c ret⟩ →
      ∀ handle ∈ (s.handles c)[0]?, handle.joined = false

omit [DecidableEq I] in
theorem Joining.same (h : Joining WaitFails s) (hcalls : t.calls = s.calls)
    (hlook : t.look Child.session = s.look Child.session)
    (hexit : ∀ c ret, s.exitOf c = some ret → t.exitOf c = some ret) : Joining WaitFails t := by
  have hsid : t.sidOf = s.sidOf := Server.sidOf_of_look hlook
  have hsid' : ∀ c sid, s.sidOf c = some sid → t.sidOf c = some sid :=
    fun c sid hc => by rw [hsid, hc]
  have hjoinedTo : ∀ c n, s.JoinedTo c n → t.JoinedTo c n := by
    intro c n hn
    unfold Server.JoinedTo at hn ⊢
    rw [Server.handles_of_look hlook]
    exact hn
  constructor
  case visits =>
    rw [hcalls, hsid]
    exact h.visits
  case exclusive =>
    rw [hcalls]
    exact h.exclusive
  case results =>
    rw [hcalls]
    exact fun k call ret hk hret => (h.results k call ret hk hret).mono hsid' hexit
  case answers =>
    rw [hcalls]
    intro k sid ret hk
    rcases h.answers k sid ret hk with hmissing | ⟨r, hr, hexited⟩
    · exact .inl hmissing
    · exact .inr ⟨r, hr, hexited.mono hsid' hexit⟩
  case joined =>
    intro c
    obtain ⟨n, hn⟩ := h.joined c
    exact ⟨n, hjoinedTo c n hn⟩
  case joining =>
    rw [hcalls]
    exact fun k r c n ret hk => hjoinedTo c n (h.joining k r c n ret hk)
  case whole =>
    rw [hcalls]
    exact h.whole

omit [DecidableEq I] in
theorem Joining.called (h : Joining WaitFails s) (request : Request I) :
    Joining WaitFails { s with calls := s.calls ++ [⟨request, .called⟩] } := by
  constructor
  case visits =>
    intro i call c hi hc
    refine h.visits i call c (call_of_called hi fun hp => ?_) hc
    simp [hp, Phase.visits] at hc
  case exclusive =>
    intro i j ci cj c hi hj hci hcj
    refine h.exclusive i j ci cj c (call_of_called hi fun hp => ?_)
      (call_of_called hj fun hp => ?_) hci hcj
    · simp [hp, Phase.holdsHandles] at hci
    · simp [hp, Phase.holdsHandles] at hcj
  case results =>
    intro i call ret hi hret
    refine h.results i call ret (call_of_called hi fun hp => ?_) hret
    simp [hp, Phase.result] at hret
  case answers =>
    intro i sid ret hi
    exact h.answers i sid ret (call_of_called hi (by simp))
  case joined =>
    exact h.joined
  case joining =>
    intro i r c n ret hi
    exact h.joining i r c n ret (call_of_called hi (by simp))
  case whole =>
    intro i r hi
    exact h.whole i r (call_of_called hi (by simp))

theorem joining_step (s : Server I) (label : Label I) (t : Server I)
    (h : Owned s ∧ Joining WaitFails s)
    (hlabel : JoinsOnce s label ∧ ∀ k e, label = .wait k (.waitFailed e) → WaitFails k e)
    (hstep : s.step label = some t) : Owned t ∧ Joining WaitFails t := by
  obtain ⟨howned, hjoining⟩ := h
  refine ⟨owned_step s label t howned hstep, ?_⟩
  cases serverStep_of_step hstep with
  | called request => exact hjoining.called request
  | @moved _ k request p q u hmoves hcall hmove =>
    have hq : (u.setPhase k q).calls[k]? = some ⟨request, q⟩ := by
      rw [calls_moved hcall hmove.calls_eq, if_pos rfl]
    refine joining_callStep hjoining howned hcall hmove ?_ ?_ ?_
    · rintro c ret rfl rfl
      cases hmove with
      | lockedHandles sid =>
        rcases stepWait_of_step hcall hmoves hstep hq with hdrop | ⟨e, rfl, hwait⟩
        · cases hdrop
        · obtain rfl := (event_of_stepWait hcall hwait hq).1 c ret rfl rfl
          exact hlabel.1 k sid c ret rfl hcall
    · rintro e rfl
      exact fails_of_step hstep hcall hmove.live hq
    · rintro e rfl
      have hrequest : ∃ sid, request = .wait sid := by
        generalize hq' : Phase.exited (.error (.commandError e)) = q' at hmove
        cases hmove with
        | reaped sid | waitFailed sid => exact ⟨sid, rfl⟩
        | tookItem | wrote => split at hq' <;> cases hq'
        | _ => cases hq'
      obtain ⟨sid, rfl⟩ := hrequest
      rcases stepWait_of_step hcall hmoves hstep hq with hdrop | ⟨e', rfl, hwait⟩
      · cases hdrop
      · obtain rfl := (event_of_stepWait hcall hwait hq).2 e rfl
        exact hlabel.2 k e rfl
  | child hchild hchildStep =>
    obtain ⟨hlook, hexit⟩ := stepChild_look hchild hchildStep
    exact hjoining.same (stepChild_same hchildStep).1 hlook hexit
  | copy htask hcopy =>
    obtain ⟨hlook, hexit⟩ := stepCopy_look hcopy
    exact hjoining.same (stepCopy_same hcopy).1 hlook hexit
  | forwardDone htask => exact hjoining.same rfl rfl fun _ _ hc => hc

omit [DecidableEq I] in
theorem joining_new : Joining WaitFails (Server.new : Server I) := by
  have hjoined : ∀ c, (Server.new : Server I).JoinedTo c 0 :=
    fun c => ⟨Nat.zero_le _, by simp [Server.new, Server.handles]⟩
  constructor
  case joined => exact fun c => ⟨0, hjoined c⟩
  all_goals simp [Server.new]

end

/-- A session with one output stream; its child is killed and the copy ends. -/
def exitedRun : List (Label ℕ) :=
  connectRun ++
    [.start 1 .sent, .start 1 .sent, .start 1 .sent, .call (.output .stdout 0),
      .output 2 .getSession, .output 2 .getHandles, .output 2 .push, .child 0 .killed,
      .child 0 (.closed .stdout), .task 0 .lock, .task 0 .eof]

/-- A `wait` call on it, as far as its handles. -/
def waitRun : List (Label ℕ) :=
  exitedRun ++
    [.call (.wait 0), .wait 3 .getChild, .wait 3 .lockChild, .wait 3 .reaped, .wait 3 .getHandles]

def waitedRun : List (Label ℕ) :=
  waitRun ++ [.wait 3 .lockHandles, .wait 3 .join, .wait 3 .join, .wait 3 .remove]

theorem joinsOnce_of_ne {I : Type} {labels : List (Label I)}
    (h : ∀ label ∈ labels, ∀ k, label ≠ .wait k .lockHandles) [DecidableEq I] (s : Server I) :
    Along Server.step JoinsOnce s labels :=
  (Along.of_forall h s).imp fun _ _ hne k _ _ _ hlabel => absurd hlabel (hne k)

theorem joinsOnce_waitedRun : Along Server.step JoinsOnce Server.new waitedRun := by
  refine (joinsOnce_of_ne (by simp [waitRun, exitedRun, connectRun, startRun]) _).append
    fun t ht => ⟨?_, fun u _ => joinsOnce_of_ne (by simp) u⟩
  rintro k sid c ret ⟨⟩ hcall handle hhandle
  cases ht
  cases hcall
  cases hhandle
  rfl

/-- A second call gets at the handles before the first one has joined them. -/
def waitsRun : List (Label ℕ) :=
  waitRun ++
    [.call (.wait 0), .wait 4 .getChild, .wait 4 .lockChild, .wait 4 .reaped, .wait 4 .getHandles,
      .wait 3 .lockHandles, .wait 3 .join, .wait 3 .join, .wait 4 .lockHandles, .wait 4 .join]

end P9cpu.Cpu
