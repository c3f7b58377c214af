import P9cpu.Cpu.Joins
import P9cpu.Cpu.Lossless
import P9cpu.Cpu.Stdin

/-! From the local stdin to the stdin of the child. The server side is what the `stdin` call of
a session makes of the items it is given; the client side is what is still on the way. -/
namespace P9cpu.Cpu
open Core
open Ninep (IoError)

variable {I : Type} {s t u : Server I} {k : ℕ}

namespace Server

/-- Everything written to the stdin of a child. -/
def stdinOf (s : Server I) : ℕ → Option (List UInt8) := s.look (fun child => some child.stdin)

theorem stdinOf_eq_some {c : ℕ} {bytes : List UInt8} :
    s.stdinOf c = some bytes ↔ ∃ child, s.children[c]? = some child ∧ child.stdin = bytes := by
  unfold stdinOf look
  rw [Option.bind_eq_some_iff]
  simp only [Option.some.injEq]

theorem stdinOf_spawnChild (s : Server I) (l : Launch) (c : ℕ) :
    (s.spawnChild l).stdinOf c = s.stdinOf c ∨
      s.stdinOf c = none ∧ (s.spawnChild l).stdinOf c = some [] ∧
        (s.spawnChild l).sidOf c = none := by
  have hsid := congrFun (sidOf_spawnChild s l) c
  by_cases hc : c < s.children.length
  · left
    simp [stdinOf, look, spawnChild, List.getElem?_append, hc]
  · have hnone : s.children[c]? = none := List.getElem?_eq_none (by omega)
    by_cases hlast : c = s.children.length
    · right
      subst hlast
      refine ⟨by simp [stdinOf, look], by simp [stdinOf, look, spawnChild, Child.spawned], ?_⟩
      rw [hsid]
      simp [sidOf]
    · left
      have hnew : (s.spawnChild l).children[c]? = none := by
        refine List.getElem?_eq_none ?_
        simp only [spawnChild, List.length_append, List.length_singleton]
        omega
      simp [stdinOf, look, hnone, hnew]

/-- A write to the stdin of one child. -/
theorem stdinOf_write (s : Server I) (c d : ℕ) (bytes : List UInt8) :
    (s.modifyChild c (fun child => { child with stdin := child.stdin ++ bytes })).stdinOf d =
      if d = c then (s.stdinOf c).map (· ++ bytes) else s.stdinOf d := by
  by_cases hdc : d = c
  · subst hdc
    cases hd : s.children[d]? <;> simp [stdinOf, look, modifyChild, hd]
  · simp [stdinOf, look, modifyChild, hdc, Ne.symm hdc]

end Server

section
variable [DecidableEq I]

/-- A step of call `k` writes to the child that it streams to, or to none. -/
theorem CallStep.stdinOf {request : Request I} {p q : Phase} (h : CallStep s k request p q u) :
    (∀ c, u.stdinOf c = s.stdinOf c ∨
      s.stdinOf c = none ∧ u.stdinOf c = some [] ∧ u.sidOf c = none) ∨
    ∃ sid c len rest, request = .stdin sid ∧ p = .writing c rest ∧
      u = s.modifyChild c (fun child => { child with stdin := child.stdin ++ rest.take len }) := by
  cases h with
  | failed _ p | dropped _ p =>
    exact .inl fun c => .inl (congrFun (Server.look_release (fun _ _ => rfl) s k p) c)
  | spawned _ _ l => exact .inl (Server.stdinOf_spawnChild s l)
  | accepted _ _ _ _ peer =>
    have hsame : (s.setLink peer (.accepted k)).stdinOf = s.stdinOf :=
      Server.look_modifyChild fun _ => rfl
    exact .inl fun c => .inl (congrFun hsame c)
  | inserted sid _ l d peer =>
    have hlinked : (s.setLink peer (.delivered l.cmd)).stdinOf = s.stdinOf :=
      Server.look_modifyChild fun _ => rfl
    have hclosed : ((s.setLink peer (.delivered l.cmd)).closeListener k).stdinOf = s.stdinOf :=
      (Server.look_closeListener (fun _ _ => rfl) _ k).trans hlinked
    refine .inl fun c => .inl (congrFun (Eq.trans ?_ hclosed) c)
    change (Server.modifyChild _ d _).look _ = _
    refine Server.look_modifyChild fun child => ?_
    rfl
  | pushed _ _ d j =>
    have hsame : (s.pushHandle d j).stdinOf = s.stdinOf := Server.look_modifyChild fun _ => rfl
    exact .inl fun c => .inl (congrFun hsame c)
  | joined _ d i =>
    have hsame : (s.takeHandle d i).stdinOf = s.stdinOf := Server.look_modifyChild fun _ => rfl
    exact .inl fun c => .inl (congrFun hsame c)
  | wrote sid c len rest => exact .inr ⟨sid, c, len, rest, rfl, rfl, rfl⟩
  | _ => exact .inl fun c => .inl rfl

/-- A step of call `k` names no child, or the one that it has spawned. -/
theorem CallStep.sidOf {request : Request I} {p q : Phase} (h : CallStep s k request p q u)
    (howned : Owned s) (hcall : s.calls[k]? = some ⟨request, p⟩) :
    u.sidOf = s.sidOf ∨
      ∃ c, s.sidOf c = none ∧ u.sidOf = Function.update s.sidOf c (some request.sid) := by
  cases h with
  | failed _ p | dropped _ p => exact .inl (Server.sidOf_release s k p)
  | spawned _ _ l => exact .inl (Server.sidOf_spawnChild s l)
  | accepted => exact .inl (Server.sidOf_modifyChild fun _ => rfl)
  | inserted sid _ l c peer =>
    obtain ⟨hc, hnone⟩ := howned.owned k _ c hcall rfl
    exact .inr ⟨c, hnone, sidOf_insertSession hc⟩
  | wrote => exact .inl (Server.sidOf_modifyChild fun _ => rfl)
  | pushed | joined =>
    refine .inl (Server.sidOf_modifyChild fun child => ?_)
    cases child.session <;> rfl
  | _ => exact .inl rfl

end

/-- No session of the id has got any input, apart from `ours`. -/
def Server.Untouched (s : Server I) (sid : I) (ours : Option ℕ) : Prop :=
  ∀ c bytes, s.stdinOf c = some bytes → s.sidOf c = some sid → ours ≠ some c → bytes = []

theorem Server.Untouched.but {sid : I} (h : s.Untouched sid none) (c : ℕ) :
    s.Untouched sid (some c) := by
  intro d bytes hd hsid _
  exact h d bytes hd hsid (by simp)

/-- A child that has no session has got no input. -/
def Server.Blank (s : Server I) : Prop :=
  ∀ c bytes, s.stdinOf c = some bytes → s.sidOf c = none → bytes = []

section
variable [DecidableEq I]

omit [DecidableEq I] in
@[simp] theorem setPipe_stdin (child : Child I) (out : Output) (p : Pipe) :
    (child.setPipe out p).stdin = child.stdin := by
  cases out <;> rfl

omit [DecidableEq I] in
theorem stdinOf_stepChild {c : ℕ} {child : Child I} {e : ChildEvent}
    (hstep : s.stepChild c child e = some t) : t.stdinOf = s.stdinOf := by
  revert hstep
  fun_cases Server.stepChild s c child e
  all_goals intro hstep
  all_goals cases hstep
  all_goals refine Server.look_modifyChild fun child => ?_
  case case16.refl => rw [setPipe_stdin]
  case case18.refl => rw [setPipe_stdin]
  all_goals rfl

omit [DecidableEq I] in
theorem stdinOf_stepCopy {j : ℕ} {task : Copy} {rxOpen : Bool} {e : TaskEvent}
    (hstep : s.stepCopy j task rxOpen e = some t) : t.stdinOf = s.stdinOf := by
  revert hstep
  fun_cases Server.stepCopy s j task rxOpen e
  all_goals intro hstep
  all_goals cases hstep
  case case5.refl =>
    refine Server.look_modifyChild fun child => ?_
    rw [setPipe_stdin]
  all_goals rfl

/-- What a step does to the input of the children, apart from the writes of `stdin` calls. -/
structure Server.Keeps (s t : Server I) : Prop where
  stdin : ∀ c, t.stdinOf c = s.stdinOf c ∨
    s.stdinOf c = none ∧ t.stdinOf c = some [] ∧ t.sidOf c = none
  sid : t.sidOf = s.sidOf ∨
    ∃ c sid, s.sidOf c = none ∧ t.sidOf = Function.update s.sidOf c (some sid)

theorem keeps_of_step {label : Label I} (howned : Owned s) (hstep : s.step label = some t) :
    Server.Keeps s t ∨ ∃ k sid c len rest, label.movesCall = some k ∧
      s.calls[k]? = some ⟨.stdin sid, .writing c rest⟩ ∧
      t.stdinOf = (s.modifyChild c (fun child =>
        { child with stdin := child.stdin ++ rest.take len })).stdinOf ∧ t.sidOf = s.sidOf := by
  cases serverStep_of_step hstep with
  | called request => exact .inl ⟨fun _ => .inl rfl, .inl rfl⟩
  | @moved _ k request p q u hlabel hcall hmove =>
    rcases hmove.stdinOf with hstdin | ⟨sid, c, len, rest, rfl, rfl, rfl⟩
    · refine .inl ⟨hstdin, ?_⟩
      rcases hmove.sidOf howned hcall with hsame | ⟨c, hnone, hnew⟩
      · exact .inl hsame
      · exact .inr ⟨c, _, hnone, hnew⟩
    · exact .inr ⟨k, sid, c, len, rest, hlabel, hcall, rfl, Server.sidOf_modifyChild fun _ => rfl⟩
  | child hchild hchildStep =>
    have hstdin := stdinOf_stepChild hchildStep
    exact .inl ⟨fun c => .inl (congrFun hstdin c), .inl (stepChild_same hchildStep).2.2.2.1⟩
  | copy htask hcopy =>
    have hstdin := stdinOf_stepCopy hcopy
    exact .inl ⟨fun c => .inl (congrFun hstdin c), .inl (stepCopy_same hcopy).2.2.1⟩
  | forwardDone => exact .inl ⟨fun _ => .inl rfl, .inl rfl⟩

theorem blank_step {label : Label I} (howned : Owned s) (h : s.Blank)
    (hstep : s.step label = some t) : t.Blank := by
  intro c bytes hc hnone
  rcases keeps_of_step howned hstep with hkeeps | ⟨k, sid, d, len, rest, -, hcall, hstdin, hsid⟩
  · have hnone' : s.sidOf c = none := by
      rcases hkeeps.sid with hsame | ⟨d, sid, -, hnew⟩
      · rw [← hsame, hnone]
      · rw [hnew] at hnone
        by_cases hcd : c = d
        · subst hcd
          simp at hnone
        · rwa [Function.update_of_ne hcd] at hnone
    rcases hkeeps.stdin c with hsame | ⟨-, hnew, -⟩
    · exact h c bytes (hsame ▸ hc) hnone'
    · rw [hnew] at hc
      exact (Option.some.inj hc).symm
  · obtain ⟨sid', -, hd⟩ := howned.users k _ d hcall rfl
    have hcd : c ≠ d := by
      rintro rfl
      rw [hsid, hd] at hnone
      cases hnone
    rw [hstdin, Server.stdinOf_write, if_neg hcd] at hc
    exact h c bytes hc (hsid ▸ hnone)

/-- A step that makes no write for the id leaves its input alone. -/
theorem kept_of_step {label : Label I} {sid : I} (howned : Owned s) (hblank : s.Blank)
    (hstep : s.step label = some t)
    (hother : ∀ (k c : ℕ) (rest : List UInt8), label.movesCall = some k →
      s.calls[k]? ≠ some ⟨.stdin sid, .writing c rest⟩) :
    (∀ ours, s.Untouched sid ours → t.Untouched sid ours) ∧ ∀ c bytes, s.sidOf c = some sid →
      s.stdinOf c = some bytes → t.sidOf c = some sid ∧ t.stdinOf c = some bytes := by
  rcases keeps_of_step howned hstep with
    hkeeps | ⟨k, sid', d, len, rest, hlabel, hcall, hstdin, hsid⟩
  · have hsids : ∀ c, t.sidOf c = s.sidOf c ∨ s.sidOf c = none := by
      intro c
      rcases hkeeps.sid with hsame | ⟨d, sid', hnone, hnew⟩
      · exact .inl (congrFun hsame c)
      · by_cases hcd : c = d
        · exact .inr (hcd ▸ hnone)
        · exact .inl (by rw [hnew, Function.update_of_ne hcd])
    refine ⟨fun ours huntouched c bytes hc hcsid hours => ?_, fun c bytes hcsid hc => ?_⟩
    · rcases hkeeps.stdin c with hsame | ⟨-, hnew, -⟩
      · rw [hsame] at hc
        rcases hsids c with hold | hnone
        · exact huntouched c bytes hc (hold ▸ hcsid) hours
        · exact hblank c bytes hc hnone
      · rw [hnew] at hc
        exact (Option.some.inj hc).symm
    · constructor
      · rcases hsids c with hold | hnone
        · rw [hold, hcsid]
        · simp [hnone] at hcsid
      · rcases hkeeps.stdin c with hsame | ⟨hnone, -⟩
        · rw [hsame, hc]
        · simp [hnone] at hc
  · obtain ⟨sid'', hrequest, hd⟩ := howned.users k _ d hcall rfl
    cases hrequest
    have hne : ∀ c, s.sidOf c = some sid → c ≠ d := by
      rintro c hc rfl
      rw [hd] at hc
      cases hc
      exact hother k c rest hlabel hcall
    have hsame : ∀ c, s.sidOf c = some sid → t.stdinOf c = s.stdinOf c := by
      intro c hc
      rw [hstdin, Server.stdinOf_write, if_neg (hne c hc)]
    refine ⟨fun ours huntouched c bytes hc hcsid hours => ?_, fun c bytes hcsid hc => ?_⟩
    · rw [hsid] at hcsid
      exact huntouched c bytes (hsame c hcsid ▸ hc) hcsid hours
    · rw [hsid, hsame c hcsid]
      exact ⟨hcsid, hc⟩

end

namespace Server

/-- The bytes are the input of a session, and no other session of the id has got any. -/
def Got (s : Server I) (sid : I) (c : ℕ) (bytes : List UInt8) : Prop :=
  s.sidOf c = some sid ∧ s.stdinOf c = some bytes ∧ s.Untouched sid (some c)

/-- What the `stdin` call of a session has made of the bytes it was given. -/
def Wrote (s : Server I) (sid : I) (bytes : List UInt8) : Phase → Prop
  | .called | .lockingStdin _ => bytes = [] ∧ s.Untouched sid none
  | .streaming c => s.Got sid c bytes
  | .writing c rest => rest ≠ [] ∧ ∃ written, s.Got sid c written ∧ written ++ rest = bytes
  | .done (.ok _) => ∃ c, s.Got sid c bytes
  | _ => True

/-- The session has been given the bytes in its only `stdin` call, or nothing. -/
def Given (s : Server I) (sid : I) (bytes : List UInt8) : Option ℕ → Prop
  | none =>
    bytes = [] ∧ s.Untouched sid none ∧ ∀ (i : ℕ) (p : Phase), s.calls[i]? ≠ some ⟨.stdin sid, p⟩
  | some k =>
    (∃ p, s.calls[k]? = some ⟨.stdin sid, p⟩ ∧ s.Wrote sid bytes p) ∧
      ∀ (i : ℕ) (p : Phase), s.calls[i]? = some ⟨.stdin sid, p⟩ → i = k

theorem Wrote.kept {sid : I} {bytes : List UInt8} {p : Phase} (h : s.Wrote sid bytes p)
    (huntouched : ∀ ours, s.Untouched sid ours → t.Untouched sid ours)
    (hkept : ∀ c bytes, s.sidOf c = some sid → s.stdinOf c = some bytes →
      t.sidOf c = some sid ∧ t.stdinOf c = some bytes) : t.Wrote sid bytes p := by
  have hgot : ∀ c bytes, s.Got sid c bytes → t.Got sid c bytes := by
    rintro c bytes ⟨hsid, hbytes, hothers⟩
    obtain ⟨hsid', hbytes'⟩ := hkept c bytes hsid hbytes
    exact ⟨hsid', hbytes', huntouched _ hothers⟩
  cases p with
  | called | lockingStdin c => exact ⟨h.1, huntouched none h.2⟩
  | streaming c => exact hgot c bytes h
  | writing c rest =>
    obtain ⟨hne, written, hwritten, hrest⟩ := h
    exact ⟨hne, written, hgot c written hwritten, hrest⟩
  | done ret =>
    cases ret with
    | error e => trivial
    | ok a =>
      obtain ⟨c, hc⟩ := h
      exact ⟨c, hgot c bytes hc⟩
  | _ => trivial

end Server

def StdinEvent.bytes : StdinEvent → List UInt8
  | .item data => data
  | _ => []

/-- The bytes that a step gives to call `k`. -/
def Label.gives (k : ℕ) : Label I → List UInt8
  | .stdin i e => if i = k then e.bytes else []
  | _ => []

section
variable [DecidableEq I]

omit [DecidableEq I] in
theorem stdinOf_of_sidOf {c : ℕ} {sid : I} (h : s.sidOf c = some sid) :
    ∃ bytes, s.stdinOf c = some bytes := by
  obtain ⟨child, hchild, -⟩ := Option.bind_eq_some_iff.mp h
  exact ⟨child.stdin, Server.stdinOf_eq_some.mpr ⟨child, hchild, rfl⟩⟩

omit [DecidableEq I] in
theorem Server.Got.write {c : ℕ} {sid : I} {written : List UInt8} (h : s.Got sid c written)
    (bytes : List UInt8) :
    (s.modifyChild c (fun child => { child with stdin := child.stdin ++ bytes })).Got sid c
      (written ++ bytes) := by
  obtain ⟨hsid, hwritten, hothers⟩ := h
  have hsids : (s.modifyChild c (fun child => { child with stdin := child.stdin ++ bytes })).sidOf =
      s.sidOf := by
    refine Server.sidOf_modifyChild fun child => ?_
    rfl
  refine ⟨(congrFun hsids c).trans hsid, ?_, fun d bytes' hd hdsid hne => ?_⟩
  · rw [Server.stdinOf_write, if_pos rfl, hwritten]
    rfl
  · have hdc : d ≠ c := fun hdc => hne (congrArg some hdc.symm)
    rw [Server.stdinOf_write, if_neg hdc] at hd
    exact hothers d bytes' hd ((congrFun hsids d).symm.trans hdsid) hne

omit [DecidableEq I] in
/-- One step of the `stdin` call. -/
theorem wrote_stepStdin {sid : I} {bytes : List UInt8} {p : Phase} {e : StdinEvent}
    (howned : Owned s) (hcall : s.calls[k]? = some ⟨.stdin sid, p⟩)
    (hwrote : s.Wrote sid bytes p) (hstep : s.stepStdin k sid p e = some t) :
    ∃ q, t.calls[k]? = some ⟨.stdin sid, q⟩ ∧
      t.Wrote sid (bytes ++ e.bytes) q := by
  have hmoved : ∀ (u : Server I) (q : Phase), u.calls = s.calls →
      (u.setPhase k q).calls[k]? = some ⟨.stdin sid, q⟩ := by
    intro u q hu
    rw [calls_moved hcall hu, if_pos rfl]
  revert hstep
  fun_cases Server.stepStdin s k sid p e
  all_goals intro hstep
  all_goals cases hstep
  case case1.refl => exact ⟨_, hmoved _ _ (Server.release_calls s k _), trivial⟩
  case case2.refl =>
    refine ⟨_, hmoved s _ rfl, ?_⟩
    simp only [StdinEvent.bytes, List.append_nil]
    exact hwrote
  case case5.refl c _ =>
    refine ⟨_, hmoved s _ rfl, ?_⟩
    obtain ⟨hnil, huntouched⟩ := hwrote
    obtain ⟨sid', hrequest, hsid⟩ := howned.users k _ c hcall rfl
    cases hrequest
    obtain ⟨written, hwritten⟩ := stdinOf_of_sidOf hsid
    simp only [hnil, StdinEvent.bytes, List.append_nil]
    rw [huntouched c written hwritten hsid (by simp)] at hwritten
    exact ⟨hsid, hwritten, huntouched.but c⟩
  case case7.refl item c =>
    refine ⟨_, hmoved s _ rfl, ?_⟩
    rw [StdinEvent.bytes]
    split_ifs with hitem
    · rw [hitem, List.append_nil]
      exact hwrote
    · exact ⟨hitem, bytes, hwrote, rfl⟩
  case case9.refl c =>
    refine ⟨_, hmoved s _ rfl, ?_⟩
    simp only [StdinEvent.bytes, List.append_nil]
    exact ⟨c, hwrote⟩
  case case11.refl len c rest hlen =>
    refine ⟨_, hmoved (s.modifyChild c _) _ rfl, ?_⟩
    obtain ⟨-, written, hgot, hrest⟩ := hwrote
    have hnext := hgot.write (rest.take len)
    simp only [StdinEvent.bytes, List.append_nil, ← hrest]
    split_ifs with hdrop
    · have htake : rest.take len = rest := List.take_of_length_le (List.drop_eq_nil_iff.mp hdrop)
      rw [htake] at hnext ⊢
      exact hnext
    · refine ⟨hdrop, written ++ rest.take len, hnext, ?_⟩
      rw [List.append_assoc, List.take_append_drop]
  case case14.refl => exact ⟨_, hmoved _ _ (Server.release_calls s k _), trivial⟩

theorem stepStdin_of_step {label : Label I} {sid : I} {p : Phase}
    (hcall : s.calls[k]? = some ⟨.stdin sid, p⟩) (hlabel : label.movesCall = some k)
    (hstep : s.step label = some t) :
    label = .drop k ∧ t.calls[k]? = some ⟨.stdin sid, .dropped⟩ ∨
      ∃ e, label = .stdin k e ∧ s.stepStdin k sid p e = some t := by
  cases label <;> simp only [Label.movesCall, Option.some.injEq, reduceCtorEq] at hlabel
  all_goals subst hlabel
  case drop =>
    simp only [Server.step, hcall] at hstep
    split_ifs at hstep
    cases hstep
    exact .inl ⟨rfl, by rw [calls_moved hcall (Server.release_calls s _ _), if_pos rfl]⟩
  case stdin e =>
    simp only [Server.step, hcall] at hstep
    exact .inr ⟨e, rfl, hstep⟩
  all_goals simp [Server.step, hcall] at hstep

omit [DecidableEq I] in
theorem gives_of_ne {label : Label I} (h : label.movesCall ≠ some k) : label.gives k = [] := by
  cases label <;> simp_all [Label.movesCall, Label.gives]

/-- A step of the server, which may give bytes to the call. -/
theorem given_step {label : Label I} {sid : I} {bytes : List UInt8} {service : Option ℕ}
    (howned : Owned s) (hblank : s.Blank) (h : s.Given sid bytes service)
    (hstep : s.step label = some t) (hlabel : label ≠ .call (.stdin sid)) :
    t.Given sid (bytes ++ service.elim [] label.gives) service := by
  have hold : ∀ (i : ℕ) (p : Phase), t.calls[i]? = some ⟨.stdin sid, p⟩ →
      ∃ p', s.calls[i]? = some ⟨.stdin sid, p'⟩ := by
    intro i p hi
    rcases request_of_step hi hstep with hp | hcall
    · exact hp
    · exact absurd hcall hlabel
  cases service with
  | none =>
    obtain ⟨hnil, huntouched, hnone⟩ := h
    have hother : ∀ (k c : ℕ) (rest : List UInt8), label.movesCall = some k →
        s.calls[k]? ≠ some ⟨.stdin sid, .writing c rest⟩ := fun k c rest _ => hnone k (.writing c rest)
    obtain ⟨hkept, -⟩ := kept_of_step howned hblank hstep hother
    refine ⟨by simp [hnil], hkept none huntouched, fun i p hi => ?_⟩
    obtain ⟨p', hp'⟩ := hold i p hi
    exact hnone i p' hp'
  | some k =>
    obtain ⟨⟨p, hcall, hwrote⟩, honly⟩ := h
    refine ⟨?_, fun i p hi => ?_⟩
    · by_cases hmoves : label.movesCall = some k
      · rcases stepStdin_of_step hcall hmoves hstep with ⟨rfl, hdropped⟩ | ⟨e, rfl, hstdin⟩
        · exact ⟨_, hdropped, trivial⟩
        · simpa [Label.gives] using wrote_stepStdin howned hcall hwrote hstdin
      · have hsame : t.calls[k]? = some ⟨.stdin sid, p⟩ := by
          by_contra hne
          exact hmoves (moves_of_call_ne hstep hcall hne)
        have hother : ∀ (i c : ℕ) (rest : List UInt8), label.movesCall = some i →
            s.calls[i]? ≠ some ⟨.stdin sid, .writing c rest⟩ := by
          intro i c rest hi hk
          obtain rfl := honly i _ hk
          exact hmoves hi
        obtain ⟨huntouched, hkept⟩ := kept_of_step howned hblank hstep hother
        refine ⟨p, hsame, ?_⟩
        rw [Option.elim, gives_of_ne hmoves, List.append_nil]
        exact hwrote.kept huntouched hkept
    · obtain ⟨p', hp'⟩ := hold i p hi
      exact honly i p' hp'

/-- The items of its stream alone end a `stdin` call well. -/
theorem label_of_stdin_ok {label : Label I} {sid : I} {p : Phase} {a : Answer}
    (hcall : s.calls[k]? = some ⟨.stdin sid, p⟩) (hstep : s.step label = some t)
    (ht : t.calls[k]? = some ⟨.stdin sid, .done (.ok a)⟩) :
    p = .done (.ok a) ∨ label = .stdin k .endOfStream := by
  by_cases hmoves : label.movesCall = some k
  · right
    rcases stepStdin_of_step hcall hmoves hstep with ⟨rfl, hdropped⟩ | ⟨e, rfl, hstdin⟩
    · rw [hdropped] at ht
      cases ht
    · revert hstdin
      fun_cases Server.stepStdin s k sid p e
      all_goals intro hstdin
      all_goals cases hstdin
      case case9.refl => rfl
      case case1.refl => cases phase_of_setPhase hcall (Server.release_calls s k _) ht
      case case14.refl => cases phase_of_setPhase hcall (Server.release_calls s k _) ht
      case case7.refl =>
        have hq := phase_of_setPhase hcall rfl ht
        split_ifs at hq
      case case11.refl =>
        have hq := phase_of_setPhase hcall rfl ht
        split_ifs at hq
      all_goals cases phase_of_setPhase hcall rfl ht
  · left
    have hsame : t.calls[k]? = some ⟨.stdin sid, p⟩ := by
      by_contra hne
      exact hmoves (moves_of_call_ne hstep hcall hne)
    rw [hsame] at ht
    cases ht
    rfl

end

/-! The client side. -/

def ReaderPhase.held : ReaderPhase → List UInt8
  | .sending buf => buf
  | _ => []

def ReaderPhase.failed : ReaderPhase → Bool
  | .done (.error _) => true
  | _ => false

/-- What was read and is not given to the `stdin` call yet. -/
def Stdin.underway (d : Stdin I) : List UInt8 :=
  (d.service.bind Prod.snd).getD [] ++ d.wire.flatMap StdinRequest.data ++ d.queue.flatten ++
    d.reader.held

structure Stdin.Feeds (d : Stdin I) (s : Server I) (sid : I) : Prop where
  given : ∃ bytes, s.Given sid bytes (d.service.map Prod.fst) ∧
    (d.reader.failed = false → bytes ++ d.underway = d.chunks.flatten)
  first : d.rpc = .first → d.wire = [] ∧ d.service = none ∧ d.closed = false
  /-- the id in a message is that of the session -/
  id : ∀ req ∈ d.wire, ∀ sid', req.id = some sid' → sid' = sid
  closed : d.closed = true → d.queue = [] ∧ d.reader.holdsTx = false
  /-- a `stdin` call that has returned well has taken all there is -/
  served : ∀ k front a, d.service = some (k, front) →
    s.calls[k]? = some ⟨.stdin sid, .done (.ok a)⟩ →
      front = none ∧ d.wire = [] ∧ d.closed = true
  rpcDone : d.rpc = .done (.ok ()) →
    d.service = none ∧ d.wire = [] ∧ d.queue = [] ∧ d.reader.holdsTx = false ∨
      ∃ k front a, d.service = some (k, front) ∧
        s.calls[k]? = some ⟨.stdin sid, .done (.ok a)⟩
  readerDone : d.reader = .done (.ok ()) → d.rpc = .done (.ok ())
  /-- the first message carries the id -/
  unserved : d.rpc = .calling → d.service = none → ∃ data wire, d.wire = ⟨some sid, data⟩ :: wire

section
variable [DecidableEq I]

theorem Stdin.Feeds.server {d : Stdin I} {sid : I} {label : Label I} (h : d.Feeds s sid)
    (howned : Owned s) (hblank : s.Blank) (hstep : s.step label = some t)
    (hlabel : label ≠ .call (.stdin sid))
    (hfed : ∀ k front, d.service = some (k, front) → label.gives k = [] ∧
      label ≠ .stdin k .endOfStream) : d.Feeds t sid where
  given := by
    obtain ⟨bytes, hgiven, hbytes⟩ := h.given
    refine ⟨bytes, ?_, hbytes⟩
    have hnext := given_step howned hblank hgiven hstep hlabel
    have hnone : (d.service.map Prod.fst).elim [] label.gives = [] := by
      cases hservice : d.service with
      | none => rfl
      | some service => exact (hfed service.1 service.2 hservice).1
    rw [hnone, List.append_nil] at hnext
    exact hnext
  first := h.first
  id := h.id
  closed := h.closed
  served k front a hservice hk := by
    obtain ⟨bytes, hgiven, -⟩ := h.given
    rw [hservice] at hgiven
    obtain ⟨⟨p, hcall, -⟩, -⟩ := hgiven
    rcases label_of_stdin_ok hcall hstep hk with rfl | hend
    · exact h.served k front a hservice hcall
    · exact absurd hend (hfed k front hservice).2
  rpcDone hrpc := by
    rcases h.rpcDone hrpc with hnone | ⟨k, front, a, hservice, hk⟩
    · exact .inl hnone
    · obtain ⟨q, hq, hsame⟩ := call_of_step hk hstep
      rw [hsame rfl] at hq
      exact .inr ⟨k, front, a, hservice, hq⟩
  readerDone := h.readerDone
  unserved := h.unserved

omit [DecidableEq I] in
/-- Once the task of the `stdin` call has ended well, nothing is underway. -/
theorem Stdin.Feeds.over {d : Stdin I} {sid : I} (h : d.Feeds s sid)
    (hrpc : d.rpc = .done (.ok ())) : d.reader.holdsTx = false ∧ d.underway = d.reader.held := by
  rcases h.rpcDone hrpc with ⟨hservice, hwire, hqueue, htx⟩ | ⟨k, front, a, hservice, hk⟩
  · exact ⟨htx, by simp [Stdin.underway, hservice, hwire, hqueue]⟩
  · obtain ⟨hfront, hwire, hclosed⟩ := h.served k front a hservice hk
    obtain ⟨hqueue, htx⟩ := h.closed hclosed
    exact ⟨htx, by simp [Stdin.underway, hservice, hfront, hwire, hqueue]⟩

omit [DecidableEq I] in
theorem rpc_ne_of_holdsTx {d : Stdin I} {sid : I} (h : d.Feeds s sid)
    (htx : d.reader.holdsTx = true) : d.rpc ≠ .done (.ok ()) := by
  intro hrpc
  simp [(h.over hrpc).1] at htx

omit [DecidableEq I] in
/-- A step of the reader, which has read `buf` or nothing. -/
theorem Stdin.Feeds.read {d : Stdin I} {sid : I} {r : ReaderPhase} {chunks : List (List UInt8)}
    (h : d.Feeds s sid) (htx : d.reader.holdsTx = true) (hdone : r ≠ .done (.ok ()))
    (hbytes : r.failed = false → d.reader.failed = false ∧ ∃ buf,
      r.held = d.reader.held ++ buf ∧ chunks.flatten = d.chunks.flatten ++ buf) :
    Stdin.Feeds { d with reader := r, chunks := chunks } s sid where
  given := by
    obtain ⟨bytes, hgiven, heq⟩ := h.given
    refine ⟨bytes, hgiven, fun hr => ?_⟩
    obtain ⟨hfailed, buf, hheld, hchunks⟩ := hbytes hr
    rw [hchunks, ← heq hfailed]
    simp [Stdin.underway, hheld]
  first := h.first
  id := h.id
  closed hclosed := by
    have hnone := (h.closed hclosed).2
    simp [htx] at hnone
  served := h.served
  rpcDone hrpc := by
    have hdone : d.rpc = .done (.ok ()) := hrpc
    exact absurd hdone (rpc_ne_of_holdsTx h htx)
  readerDone hr := absurd hr hdone
  unserved := h.unserved

omit [DecidableEq I] in
theorem Stdin.Feeds.rpcFails {d : Stdin I} {sid : I} (h : d.Feeds s sid)
    (hrpc : d.rpc = .calling) (e : ClientError) :
    Stdin.Feeds { d with rpc := .done (.error e) } s sid where
  given := h.given
  first hfirst := by cases hfirst
  id := h.id
  closed := h.closed
  served := h.served
  rpcDone hdone := by cases hdone
  readerDone hr := by
    have hdone := h.readerDone hr
    simp [hrpc] at hdone
  unserved hcalling := by cases hcalling

/-- The `stdin` call takes the next item. -/
theorem Stdin.Feeds.take {d : Stdin I} {sid : I} {item : List UInt8} {front : Option (List UInt8)}
    {wire : List (StdinRequest I)} (h : d.Feeds s sid) (howned : Owned s) (hblank : s.Blank)
    (hservice : d.service = some (k, front)) (hitem : front ≠ none ∨ d.wire ≠ [])
    (hwire : ∀ req ∈ wire, req ∈ d.wire)
    (hunderway : d.underway =
      item ++ Stdin.underway { d with service := some (k, none), wire := wire })
    (hstep : s.step (.stdin k (.item item)) = some t) :
    Stdin.Feeds { d with service := some (k, none), wire := wire } t sid where
  given := by
    obtain ⟨bytes, hgiven, heq⟩ := h.given
    rw [hservice] at hgiven
    refine ⟨bytes ++ item, ?_, fun hr => ?_⟩
    · have hnext := given_step howned hblank hgiven hstep (by simp)
      simpa [Label.gives, StdinEvent.bytes] using hnext
    · rw [← heq hr, hunderway, List.append_assoc]
  first hrpc := by
    have hnone := (h.first hrpc).2.1
    simp [hservice] at hnone
  id req hreq := h.id req (hwire req hreq)
  closed := h.closed
  served k' front' a hservice' hk := by
    cases hservice'
    obtain ⟨bytes, hgiven, -⟩ := h.given
    rw [hservice] at hgiven
    obtain ⟨⟨p, hcall, -⟩, -⟩ := hgiven
    rcases label_of_stdin_ok hcall hstep hk with rfl | hend
    · obtain ⟨hfront, hnil, -⟩ := h.served k front a hservice hcall
      rcases hitem with hne | hne
      · exact absurd hfront hne
      · exact absurd hnil hne
    · cases hend
  rpcDone hrpc := by
    rcases h.rpcDone hrpc with ⟨hnone, -⟩ | ⟨k', front', a, hservice', hk⟩
    · simp [hservice] at hnone
    · rw [hservice] at hservice'
      cases hservice'
      obtain ⟨q, hq, hsame⟩ := call_of_step hk hstep
      rw [hsame rfl] at hq
      exact .inr ⟨k, none, a, rfl, hq⟩
  readerDone := h.readerDone
  unserved _ hnone := by cases hnone

omit [DecidableEq I] in
/-- The `stdin` call is made. -/
theorem Server.Given.called {sid : I} {bytes : List UInt8} (h : s.Given sid bytes none) :
    Server.Given { s with calls := s.calls ++ [⟨.stdin sid, .called⟩] } sid bytes
      (some s.calls.length) := by
  obtain ⟨hnil, huntouched, hnone⟩ := h
  refine ⟨⟨.called, by simp, hnil, huntouched⟩, fun i p hi => ?_⟩
  by_contra hne
  have hold : s.calls[i]? = some ⟨.stdin sid, p⟩ := by
    change (s.calls ++ [⟨.stdin sid, .called⟩])[i]? = _ at hi
    rcases getElem?_concat_cases hi with hi | ⟨hlast, -⟩
    · exact hi
    · exact absurd hlast fun h => hne (by rw [h])
  exact hnone i p hold

omit [DecidableEq I] in
/-- The reader puts a chunk into the channel. -/
theorem Stdin.Feeds.sent {d : Stdin I} {sid : I} {buf : List UInt8} (h : d.Feeds s sid)
    (hreader : d.reader = .sending buf) (hqueue : d.queue = []) :
    Stdin.Feeds { d with reader := .reading, queue := [buf] } s sid where
  given := by
    obtain ⟨bytes, hgiven, heq⟩ := h.given
    refine ⟨bytes, hgiven, fun _ => ?_⟩
    rw [← heq (by simp [hreader, ReaderPhase.failed])]
    simp [Stdin.underway, ReaderPhase.held, hreader, hqueue]
  first := h.first
  id := h.id
  closed hclosed := by
    have htx := (h.closed hclosed).2
    simp [hreader, ReaderPhase.holdsTx] at htx
  served := h.served
  rpcDone hrpc := by
    have hdone : d.rpc = .done (.ok ()) := hrpc
    have htx : d.reader.holdsTx = true := by simp [hreader, ReaderPhase.holdsTx]
    exact absurd hdone (rpc_ne_of_holdsTx h htx)
  readerDone hr := by cases hr
  unserved := h.unserved

omit [DecidableEq I] in
/-- The reader returns what the task of the `stdin` call has returned. -/
theorem Stdin.Feeds.join {d : Stdin I} {sid : I} {ret : Except ClientError Unit}
    (h : d.Feeds s sid) (hreader : d.reader = .closing) (hrpc : d.rpc = .done ret) :
    Stdin.Feeds { d with reader := .done ret } s sid where
  given := by
    obtain ⟨bytes, hgiven, heq⟩ := h.given
    refine ⟨bytes, hgiven, fun _ => ?_⟩
    rw [← heq (by simp [hreader, ReaderPhase.failed])]
    simp [Stdin.underway, ReaderPhase.held, hreader]
  first := h.first
  id := h.id
  closed hclosed := ⟨(h.closed hclosed).1, rfl⟩
  served := h.served
  rpcDone hdone := by
    rcases h.rpcDone hdone with ⟨hservice, hwire, hqueue, -⟩ | hserved
    · exact .inl ⟨hservice, hwire, hqueue, rfl⟩
    · exact .inr hserved
  readerDone hr := by
    cases hr
    exact hrpc
  unserved := h.unserved

omit [DecidableEq I] in
/-- The first chunk makes the `stdin` call, with the id of the session. -/
theorem Stdin.Feeds.firstSent {d : Stdin I} {sid : I} {buf : List UInt8}
    {queue : List (List UInt8)} (h : d.Feeds s sid) (hrpc : d.rpc = .first)
    (hqueue : d.queue = buf :: queue) :
    Stdin.Feeds { d with rpc := .calling, queue := queue, wire := [⟨some sid, buf⟩] } s sid := by
  obtain ⟨hwire, hservice, hopen⟩ := h.first hrpc
  constructor
  case given =>
    obtain ⟨bytes, hgiven, heq⟩ := h.given
    refine ⟨bytes, hgiven, fun hr => ?_⟩
    rw [← heq hr]
    simp [Stdin.underway, hservice, hwire, hqueue]
  case readerDone =>
    intro hr
    have hdone := h.readerDone hr
    simp [hrpc] at hdone
  case unserved => exact fun _ _ => ⟨_, _, rfl⟩
  all_goals simp [hservice, hopen]

omit [DecidableEq I] in
/-- The task of the `stdin` call ends well. -/
theorem Stdin.Feeds.rpcEnds {d : Stdin I} {sid : I} (h : d.Feeds s sid)
    (hends : d.service = none ∧ d.wire = [] ∧ d.queue = [] ∧ d.reader.holdsTx = false ∨
      ∃ k front a, d.service = some (k, front) ∧
        s.calls[k]? = some ⟨.stdin sid, .done (.ok a)⟩) :
    Stdin.Feeds { d with rpc := .done (.ok ()) } s sid where
  given := h.given
  first hrpc := by cases hrpc
  id := h.id
  closed := h.closed
  served := h.served
  rpcDone _ := hends
  readerDone _ := rfl
  unserved hrpc := by cases hrpc

omit [DecidableEq I] in
/-- A chunk becomes a message without an id. -/
theorem Stdin.Feeds.forward {d : Stdin I} {sid : I} {buf : List UInt8}
    {queue : List (List UInt8)} (h : d.Feeds s sid) (hrpc : d.rpc = .calling)
    (hqueue : d.queue = buf :: queue) :
    Stdin.Feeds { d with queue := queue, wire := d.wire ++ [⟨none, buf⟩] } s sid where
  given := by
    obtain ⟨bytes, hgiven, heq⟩ := h.given
    refine ⟨bytes, hgiven, fun hr => ?_⟩
    rw [← heq hr]
    simp [Stdin.underway, hqueue]
  first hfirst := by simp [hrpc] at hfirst
  id req hreq sid' hid := by
    rcases List.mem_append.mp hreq with hold | hnew
    · exact h.id req hold sid' hid
    · rw [List.mem_singleton] at hnew
      subst hnew
      cases hid
  closed hclosed := by
    have hnil := (h.closed hclosed).1
    simp [hqueue] at hnil
  served k front a hservice hk := by
    obtain ⟨-, -, hclosed⟩ := h.served k front a hservice hk
    have hnil := (h.closed hclosed).1
    simp [hqueue] at hnil
  rpcDone hdone := by simp [hrpc] at hdone
  readerDone := h.readerDone
  unserved _ hservice := by
    obtain ⟨data, wire, hwire⟩ := h.unserved hrpc hservice
    exact ⟨data, wire ++ [⟨none, buf⟩], by simp [hwire]⟩

omit [DecidableEq I] in
/-- The request stream ends when all chunks are on it and there will be no more. -/
theorem Stdin.Feeds.endRequests {d : Stdin I} {sid : I} (h : d.Feeds s sid)
    (hrpc : d.rpc = .calling) (hqueue : d.queue = []) (htx : d.reader.holdsTx = false) :
    Stdin.Feeds { d with closed := true } s sid where
  given := h.given
  first hfirst := by simp [hrpc] at hfirst
  id := h.id
  closed _ := ⟨hqueue, htx⟩
  served k front a hservice hk := by
    obtain ⟨hfront, hwire, -⟩ := h.served k front a hservice hk
    exact ⟨hfront, hwire, rfl⟩
  rpcDone hdone := by simp [hrpc] at hdone
  readerDone := h.readerDone
  unserved := h.unserved

omit [DecidableEq I] in
/-- The service gets the first message and makes the `stdin` call. -/
theorem Stdin.Feeds.serve {d : Stdin I} {sid : I} {data : List UInt8}
    {wire : List (StdinRequest I)} (h : d.Feeds s sid) (hservice : d.service = none)
    (hwire : d.wire = ⟨some sid, data⟩ :: wire) :
    Stdin.Feeds { d with wire := wire, service := some (s.calls.length, some data) }
      { s with calls := s.calls ++ [⟨.stdin sid, .called⟩] } sid where
  given := by
    obtain ⟨bytes, hgiven, heq⟩ := h.given
    rw [hservice] at hgiven
    refine ⟨bytes, hgiven.called, fun hr => ?_⟩
    rw [← heq hr]
    simp [Stdin.underway, hservice, hwire]
  first hrpc := by
    have hnil := (h.first hrpc).1
    simp [hwire] at hnil
  id req hreq := h.id req (by simp [hwire, hreq])
  closed := h.closed
  served k front a hk hcall := by
    cases hk
    have hcalled : (s.calls ++ [⟨.stdin sid, .called⟩])[s.calls.length]? =
        some ⟨.stdin sid, .called⟩ := by simp
    cases hcalled.symm.trans hcall
  rpcDone hdone := by
    rcases h.rpcDone hdone with ⟨-, hnil, -⟩ | ⟨k, front, a, hsome, -⟩
    · simp [hwire] at hnil
    · simp [hservice] at hsome
  readerDone := h.readerDone
  unserved _ hnone := by cases hnone

/-- The `stdin` call learns that there are no more items. -/
theorem Stdin.Feeds.endOfStream {d : Stdin I} {sid : I} (h : d.Feeds s sid) (howned : Owned s)
    (hblank : s.Blank) (hservice : d.service = some (k, none)) (hwire : d.wire = [])
    (hclosed : d.closed = true) (hstep : s.step (.stdin k .endOfStream) = some t) :
    d.Feeds t sid where
  given := by
    obtain ⟨bytes, hgiven, heq⟩ := h.given
    refine ⟨bytes, ?_, heq⟩
    rw [hservice] at hgiven ⊢
    have hnext := given_step howned hblank hgiven hstep (by simp)
    simp only [Option.map_some, Option.elim_some, Label.gives, if_true, StdinEvent.bytes,
      List.append_nil] at hnext
    exact hnext
  first := h.first
  id := h.id
  closed := h.closed
  served k' front a hservice' _ := by
    rw [hservice] at hservice'
    cases hservice'
    exact ⟨rfl, hwire, hclosed⟩
  rpcDone hrpc := by
    rcases h.rpcDone hrpc with hnone | ⟨k', front, a, hservice', hk⟩
    · exact .inl hnone
    · obtain ⟨q, hq, hsame⟩ := call_of_step hk hstep
      rw [hsame rfl] at hq
      exact .inr ⟨k', front, a, hservice', hq⟩
  readerDone := h.readerDone
  unserved := h.unserved

theorem Stdin.Feeds.stepFeed {s t : System I} {d : Stdin I} {e : FeedEvent}
    (h : d.Feeds s.server s.client.sid) (howned : Owned s.server) (hblank : s.server.Blank)
    (hclean : e ≠ .broken) (hstep : s.stepFeed d e = some t) :
    ∃ d' : Stdin I, t.client.stdin = some d' ∧ d'.Feeds t.server s.client.sid := by
  revert hstep
  fun_cases System.stepFeed s d e
  all_goals intro hstep
  all_goals try cases hstep
  case case1.refl buf hreader hlen =>
    refine ⟨_, rfl, h.read (by simp [hreader, ReaderPhase.holdsTx]) (by simp) fun _ => ?_⟩
    exact ⟨by simp [hreader, ReaderPhase.failed], buf, by simp [hreader, ReaderPhase.held], by simp⟩
  case case4.refl hreader =>
    refine ⟨_, rfl, h.read (by simp [hreader, ReaderPhase.holdsTx]) (by simp) fun _ => ?_⟩
    exact ⟨by simp [hreader, ReaderPhase.failed], [], by simp [hreader, ReaderPhase.held], by simp⟩
  case case6.refl hreader _ =>
    refine ⟨_, rfl, h.read (by simp [hreader, ReaderPhase.holdsTx]) (by simp) fun _ => ?_⟩
    exact ⟨by simp [hreader, ReaderPhase.failed], [], by simp [hreader, ReaderPhase.held], by simp⟩
  case case9.refl hreader =>
    exact ⟨_, rfl, h.read (by simp [hreader, ReaderPhase.holdsTx]) (by simp)
      (by simp [ReaderPhase.failed])⟩
  case case15.refl hreader =>
    exact ⟨_, rfl, h.read (by simp [hreader, ReaderPhase.holdsTx]) (by simp)
      (by simp [ReaderPhase.failed])⟩
  case case12.refl buf hreader hqueue hrpc => exact ⟨_, rfl, h.sent hreader hqueue⟩
  case case17.refl ret hrpc hreader => exact ⟨_, rfl, h.join hreader hrpc⟩
  case case19.refl buf queue hqueue hrpc => exact ⟨_, rfl, h.firstSent hrpc hqueue⟩
  case case22.refl hqueue hrpc htx =>
    obtain ⟨hwire, hservice, -⟩ := h.first hrpc
    exact ⟨_, rfl, h.rpcEnds (.inl ⟨hservice, hwire, hqueue, by simpa using htx⟩)⟩
  case case24.refl buf queue hqueue hrpc => exact ⟨_, rfl, h.forward hrpc hqueue⟩
  case case27.refl hqueue hrpc htx =>
    exact ⟨_, rfl, h.endRequests hrpc hqueue (by simpa using htx)⟩
  case case29.refl sid data wire hwire hservice server =>
    obtain rfl : sid = s.client.sid := h.id ⟨some sid, data⟩ (by simp [hwire]) sid rfl
    exact ⟨_, rfl, h.serve hservice hwire⟩
  case case31.refl hrpc => exact ⟨_, rfl, h.rpcFails hrpc _⟩
  case case32.refl hrpc _ => exact ⟨_, rfl, h.rpcFails hrpc _⟩
  case case35 k data hservice =>
    obtain ⟨server, hserver, rfl⟩ := Option.map_eq_some_iff.mp hstep
    refine ⟨_, rfl, h.take howned hblank hservice (.inl (by simp)) (fun _ hreq => hreq) ?_ hserver⟩
    simp [Stdin.underway, hservice]
  case case36 k req wire hwire hservice =>
    obtain ⟨server, hserver, rfl⟩ := Option.map_eq_some_iff.mp hstep
    rw [hservice]
    refine ⟨_, rfl, h.take howned hblank hservice (.inr (by simp [hwire]))
      (fun _ hreq => by simp [hwire, hreq]) ?_ hserver⟩
    simp [Stdin.underway, hservice, hwire]
  case case38 k hwire hservice hclosed =>
    obtain ⟨server, hserver, rfl⟩ := Option.map_eq_some_iff.mp hstep
    exact ⟨d, rfl, h.endOfStream howned hblank hservice hwire hclosed hserver⟩
  case case41 => exact absurd rfl hclean
  case case43.refl k front hservice hrpc request a hk =>
    refine ⟨_, rfl, h.rpcEnds (.inr ?_)⟩
    obtain ⟨bytes, hgiven, -⟩ := h.given
    rw [hservice] at hgiven
    obtain ⟨⟨p, hcall, -⟩, -⟩ := hgiven
    rw [hk] at hcall
    cases hcall
    exact ⟨k, front, a, hservice, hk⟩
  case case44.refl hrpc _ _ _ => exact ⟨_, rfl, h.rpcFails hrpc _⟩
  case case47.refl hrpc => exact ⟨_, rfl, h.rpcFails hrpc _⟩

/-- `start` of the client has returned or failed. -/
def MainPhase.fed : MainPhase → Bool
  | .started | .ready .wait | .calling .wait _ | .joining _ _ | .returned _ | .failed _ => true
  | _ => false

structure System.Fed (s : System I) : Prop where
  owned : Owned s.server
  blank : s.server.Blank
  before : s.client.stdin = none → s.server.Given s.client.sid [] none
  after : ∀ d, s.client.stdin = some d →
    d.Feeds s.server s.client.sid ∧ s.client.main.fed = true

omit [DecidableEq I] in
theorem feeds_setup {sid : I} (h : s.Given sid [] none) : Stdin.Feeds Stdin.setup s sid where
  given := ⟨[], h, fun _ => rfl⟩
  first _ := ⟨rfl, rfl, rfl⟩
  id := by simp [Stdin.setup]
  closed := by simp [Stdin.setup]
  served := by simp [Stdin.setup]
  rpcDone := by simp [Stdin.setup]
  readerDone := by simp [Stdin.setup]
  unserved := by simp [Stdin.setup]

/-- A step of the server that is not about the stream of the client. -/
theorem System.Fed.server {s : System I} {label : Cpu.Label I} {server : Server I} (h : s.Fed)
    (hstep : s.server.step label = some server)
    (hcall : label ≠ .call (.stdin s.client.sid))
    (hfed : ∀ d k front, s.client.stdin = some d → d.service = some (k, front) →
      label.gives k = [] ∧ label ≠ .stdin k .endOfStream) :
    System.Fed { s with server := server } where
  owned := owned_step s.server label server h.owned hstep
  blank := blank_step h.owned h.blank hstep
  before hnone := given_step h.owned h.blank (h.before hnone) hstep hcall
  after d hd :=
    ⟨(h.after d hd).1.server h.owned h.blank hstep hcall fun k front => hfed d k front hd,
      (h.after d hd).2⟩

omit [DecidableEq I] in
/-- The client changes nothing of its stdin. -/
theorem System.Fed.client {s : System I} {c : Client I} (h : s.Fed)
    (hsid : c.sid = s.client.sid) (hstdin : c.stdin = s.client.stdin)
    (hfed : s.client.main.fed = true → c.main.fed = true) :
    System.Fed { s with client := c } where
  owned := h.owned
  blank := h.blank
  before hnone := by
    change s.server.Given c.sid [] none
    rw [hsid]
    exact h.before (hstdin ▸ hnone)
  after d hd := by
    change d.Feeds s.server c.sid ∧ _
    rw [hsid]
    obtain ⟨hfeeds, hmain⟩ := h.after d (hstdin ▸ hd)
    exact ⟨hfeeds, hfed hmain⟩

omit [DecidableEq I] in
theorem fed_afterReply {c : Client I} {rpc : Rpc} {ret : Except Error Answer}
    (hfed : (MainPhase.calling rpc k).fed = true) :
    (c.afterReply rpc ret).stdin = c.stdin ∧ (c.afterReply rpc ret).main.fed = true := by
  obtain rfl : rpc = .wait := by
    cases rpc with
    | wait => rfl
    | _ => cases hfed
  cases ret with
  | error e => exact ⟨rfl, rfl⟩
  | ok a => cases a <;> exact ⟨rfl, rfl⟩

omit [DecidableEq I] in
theorem stdin_afterReply (c : Client I) (rpc : Rpc) (ret : Except Error Answer) :
    (c.afterReply rpc ret).stdin = c.stdin ∨
      (c.afterReply rpc ret).stdin = some Stdin.setup ∧
        (c.afterReply rpc ret).main.fed = true := by
  fun_cases Client.afterReply c rpc ret
  case case7 => exact .inr ⟨rfl, rfl⟩
  case case9 => exact .inr ⟨rfl, rfl⟩
  all_goals exact .inl rfl

omit [DecidableEq I] in
theorem sid_of_afterReply (c : Client I) (rpc : Rpc) (ret : Except Error Answer) :
    (c.afterReply rpc ret).sid = c.sid := by
  fun_cases Client.afterReply c rpc ret
  all_goals rfl

omit [DecidableEq I] in
/-- The answer to a call; the last one before `start` returns sets up the stdin. -/
theorem System.Fed.reply {s : System I} {rpc : Rpc} {ret : Except Error Answer} (h : s.Fed)
    (hmain : s.client.main = .calling rpc k) :
    System.Fed { s with client := s.client.afterReply rpc ret } := by
  have hsid := sid_of_afterReply s.client rpc ret
  rcases stdin_afterReply s.client rpc ret with hstdin | ⟨hsetup, hfed⟩
  · refine h.client hsid hstdin fun hfed => ?_
    rw [hmain] at hfed
    exact (fed_afterReply hfed).2
  · refine ⟨h.owned, h.blank, fun hnone => ?_, fun d hd => ⟨?_, hfed⟩⟩
    · cases hsetup.symm.trans hnone
    · obtain rfl : Stdin.setup = d := Option.some.inj (hsetup.symm.trans hd)
      change Stdin.setup.Feeds s.server (s.client.afterReply rpc ret).sid
      rw [hsid]
      cases hold : s.client.stdin with
      | none => exact feeds_setup (h.before hold)
      | some d =>
        -- then the call is the last one of `wait`, which sets nothing up
        have hwait := (h.after d hold).2
        rw [hmain] at hwait
        have hsame : (s.client.afterReply _ ret).stdin = s.client.stdin := (fed_afterReply hwait).1
        rw [hold] at hsame
        obtain rfl : Stdin.setup = d := Option.some.inj (hsetup.symm.trans hsame)
        exact (h.after _ hold).1

theorem System.Fed.stepMain {s t : System I} {e : MainEvent} (h : s.Fed)
    (hstep : s.stepMain e = some t) : t.Fed := by
  revert hstep
  fun_cases System.stepMain s e
  all_goals intro hstep
  all_goals cases hstep
  case case1.refl rpc hready call =>
    have hserver : s.server.step (.call (s.client.request rpc)) =
        some { s.server with calls := s.server.calls ++ [call] } := rfl
    have hne : Label.call (s.client.request rpc) ≠ .call (.stdin s.client.sid) := by
      cases rpc <;> simp [Client.request]
    refine (h.server hserver hne fun d k front _ _ => ⟨rfl, by simp⟩).client rfl rfl fun hfed => ?_
    change s.client.main.fed = true at hfed
    rw [hready] at hfed
    cases rpc with
    | wait => rfl
    | _ => cases hfed
  case case3.refl rpc k hmain _ _ _ => exact h.reply hmain
  case case6.refl => exact h.client rfl rfl fun _ => rfl
  case case7.refl => exact h.client rfl rfl fun _ => rfl
  case case9.refl => exact h.client rfl rfl fun _ => rfl
  case case11.refl => exact h.client rfl rfl fun _ => rfl
  case case13.refl => exact h.client rfl rfl fun _ => rfl

omit [DecidableEq I] in
@[simp] theorem setStream_stdin (c : Client I) (out : Output) (cs : CopyStream) :
    (c.setStream out cs).stdin = c.stdin := by
  cases out <;> rfl

theorem System.Fed.stepDrain {s t : System I} {out : Output} {cs : CopyStream} {task : Copy}
    {e : DrainEvent} (h : s.Fed) (hstep : s.stepDrain out cs task e = some t) : t.Fed := by
  revert hstep
  fun_cases System.stepDrain s out cs task e
  case case1 =>
    intro hstep
    obtain ⟨server, hserver, rfl⟩ := Option.map_eq_some_iff.mp hstep
    have hnext := h.server hserver (by simp) fun d k front _ _ => ⟨rfl, by simp⟩
    exact hnext.client (by simp) (by simp) (by simp)
  all_goals intro hstep
  all_goals cases hstep
  all_goals exact h.client (by simp) (by simp) (by simp)

/-- The request stream does not break, and nobody else feeds the session. -/
def System.Clean (s : System I) (label : System.Label I) : Prop :=
  label ≠ .feed .broken ∧ label ≠ .server (.call (.stdin s.client.sid))

omit [DecidableEq I] in
/-- The items of the stream come from the client alone. -/
theorem gives_of_not_byClient {s : System I} {label : Cpu.Label I} {d : Stdin I}
    {front : Option (List UInt8)} (hstdin : s.client.stdin = some d)
    (hservice : d.service = some (k, front)) (hlabel : ¬ s.byClient label = true) :
    label.gives k = [] ∧ label ≠ .stdin k .endOfStream := by
  have hfed : ∀ e : StdinEvent, e.bytes ≠ [] ∨ e = .endOfStream → label ≠ .stdin k e := by
    rintro e he rfl
    apply hlabel
    cases e with
    | item bytes | endOfStream => simp [System.byClient, hstdin, hservice]
    | _ => simp [StdinEvent.bytes] at he
  refine ⟨?_, hfed .endOfStream (.inr rfl)⟩
  cases label with
  | stdin i e =>
    change (if i = k then e.bytes else []) = []
    split_ifs with hik
    · subst hik
      by_contra hne
      exact hfed e (.inl hne) rfl
    · rfl
  | _ => rfl

theorem fed_step (s : System I) (label : System.Label I) (t : System I) (h : s.Fed)
    (hclean : s.Clean label) (hstep : s.step label = some t) : t.Fed := by
  revert hstep
  fun_cases System.step s label
  all_goals intro hstep
  case case2 label hlabel =>
    obtain ⟨server, hserver, rfl⟩ := Option.map_eq_some_iff.mp hstep
    refine h.server hserver (fun heq => hclean.2 (congrArg _ heq)) fun d k front hd hservice => ?_
    exact gives_of_not_byClient hd hservice hlabel
  case case3 => exact h.stepMain hstep
  case case4 => exact h.stepDrain hstep
  case case7 e d hd =>
    obtain ⟨hfeeds, hfed⟩ := h.after d hd
    have he : e ≠ .broken := fun heq => hclean.1 (congrArg _ heq)
    obtain ⟨d', hd', hfeeds'⟩ := hfeeds.stepFeed h.owned h.blank he hstep
    obtain ⟨d'', server, rfl, hserver⟩ := System.stepFeed_eq hstep
    have hkeeps : Owned server ∧ server.Blank := by
      rcases hserver with rfl | ⟨l, hl, -⟩
      · exact ⟨h.owned, h.blank⟩
      · exact ⟨owned_step _ _ _ h.owned hl, blank_step h.owned h.blank hl⟩
    cases hd'
    refine ⟨hkeeps.1, hkeeps.2, fun hnone => ?_, fun d hd => ?_⟩
    · cases hnone
    · cases hd
      exact ⟨hfeeds', hfed⟩
  all_goals cases hstep

end

theorem fed_new (sid : I) (cmd : Cmd) : System.Fed (System.new sid cmd) where
  owned := owned_new
  blank c bytes hc := by
    obtain ⟨child, hchild, -⟩ := Server.stdinOf_eq_some.mp hc
    cases hchild
  before _ := by
    refine ⟨rfl, fun c bytes hc => ?_, fun i p hi => ?_⟩
    · obtain ⟨child, hchild, -⟩ := Server.stdinOf_eq_some.mp hc
      cases hchild
    · cases hi
  after d hd := by cases hd

end P9cpu.Cpu
