import Mathlib.Data.List.Induction
import P9cpu.Ninep.Frame

/-! How long a fid stays bound to its object. A request inserts its new fid into the table
without a look at what the table has for it. -/
namespace P9cpu.Ninep
open Core

section
variable {Op : Type} {Res : Op → Type} (fs : Filesystem Op Res) (b : Backend Op Res)

/-- One request after the other, whatever their answers are. -/
def serve (s : Server b.State) (msgs : List Msg) : Server b.State :=
  msgs.foldl (fun s msg => (dispatchOnce fs b msg s).2) s

/-- The request succeeds, and clunks the fid or walks from it onto itself. -/
def Releases (s : Server b.State) (msg : Msg) (f : UInt32) : Prop :=
  (∃ response, (dispatchOnce fs b msg s).1 = .ok response) ∧
    (msg.body = .tclunk f ∨ ∃ wnames, msg.body = .twalk f f wnames)

/-- In the run a fid that is bound keeps its object until it is released. -/
def KeepsBound (s : Server b.State) (msgs : List Msg) : Prop :=
  ∀ before during after, msgs = before ++ during ++ after → ∀ f bound,
    (serve fs b s before).fids.get f = some bound →
    (∀ done msg next, during = done ++ msg :: next →
      ¬ Releases fs b (serve fs b s (before ++ done)) msg f) →
    (serve fs b s (before ++ during)).fids.get f = some bound

def Handler.Fails {α : Type} (h : Handler Op Res α) (world : b.State) : Prop :=
  ∃ e, (h.run.run b.exec world).1 = .error e

/-- A request with a new fid gets nothing: the fid that it starts from is not bound, or the
handler of the file system fails. -/
def Declined (s : Server b.State) (msg : Msg) : Prop :=
  let new (f : UInt32) : Fid := ⟨f, s.nextAux⟩
  let world := b.create s.nextAux s.world
  match msg.body with
  | .txattrwalk fid newfid name => ∀ start, s.fids.get fid = some start →
      (fs.rxattrwalk start (new newfid) name).Fails b world
  | .tauth afid uname aname nUname => (fs.rauth (new afid) uname aname nUname).Fails b world
  | .tattach fid _ uname aname nUname =>
      (fs.rattach (new fid) none uname aname nUname).Fails b world
  | .twalk fid newfid wnames => ∀ start, s.fids.get fid = some start →
      (fs.rwalk start (new newfid) wnames).Fails b world
  | _ => True

/-- The new fid of the request, if it is bound, is walked onto itself or stays as it is. -/
def Spares (s : Server b.State) (msg : Msg) : Prop :=
  ∀ f bound, msg.body.newfid = some f → s.fids.get f = some bound →
    (∃ wnames, msg.body = .twalk f f wnames) ∨ Declined fs b s msg

variable {fs b} {s : Server b.State} {msg : Msg} {f : UInt32} {bound : Fid}

@[simp] theorem serve_nil : serve fs b s [] = s := rfl

@[simp] theorem serve_snoc (msgs : List Msg) :
    serve fs b s (msgs ++ [msg]) = (dispatchOnce fs b msg (serve fs b s msgs)).2 := by
  unfold serve
  rw [List.foldl_append]
  rfl

theorem fails_iff (handler : Handler Op Res Fcall)
    (hroute : route fs s.fids (newFid msg.body s.nextAux) msg.body = .ok handler) :
    handler.Fails b (s.created b msg.body) ↔
      ∀ response, (dispatchOnce fs b msg s).1 ≠ .ok response := by
  unfold Handler.Fails
  cases hrun : handler.run.run b.exec (s.created b msg.body) with
  | mk r world =>
    cases r with
    | error e =>
      have herror := (dispatchOnce_error hroute hrun).1
      simp [herror]
    | ok response =>
      have hok := (dispatchOnce_ok hroute hrun).1
      simp [hok]

/-- A request from a fid that is bound goes to the handler that is given that fid. -/
theorem declined_from {fid newfid : UInt32} (handler : Fid → Handler Op Res Fcall)
    (hnew : msg.body.newfid = some newfid)
    (hroute : route fs s.fids (some ⟨newfid, s.nextAux⟩) msg.body =
      (getFid s.fids fid).map handler) :
    (∀ start, s.fids.get fid = some start →
        (handler start).Fails b (b.create s.nextAux s.world)) ↔
      ∀ response, (dispatchOnce fs b msg s).1 ≠ .ok response := by
  have hnewFid : newFid msg.body s.nextAux = some ⟨newfid, s.nextAux⟩ := by
    rw [newFid, hnew]
    rfl
  have hcreated : s.created b msg.body = b.create s.nextAux s.world := by
    rw [Server.created, hnewFid]
    rfl
  rw [← hnewFid] at hroute
  cases hget : s.fids.get fid with
  | none =>
    rw [getFid, hget] at hroute
    have herror := (dispatchOnce_refused (b := b) hroute).1
    simp [herror]
  | some start =>
    rw [getFid, hget] at hroute
    rw [← fails_iff (handler start) hroute, hcreated]
    simp

/-- A request with a new fid is declined exactly when it is not answered with success. -/
theorem declined_iff (hnew : msg.body.newfid = some f) :
    Declined fs b s msg ↔ ∀ response, (dispatchOnce fs b msg s).1 ≠ .ok response := by
  have hcreated (hsome : (newFid msg.body s.nextAux).isSome = true) :
      s.created b msg.body = b.create s.nextAux s.world := if_pos hsome
  unfold Declined
  obtain ⟨tag, body⟩ := msg
  cases body with
  | twalk fid newfid wnames =>
    exact declined_from (fun start => fs.rwalk start ⟨newfid, s.nextAux⟩ wnames) rfl
      (by cases h : getFid s.fids fid <;> simp [route, h, unwrap] <;> rfl)
  | txattrwalk fid newfid name =>
    exact declined_from (fun start => fs.rxattrwalk start ⟨newfid, s.nextAux⟩ name) rfl
      (by cases h : getFid s.fids fid <;> simp [route, h, unwrap] <;> rfl)
  | tauth afid uname aname nUname =>
    rw [← fails_iff (fs.rauth ⟨afid, s.nextAux⟩ uname aname nUname) rfl, hcreated rfl]
  | tattach fid afid uname aname nUname =>
    rw [← fails_iff (fs.rattach ⟨fid, s.nextAux⟩ none uname aname nUname) rfl,
      hcreated rfl]
  | _ => cases hnew

/-- A bound fid loses its object in a request that releases it, or that takes it for its new
fid and succeeds. -/
theorem bound_of_dispatchOnce (hbound : s.fids.get f = some bound)
    (hkept : ¬ Releases fs b s msg f) (hspares : Spares fs b s msg) :
    (dispatchOnce fs b msg s).2.fids.get f = some bound := by
  cases hroute : route fs s.fids (newFid msg.body s.nextAux) msg.body with
  | error a =>
    rw [(dispatchOnce_refused (b := b) hroute).2.1]
    exact hbound
  | ok handler =>
    cases hrun : handler.run.run b.exec (s.created b msg.body) with
    | mk r world =>
      cases r with
      | error e =>
        rw [(dispatchOnce_error hroute hrun).2.1]
        exact hbound
      | ok response =>
        obtain ⟨hok, hfids, -⟩ := dispatchOnce_ok hroute hrun
        have hclunk : msg.body ≠ .tclunk f := fun h => hkept ⟨⟨response, hok⟩, .inl h⟩
        have hnew : msg.body.newfid ≠ some f := by
          intro hnew
          cases hspares f bound hnew hbound with
          | inl hself => exact hkept ⟨⟨response, hok⟩, .inr hself⟩
          | inr hdeclined => exact (declined_iff hnew).mp hdeclined response hok
        rw [hfids, get_updateFids, if_neg hnew, if_neg hclunk]
        exact hbound

/-- A request that succeeds gives its new fid an object that no fid had. -/
theorem rebound_of_dispatchOnce (hnew : msg.body.newfid = some f) {response : Fcall}
    (hok : (dispatchOnce fs b msg s).1 = .ok response) :
    (dispatchOnce fs b msg s).2.fids.get f = some ⟨f, s.nextAux⟩ := by
  cases hroute : route fs s.fids (newFid msg.body s.nextAux) msg.body with
  | error a => exact absurd ((dispatchOnce_refused (b := b) hroute).1.symm.trans hok) (by simp)
  | ok handler =>
    cases hrun : handler.run.run b.exec (s.created b msg.body) with
    | mk r world =>
      cases r with
      | error e => exact absurd ((dispatchOnce_error hroute hrun).1.symm.trans hok) (by simp)
      | ok answer => rw [(dispatchOnce_ok hroute hrun).2.1, get_updateFids, if_pos hnew]

theorem bound_of_serve {msgs : List Msg} (hbound : s.fids.get f = some bound)
    (hkept : ∀ done msg next, msgs = done ++ msg :: next →
      ¬ Releases fs b (serve fs b s done) msg f)
    (hspares : ∀ done msg next, msgs = done ++ msg :: next →
      Spares fs b (serve fs b s done) msg) :
    (serve fs b s msgs).fids.get f = some bound := by
  induction msgs using List.reverseRecOn with
  | nil => exact hbound
  | append_singleton msgs msg ih =>
    rw [serve_snoc]
    apply bound_of_dispatchOnce
    · apply ih
      · intro done m next h
        exact hkept done m (next ++ [msg]) (by simp [h])
      · intro done m next h
        exact hspares done m (next ++ [msg]) (by simp [h])
    · exact hkept msgs msg [] rfl
    · exact hspares msgs msg [] rfl

end

theorem serve_append {Op : Type} {Res : Op → Type} {fs : Filesystem Op Res} {b : Backend Op Res}
    (s : Server b.State) (before during : List Msg) :
    serve fs b s (before ++ during) = serve fs b (serve fs b s before) during :=
  List.foldl_append

/-- Bound fids keep their objects exactly in the runs whose requests spare them: a request for a
new fid that is bound walks it onto itself or is declined. -/
theorem keepsBound_iff {Op : Type} {Res : Op → Type} (fs : Filesystem Op Res)
    (b : Backend Op Res) (s : Server b.State) (msgs : List Msg) :
    KeepsBound fs b s msgs ↔ ∀ before msg after, msgs = before ++ msg :: after →
      Spares fs b (serve fs b s before) msg := by
  constructor
  · intro hkeeps before msg after hmsgs f bound hnew hbound
    by_contra hnot
    obtain ⟨hself, hdeclined⟩ := not_or.mp hnot
    rw [declined_iff hnew] at hdeclined
    obtain ⟨response, hresponse⟩ := not_forall.mp hdeclined
    have hok := not_not.mp hresponse
    have hkept := hkeeps before [msg] after (by simp [hmsgs]) f bound hbound (by
      intro done m next h
      obtain ⟨rfl, hm⟩ : done = [] ∧ msg = m := by
        cases done with
        | nil => simp_all
        | cons x xs => simp at h
      subst hm
      rw [List.append_nil]
      intro hreleases
      cases hreleases.2 with
      | inl hclunk =>
        rw [hclunk] at hnew
        cases hnew
      | inr hwalk => exact hself hwalk)
    rw [serve_snoc, rebound_of_dispatchOnce hnew hok] at hkept
    have hlt := (serve fs b s before).fresh f bound hbound
    rw [← Option.some.inj hkept] at hlt
    exact Nat.lt_irrefl _ hlt
  · intro hspares before during after hmsgs f bound hbound hkept
    rw [serve_append]
    apply bound_of_serve hbound
    · intro done msg next h
      rw [← serve_append]
      exact hkept done msg next h
    · intro done msg next h
      rw [← serve_append]
      exact hspares (before ++ done) msg (next ++ after) (by simp [hmsgs, h])

/-- Two walks to the fid 2, of which the second one takes it away from `/a`. -/
def walkTwice : List Msg := [⟨7, .twalk 1 2 ["a"]⟩, ⟨8, .twalk 1 2 []⟩]

theorem not_keepsBound :
    ¬ KeepsBound (Unpfs (.ofString "/")) (dirHost oneDir).backend (rootServer oneDir)
      walkTwice := by
  intro h
  have hkept := h [⟨7, .twalk 1 2 ["a"]⟩] [⟨8, .twalk 1 2 []⟩] [] rfl 2 ⟨2, 1⟩ rfl (by
    rintro (_ | ⟨m, done⟩) msg next hdone
    · cases hdone
      rintro ⟨-, hclunk | ⟨wnames, hwalk⟩⟩
      · cases hclunk
      · cases hwalk
    · simp at hdone)
  exact absurd hkept (by decide)

end P9cpu.Ninep
