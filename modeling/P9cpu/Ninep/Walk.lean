import P9cpu.Ninep.Host
import Mathlib.Order.Bounds.Basic

/-! `Twalk`: which names exist, what is replied and what the new fid is bound to. -/
namespace P9cpu.Ninep
open Core

/-- The path after the first `i` names. -/
def pathAt (path : PathBuf) (wnames : List String) (i : ℕ) : PathBuf :=
  (wnames.take i).foldl PathBuf.push path

@[simp] theorem pathAt_zero (path : PathBuf) (wnames : List String) :
    pathAt path wnames 0 = path := rfl

@[simp] theorem pathAt_cons_succ (path : PathBuf) (name : String) (wnames : List String) (i : ℕ) :
    pathAt path (name :: wnames) (i + 1) = pathAt (path.push name) wnames i := rfl

/-- The qids of the names that exist, up to the first one that does not. -/
def reached (lstat : PathBuf → Except IoError Metadata) (path : PathBuf) :
    List String → List Qid
  | [] => []
  | name :: wnames =>
    match lstat (path.push name) with
    | .ok attr => qidFromAttr attr :: reached lstat (path.push name) wnames
    | .error _ => []

section
variable {lstat : PathBuf → Except IoError Metadata}

theorem reached_length_le (path : PathBuf) (wnames : List String) :
    (reached lstat path wnames).length ≤ wnames.length := by
  induction wnames generalizing path with
  | nil => simp [reached]
  | cons name wnames ih =>
    unfold reached
    cases lstat (path.push name) with
    | ok attr => simpa using ih (path.push name)
    | error e => simp

theorem reached_getElem (path : PathBuf) (wnames : List String) (i : ℕ)
    (hi : i < (reached lstat path wnames).length) :
    ∃ attr, lstat (pathAt path wnames (i + 1)) = .ok attr ∧
      (reached lstat path wnames)[i]? = some (qidFromAttr attr) := by
  induction wnames generalizing path i with
  | nil => simp [reached] at hi
  | cons name wnames ih =>
    unfold reached at hi ⊢
    cases hname : lstat (path.push name) with
    | error e => simp [hname] at hi
    | ok attr =>
      cases i with
      | zero => exact ⟨attr, by simpa using hname, rfl⟩
      | succ i =>
        have hi' : i < (reached lstat (path.push name) wnames).length := by
          simpa [hname] using hi
        simpa using ih (path.push name) i hi'

theorem reached_stops (path : PathBuf) (wnames : List String)
    (h : (reached lstat path wnames).length < wnames.length) :
    ∃ e, lstat (pathAt path wnames ((reached lstat path wnames).length + 1)) = .error e := by
  induction wnames generalizing path with
  | nil => simp at h
  | cons name wnames ih =>
    unfold reached at h ⊢
    cases hname : lstat (path.push name) with
    | error e => exact ⟨e, by simpa using hname⟩
    | ok attr =>
      have h' : (reached lstat (path.push name) wnames).length < wnames.length := by
        simpa [hname] using h
      simpa using ih (path.push name) h'

/-- The number of names that were reached is the largest `k` such that the first `k` exist. -/
theorem isGreatest_reached (path : PathBuf) (wnames : List String) :
    IsGreatest { k | k ≤ wnames.length ∧
        ∀ i, 1 ≤ i → i ≤ k → ∃ attr, lstat (pathAt path wnames i) = .ok attr }
      (reached lstat path wnames).length := by
  constructor
  · refine ⟨reached_length_le path wnames, fun i h1 hi => ?_⟩
    obtain ⟨j, rfl⟩ : ∃ j, i = j + 1 := ⟨i - 1, by omega⟩
    have hj : j < (reached lstat path wnames).length := by omega
    obtain ⟨attr, hattr, -⟩ := reached_getElem path wnames j hj
    exact ⟨attr, hattr⟩
  · rintro k ⟨hk, hexists⟩
    by_contra hlt
    have hshort : (reached lstat path wnames).length < wnames.length := by omega
    obtain ⟨e, he⟩ := reached_stops path wnames hshort
    obtain ⟨attr, hattr⟩ := hexists ((reached lstat path wnames).length + 1) (by omega) (by omega)
    rw [he] at hattr
    cases hattr

theorem reached_length_eq_iff (path : PathBuf) (wnames : List String) :
    (reached lstat path wnames).length = wnames.length ↔
      ∀ i, 1 ≤ i → i ≤ wnames.length → ∃ attr, lstat (pathAt path wnames i) = .ok attr := by
  have hreached : IsGreatest _ (reached lstat path wnames).length := isGreatest_reached path wnames
  obtain ⟨⟨hle, hexists⟩, hgreatest⟩ := hreached
  constructor
  · intro hall
    rwa [hall] at hexists
  · exact fun hall => le_antisymm hle (hgreatest ⟨le_rfl, hall⟩)

theorem pathAt_append (path : PathBuf) (u v : List String) :
    pathAt path (u ++ v) (u ++ v).length = pathAt (pathAt path u u.length) v v.length := by
  simp only [pathAt, List.take_length, List.foldl_append]

/-- What is reached by a list of names is reached by its front, and from there by its rest. -/
theorem reached_append (path : PathBuf) (u v : List String)
    (hall : (reached lstat path (u ++ v)).length = (u ++ v).length) :
    (reached lstat path u).length = u.length ∧
      reached lstat path (u ++ v) =
        reached lstat path u ++ reached lstat (pathAt path u u.length) v := by
  induction u generalizing path with
  | nil => exact ⟨rfl, rfl⟩
  | cons name u ih =>
    rw [List.cons_append, reached] at hall
    rw [List.cons_append, reached, reached, List.length_cons, pathAt_cons_succ]
    cases hname : lstat (path.push name) with
    | error e => simp [hname] at hall
    | ok attr =>
      obtain ⟨hlen, happend⟩ := ih (path.push name) (by simpa [hname] using hall)
      exact ⟨congrArg Nat.succ hlen, congrArg (qidFromAttr attr :: ·) happend⟩

end

/-- The loop looks names up until one does not exist. That name stays in the path. -/
theorem runs_walkLoop (h : Host) (wnames : List String) (i : ℕ) (path : PathBuf)
    (wqids : List Qid) (s : Host.Objs h.State) :
    h.runs (Unpfs.walkLoop wnames i path wqids) s =
      (let qids := reached (h.lstat s.host) path wnames
       if qids.length = wnames.length then .ok (pathAt path wnames wnames.length, wqids ++ qids)
       else if i = 0 ∧ qids = [] then
        match h.lstat s.host (pathAt path wnames 1) with
        | .ok _ => .ok (path, wqids)
        | .error e => .error (.io e)
       else .ok (pathAt path wnames (qids.length + 1), wqids ++ qids), s) := by
  induction wnames generalizing i path wqids with
  | nil => simp [Unpfs.walkLoop, reached, pathAt]
  | cons name wnames ih =>
    rw [Unpfs.walkLoop, Host.runs_bind, Host.runs_attempt, Host.runs_getQid]
    unfold reached
    cases hname : h.lstat s.host (path.push name) with
    | ok attr =>
      have hnext := ih (i + 1) (path.push name) (wqids ++ [qidFromAttr attr])
      simp only [Except.map, Except.mapError]
      rw [hnext]
      simp
    | error e =>
      have hone : h.lstat s.host (pathAt path (name :: wnames) 1) = .error e := by
        simpa using hname
      simp only [Except.map, Except.mapError]
      by_cases h0 : i = 0
      · simp [h0, hname]
      · simp [h0, pathAt]

/-- What `Twalk` is asked for: the qids of the names that exist, an error if not even the
first one does, and the new fid at the end of a complete walk. A walk that is not complete
leaves the table and the fids in it alone. `k` names exist. -/
structure WalkResult (lstat : PathBuf → Except IoError Metadata) (path : PathBuf)
    (wnames : List String) (newfid : UInt32) (k : ℕ) {σ : Type} (s : Server (Host.Objs σ))
    (r : Except Abort Fcall × Server (Host.Objs σ)) : Prop where
  error_iff : (∃ e, r.1 = .error e) ↔ 0 < wnames.length ∧ k = 0
  qids : ∀ response, r.1 = .ok response → ∃ wqids, response = .rwalk wqids ∧
    wqids.length = k ∧ ∀ i < k, ∃ attr, lstat (pathAt path wnames (i + 1)) = .ok attr ∧
      wqids[i]? = some (qidFromAttr attr)
  bound : k = wnames.length → ∃ b, r.2.fids.get newfid = some b ∧
    (r.2.world.objs b.aux).realpath = pathAt path wnames wnames.length
  unchanged : k < wnames.length → r.2.fids = s.fids ∧
    ∀ f b, s.fids.get f = some b → r.2.world.objs b.aux = s.world.objs b.aux

section
variable (h : Host) (realroot : PathBuf)

theorem runs_rwalk (fid newfid : Fid) (wnames : List String) (s : Host.Objs h.State) :
    h.runs (Unpfs.rwalk fid newfid wnames) s =
      match h.runs (Unpfs.walkLoop wnames 0 (s.objs fid.aux).realpath []) s with
      | (.ok x, s) => (.ok (.rwalk x.2), s.setRealpath newfid.aux x.1)
      | (.error e, s) => (.error e, s) := by
  rw [Unpfs.rwalk, Host.runs_bind, Host.runs_realpath]
  dsimp only
  rw [Host.runs_bind]
  cases h.runs (Unpfs.walkLoop wnames 0 (s.objs fid.aux).realpath []) s with
  | mk r s =>
    cases r with
    | ok x => rfl
    | error e => rfl

variable (tag : UInt16) {fid : UInt32} (newfid : UInt32) {wnames : List String} {b : Fid}
  {s : Server (Host.Objs h.State)}

/-- Making the new object does not touch the objects of the table. -/
theorem create_objs (hb : s.fids.get fid = some b) :
    (s.world.create s.nextAux).objs b.aux = s.world.objs b.aux := by
  have hne : b.aux ≠ s.nextAux := Nat.ne_of_lt (s.fresh fid b hb)
  exact Host.Objs.create_of_ne s.world hne

theorem route_twalk (hb : s.fids.get fid = some b) :
    route (Unpfs realroot) s.fids (newFid (.twalk fid newfid wnames) s.nextAux)
      (.twalk fid newfid wnames) = .ok (Unpfs.rwalk b ⟨newfid, s.nextAux⟩ wnames) := by
  simp [route, getFid, hb, newFid, Fcall.newfid, unwrap, bind, Except.bind, pure, Except.pure,
    Unpfs]

/-- A loop that returns a path binds the new fid to it. -/
theorem dispatchOnce_twalk_ok (hb : s.fids.get fid = some b) {path : PathBuf} {wqids : List Qid}
    (hloop : h.runs (Unpfs.walkLoop wnames 0 (s.world.objs b.aux).realpath [])
      (s.world.create s.nextAux) = (.ok (path, wqids), s.world.create s.nextAux)) :
    let r := dispatchOnce (Unpfs realroot) h.backend ⟨tag, .twalk fid newfid wnames⟩ s
    r.1 = .ok (.rwalk wqids) ∧ r.2.fids = s.fids.insert ⟨newfid, s.nextAux⟩ ∧
      r.2.world = (s.world.create s.nextAux).setRealpath s.nextAux path := by
  have hruns : h.runs (Unpfs.rwalk b ⟨newfid, s.nextAux⟩ wnames) (s.world.create s.nextAux) =
      (.ok (.rwalk wqids), (s.world.create s.nextAux).setRealpath s.nextAux path) := by
    rw [runs_rwalk, create_objs h hb, hloop]
  exact dispatchOnce_ok (route_twalk h realroot newfid hb) hruns

theorem dispatchOnce_twalk_error (hb : s.fids.get fid = some b) {e : Error}
    (hloop : h.runs (Unpfs.walkLoop wnames 0 (s.world.objs b.aux).realpath [])
      (s.world.create s.nextAux) = (.error e, s.world.create s.nextAux)) :
    let r := dispatchOnce (Unpfs realroot) h.backend ⟨tag, .twalk fid newfid wnames⟩ s
    r.1 = .error (.error e) ∧ r.2.fids = s.fids ∧ r.2.world = s.world.create s.nextAux := by
  have hruns : h.runs (Unpfs.rwalk b ⟨newfid, s.nextAux⟩ wnames) (s.world.create s.nextAux) =
      (.error e, s.world.create s.nextAux) := by
    rw [runs_rwalk, create_objs h hb, hloop]
  exact dispatchOnce_error (route_twalk h realroot newfid hb) hruns

theorem dispatchOnce_twalk_all (hb : s.fids.get fid = some b)
    (hall : (reached (h.lstat s.world.host) (s.world.objs b.aux).realpath wnames).length =
      wnames.length) :
    let r := dispatchOnce (Unpfs realroot) h.backend ⟨tag, .twalk fid newfid wnames⟩ s
    r.1 = .ok (.rwalk (reached (h.lstat s.world.host) (s.world.objs b.aux).realpath wnames)) ∧
      r.2.fids = s.fids.insert ⟨newfid, s.nextAux⟩ ∧
      r.2.world = (s.world.create s.nextAux).setRealpath s.nextAux
        (pathAt (s.world.objs b.aux).realpath wnames wnames.length) := by
  have hloop := runs_walkLoop h wnames 0 (s.world.objs b.aux).realpath [] (s.world.create s.nextAux)
  simp only [Host.Objs.create_host, hall, if_true, List.nil_append] at hloop
  exact dispatchOnce_twalk_ok h realroot tag newfid hb hloop

/-- All names exist: the new fid is bound to the end of the walk. -/
theorem walkResult_all (hb : s.fids.get fid = some b)
    (hall : (reached (h.lstat s.world.host) (s.world.objs b.aux).realpath wnames).length =
      wnames.length) :
    WalkResult (h.lstat s.world.host) (s.world.objs b.aux).realpath wnames newfid wnames.length s
      (dispatchOnce (Unpfs realroot) h.backend ⟨tag, .twalk fid newfid wnames⟩ s) := by
  obtain ⟨hr, hfids, hworld⟩ := dispatchOnce_twalk_all h realroot tag newfid hb hall
  refine ⟨?_, ?_, ?_, ?_⟩
  · rw [hr]
    constructor
    · rintro ⟨e, he⟩
      cases he
    · rintro ⟨hpos, hzero⟩
      omega
  · intro response hresponse
    obtain rfl := Except.ok.inj (hr.symm.trans hresponse)
    refine ⟨_, rfl, hall, fun i hi => ?_⟩
    exact reached_getElem _ wnames i (by omega)
  · intro _
    rw [hfids, hworld]
    exact ⟨⟨newfid, s.nextAux⟩, by simp, by simp⟩
  · intro hlt
    exact absurd hlt (lt_irrefl _)

/-- Not even the first name exists: an error, and everything as before. -/
theorem walkResult_none (hb : s.fids.get fid = some b) (hn : 0 < wnames.length)
    (hnone : reached (h.lstat s.world.host) (s.world.objs b.aux).realpath wnames = []) :
    WalkResult (h.lstat s.world.host) (s.world.objs b.aux).realpath wnames newfid 0 s
      (dispatchOnce (Unpfs realroot) h.backend ⟨tag, .twalk fid newfid wnames⟩ s) := by
  obtain ⟨e, he⟩ := reached_stops (s.world.objs b.aux).realpath wnames
    (by rw [hnone]; exact hn)
  rw [hnone] at he
  have hloop := runs_walkLoop h wnames 0 (s.world.objs b.aux).realpath [] (s.world.create s.nextAux)
  have hne : ¬ 0 = wnames.length := by omega
  simp only [Host.Objs.create_host, hnone, List.length_nil, hne, if_false, and_self, if_true] at hloop
  simp only [List.length_nil, Nat.zero_add] at he
  rw [he] at hloop
  obtain ⟨hr, hfids, hworld⟩ := dispatchOnce_twalk_error h realroot tag newfid hb hloop
  refine ⟨?_, ?_, ?_, ?_⟩
  · rw [hr]
    simpa using hn
  · intro response hresponse
    exact absurd (hr.symm.trans hresponse) (by simp)
  · intro hzero
    omega
  · intro _
    refine ⟨hfids, fun f c hc => ?_⟩
    rw [hworld]
    exact create_objs h hc

/-- Some names exist and some do not: the table has changed all the same. -/
theorem not_walkResult_partial (hb : s.fids.get fid = some b)
    (hlt : (reached (h.lstat s.world.host) (s.world.objs b.aux).realpath wnames).length <
      wnames.length)
    (hsome : reached (h.lstat s.world.host) (s.world.objs b.aux).realpath wnames ≠ []) :
    ¬ WalkResult (h.lstat s.world.host) (s.world.objs b.aux).realpath wnames newfid
      (reached (h.lstat s.world.host) (s.world.objs b.aux).realpath wnames).length s
      (dispatchOnce (Unpfs realroot) h.backend ⟨tag, .twalk fid newfid wnames⟩ s) := by
  have hloop := runs_walkLoop h wnames 0 (s.world.objs b.aux).realpath [] (s.world.create s.nextAux)
  simp only [Host.Objs.create_host, Nat.ne_of_lt hlt, hsome, if_false, and_false] at hloop
  obtain ⟨-, hfids, -⟩ := dispatchOnce_twalk_ok h realroot tag newfid hb hloop
  intro hwalk
  have hsame : s.fids.get newfid = some ⟨newfid, s.nextAux⟩ := by
    rw [← (hwalk.unchanged hlt).1, hfids]
    simp
  exact absurd (s.fresh newfid _ hsame) (lt_irrefl _)

/-- `Twalk` is all or nothing exactly when no name exists or all names do. Otherwise the new
fid is bound to the first name that does not exist. -/
theorem walkResult_iff (hb : s.fids.get fid = some b) {k : ℕ}
    (hk : IsGreatest { k | k ≤ wnames.length ∧ ∀ i, 1 ≤ i → i ≤ k →
      ∃ attr, h.lstat s.world.host (pathAt (s.world.objs b.aux).realpath wnames i) = .ok attr } k) :
    WalkResult (h.lstat s.world.host) (s.world.objs b.aux).realpath wnames newfid k s
        (dispatchOnce (Unpfs realroot) h.backend ⟨tag, .twalk fid newfid wnames⟩ s) ↔
      k = 0 ∨ k = wnames.length := by
  obtain rfl := hk.unique (isGreatest_reached (s.world.objs b.aux).realpath wnames)
  have hle := hk.1.1
  constructor
  · intro hwalk
    by_contra hpartial
    simp only [not_or] at hpartial
    refine not_walkResult_partial h realroot tag newfid hb (by omega) ?_ hwalk
    exact List.ne_nil_of_length_pos (by omega)
  · intro hk'
    by_cases hall : (reached (h.lstat s.world.host) (s.world.objs b.aux).realpath wnames).length =
        wnames.length
    · rw [hall]
      exact walkResult_all h realroot tag newfid hb hall
    · have hzero := hk'.resolve_right hall
      rw [hzero]
      exact walkResult_none h realroot tag newfid hb (by omega) (List.eq_nil_of_length_eq_zero hzero)

end
/-- A host on which the directories `dirs` exist and every other call is refused. -/
def dirHost (dirs : List PathBuf) : Host where
  State := Unit
  exec
    | .symlinkMetadata path, s =>
      (if path ∈ dirs then .ok ⟨1, dirs.length.toUInt64, .dir, 0o755, 0, 0, 1, 0, 0, 4096, 0, 0, 0,
        0, 0, 0, 0⟩ else .error (.os 2), s)
    | .metadata _, s | .entryMetadata _, s | .readDir _, s | .readLink _, s | .openWrite _, s
    | .seek .., s | .read .., s | .write .., s | .setPermissions .., s | .setLen .., s
    | .setFileTimes .., s | .syncAll _, s | .createDir _, s | .rename .., s | .removeDir _, s
    | .removeFile _, s => (.error (.os 1), s)
    | .chown .., s | .statvfs _, s | .open .., s => (.error Errno.EPERM, s)
  lstat_state _ _ := rfl

/-- The fid 1 at `/`, and nothing else. -/
def rootServer (dirs : List PathBuf) : Server (Host.Objs (dirHost dirs).State) where
  fids := FidTable.new.insert ⟨1, 0⟩
  nextAux := 1
  world := ⟨fun _ => ⟨.ofString "/", none⟩, ()⟩
  fresh f b hb := by
    simp only [FidTable.get_insert, FidTable.get_new] at hb
    split_ifs at hb
    cases hb
    exact Nat.one_pos

def oneDir : List PathBuf := [.ofString "/", .ofString "/a"]

theorem walkResult_iff_oneName :
    WalkResult ((dirHost oneDir).lstat (rootServer oneDir).world.host)
        ((rootServer oneDir).world.objs 0).realpath ["a"] 2 1 (rootServer oneDir)
        (dispatchOnce (Unpfs (.ofString "/")) (dirHost oneDir).backend
          ⟨7, .twalk 1 2 ["a"]⟩ (rootServer oneDir)) ↔
      1 = 0 ∨ 1 = ["a"].length :=
  walkResult_iff (b := ⟨1, 0⟩) (s := rootServer oneDir) (dirHost oneDir) (.ofString "/") 7 2 rfl
    (isGreatest_reached (.ofString "/") ["a"])

/-- `/a` exists and `/a/b` does not. The walk returns the qid of `/a` and binds the new fid to
`/a/b`. -/
theorem not_walkResult : ¬ ∀ (h : Host) (realroot : PathBuf) (tag : UInt16) (fid newfid : UInt32)
    (wnames : List String) (b : Fid) (s : Server (Host.Objs h.State)) (k : ℕ),
    s.fids.get fid = some b →
    IsGreatest { k | k ≤ wnames.length ∧ ∀ i, 1 ≤ i → i ≤ k → ∃ attr,
      h.lstat s.world.host (pathAt (s.world.objs b.aux).realpath wnames i) = .ok attr } k →
    WalkResult (h.lstat s.world.host) (s.world.objs b.aux).realpath wnames newfid k s
      (dispatchOnce (Unpfs realroot) h.backend ⟨tag, .twalk fid newfid wnames⟩ s) := by
  intro hclaim
  have hwalk := hclaim (dirHost oneDir) (.ofString "/") 7 1 2 ["a", "b"] ⟨1, 0⟩
    (rootServer oneDir) 1 rfl (isGreatest_reached (.ofString "/") ["a", "b"])
  exact not_walkResult_partial (dirHost oneDir) (.ofString "/") 7 2 (b := ⟨1, 0⟩)
    (s := rootServer oneDir) rfl (by decide) (by decide) hwalk

/-! Walks in two steps. -/

/-- A walk may be taken in two, over any fid between them. -/
theorem walk_append (h : Host) (realroot : PathBuf) (tag tag₁ tag₂ : UInt16) {fid : UInt32}
    (mid newfid : UInt32) (u v : List String) {b : Fid} {s : Server (Host.Objs h.State)}
    (hb : s.fids.get fid = some b)
    (hall : ∀ i, 1 ≤ i → i ≤ (u ++ v).length → ∃ attr,
      h.lstat s.world.host (pathAt (s.world.objs b.aux).realpath (u ++ v) i) = .ok attr) :
    let once := dispatchOnce (Unpfs realroot) h.backend ⟨tag, .twalk fid newfid (u ++ v)⟩ s
    let front := dispatchOnce (Unpfs realroot) h.backend ⟨tag₁, .twalk fid mid u⟩ s
    let rest := dispatchOnce (Unpfs realroot) h.backend ⟨tag₂, .twalk mid newfid v⟩ front.2
    (∃ wqids₁ wqids₂, front.1 = .ok (.rwalk wqids₁) ∧ rest.1 = .ok (.rwalk wqids₂) ∧
      once.1 = .ok (.rwalk (wqids₁ ++ wqids₂))) ∧
    ∃ b₁ b₂, once.2.fids.get newfid = some b₁ ∧ rest.2.fids.get newfid = some b₂ ∧
      (once.2.world.objs b₁.aux).realpath = (rest.2.world.objs b₂.aux).realpath := by
  intro once front rest
  have hreached := (reached_length_eq_iff _ _).mpr hall
  obtain ⟨hfront, happend⟩ := reached_append _ u v hreached
  have hlen := hreached
  rw [happend, List.length_append, List.length_append, hfront] at hlen
  obtain ⟨hr, hfids, hworld⟩ := dispatchOnce_twalk_all h realroot tag newfid hb hreached
  obtain ⟨hr₁, hfids₁, hworld₁⟩ := dispatchOnce_twalk_all h realroot tag₁ mid hb hfront
  have hmid : front.2.fids.get mid = some ⟨mid, s.nextAux⟩ := by
    rw [hfids₁]
    simp
  have hpath : (front.2.world.objs s.nextAux).realpath =
      pathAt (s.world.objs b.aux).realpath u u.length := by
    rw [hworld₁]
    simp
  have hhost : front.2.world.host = s.world.host := by
    rw [hworld₁]
    simp
  have hrest : (reached (h.lstat front.2.world.host) (front.2.world.objs s.nextAux).realpath
      v).length = v.length := by
    rw [hpath, hhost]
    omega
  obtain ⟨hr₂, hfids₂, hworld₂⟩ := dispatchOnce_twalk_all h realroot tag₂ newfid hmid hrest
  rw [hpath, hhost] at hr₂
  rw [hpath] at hworld₂
  refine ⟨⟨_, _, hr₁, hr₂, hr.trans ?_⟩, ⟨newfid, s.nextAux⟩, ⟨newfid, front.2.nextAux⟩, ?_, ?_, ?_⟩
  · rw [happend]
  · rw [hfids]
    simp
  · rw [hfids₂]
    simp
  · rw [hworld, hworld₂, pathAt_append]
    simp

def twoDirs : List PathBuf := [.ofString "/", .ofString "/a", .ofString "/a/b"]

def twoDirsWalk (msg : Msg) (s : Server (Host.Objs (dirHost twoDirs).State)) :
    Except Abort Fcall × Server (Host.Objs (dirHost twoDirs).State) :=
  dispatchOnce (Unpfs (.ofString "/")) (dirHost twoDirs).backend msg s

/-- The fid between the two walks is the one that they start from. -/
theorem walk_append_twoNames :
    let front := twoDirsWalk ⟨7, .twalk 1 1 ["a"]⟩ (rootServer twoDirs)
    ∃ wqids₁ wqids₂, front.1 = .ok (.rwalk wqids₁) ∧
      (twoDirsWalk ⟨7, .twalk 1 2 ["b"]⟩ front.2).1 = .ok (.rwalk wqids₂) ∧
      (twoDirsWalk ⟨7, .twalk 1 2 ["a", "b"]⟩ (rootServer twoDirs)).1 =
        .ok (.rwalk (wqids₁ ++ wqids₂)) :=
  (walk_append (dirHost twoDirs) (.ofString "/") 7 7 7 1 2 ["a"] ["b"] (b := ⟨1, 0⟩)
    (s := rootServer twoDirs) rfl
    ((reached_length_eq_iff (.ofString "/") ["a", "b"]).mp (by decide))).1

end P9cpu.Ninep
