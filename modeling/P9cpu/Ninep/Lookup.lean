import P9cpu.Ninep.Walk

/-! The fids that a request contains and those that `dispatch_once` looks up. -/
namespace P9cpu.Ninep
open Core

/-- The error of a fid that is not in the table. -/
def unboundFid : Abort := .error (.no Errno.EBADF)

/-- A request is refused for its fids: the handler is not called. -/
def RefusesFid {Op : Type} {Res : Op → Type} (fs : Filesystem Op Res) (b : Backend Op Res)
    (msg : Msg) (s : Server b.State) : Prop :=
  (dispatchOnce fs b msg s).1 = .error unboundFid ∧
    ∀ handler, route fs s.fids (newFid msg.body s.nextAux) msg.body ≠ .ok handler

section
variable {Op : Type} {Res : Op → Type} {fs : Filesystem Op Res} {fids : FidTable}

theorem getFid_bind_eq_unboundFid {α : Type} {fid : UInt32} {k : Fid → Except Abort α} :
    (getFid fids fid >>= k) = .error unboundFid ↔
      fids.get fid = none ∨ ∃ f, fids.get fid = some f ∧ k f = .error unboundFid := by
  unfold getFid
  cases h : fids.get fid with
  | none => exact ⟨fun _ => .inl rfl, fun _ => rfl⟩
  | some f =>
    constructor
    · exact fun hk => .inr ⟨f, rfl, hk⟩
    · rintro (hnone | ⟨f', hsome, hk⟩)
      · cases hnone
      · cases hsome
        exact hk

theorem getFid_map_eq_unboundFid {α : Type} {fid : UInt32} {k : Fid → α} :
    k <$> getFid fids fid = .error unboundFid ↔ fids.get fid = none := by
  unfold getFid
  cases h : fids.get fid with
  | none => exact ⟨fun _ => rfl, fun _ => rfl⟩
  | some f =>
    constructor
    · intro hk
      cases hk
    · intro hnone
      cases hnone

theorem unsupported_ne_unboundFid : Abort.error (.no Errno.EOPNOTSUPP) ≠ unboundFid := by
  decide

/-- Every fid that a request contains is looked up, but for the one of a `Tattach`. -/
theorem route_eq_unboundFid_iff (fs : Filesystem Op Res) (fids : FidTable) (body : Fcall)
    (aux : ObjId) : route fs fids (newFid body aux) body = .error unboundFid ↔
      (∀ fid afid uname aname nUname, body ≠ .tattach fid afid uname aname nUname) ∧
        ∃ fid ∈ body.fids, fids.get fid = none := by
  cases body with
  | trename fid dfid | tlink fid dfid | trenameat fid _ dfid =>
    -- the second fid is looked up once the first one is found
    cases h : fids.get fid with
    | none => simp [route, getFid_bind_eq_unboundFid, Fcall.fids, h]
    | some f => simp [route, getFid_bind_eq_unboundFid, getFid_map_eq_unboundFid, Fcall.fids, h]
  | _ =>
    simp [route, getFid_bind_eq_unboundFid, getFid_map_eq_unboundFid, unsupported_ne_unboundFid,
      Fcall.fids, newFid, Fcall.newfid, unwrap]

theorem refusesFid_iff (fs : Filesystem Op Res) (b : Backend Op Res) (msg : Msg)
    (s : Server b.State) : RefusesFid fs b msg s ↔
      (∀ fid afid uname aname nUname, msg.body ≠ .tattach fid afid uname aname nUname) ∧
        ∃ fid ∈ msg.body.fids, s.fids.get fid = none := by
  rw [← route_eq_unboundFid_iff fs s.fids msg.body s.nextAux]
  constructor
  · rintro ⟨herror, hnone⟩
    rcases hroute : route fs s.fids (newFid msg.body s.nextAux) msg.body with a | handler
    · rw [(dispatchOnce_refused hroute).1] at herror
      rw [Except.error.inj herror]
    · exact absurd hroute (hnone handler)
  · intro hroute
    refine ⟨(dispatchOnce_refused hroute).1, fun handler hok => ?_⟩
    rw [hroute] at hok
    cases hok

/-- A request is refused exactly when one of the fids that it contains is not bound, but that a
`Tattach` with such an `afid` is not. -/
theorem refusesFid_iff_fids_iff (fs : Filesystem Op Res) (b : Backend Op Res) (msg : Msg)
    (s : Server b.State) :
    (RefusesFid fs b msg s ↔ ∃ fid ∈ msg.body.fids, s.fids.get fid = none) ↔
      ∀ fid afid uname aname nUname, msg.body = .tattach fid afid uname aname nUname →
        afid ≠ NOFID → s.fids.get afid ≠ none := by
  rw [refusesFid_iff]
  by_cases hattach : ∃ fid afid uname aname nUname,
      msg.body = .tattach fid afid uname aname nUname
  · obtain ⟨fid, afid, uname, aname, nUname, hbody⟩ := hattach
    have hnot : ¬ ∀ fid afid uname aname nUname,
        msg.body ≠ .tattach fid afid uname aname nUname := fun h => h _ _ _ _ _ hbody
    have hfids : (∃ fid ∈ msg.body.fids, s.fids.get fid = none) ↔
        afid ≠ NOFID ∧ s.fids.get afid = none := by
      rw [hbody, Fcall.fids]
      split_ifs with h <;> simp [h]
    rw [hfids]
    constructor
    · intro h fid' afid' uname' aname' nUname' hbody' hafid hnone
      rw [hbody] at hbody'
      cases hbody'
      exact hnot (h.mpr ⟨hafid, hnone⟩).1
    · exact fun h => ⟨fun hall => absurd hall.1 hnot,
        fun hunbound => absurd hunbound.2 (h _ _ _ _ _ hbody hunbound.1)⟩
  · have hall : ∀ fid afid uname aname nUname,
        msg.body ≠ .tattach fid afid uname aname nUname :=
      fun fid afid uname aname nUname hbody => hattach ⟨fid, afid, uname, aname, nUname, hbody⟩
    constructor
    · exact fun _ fid afid uname aname nUname hbody => absurd hbody (hall _ _ _ _ _)
    · exact fun _ => ⟨fun h => h.2, fun h => ⟨hall, h⟩⟩

end

/-- Only fid 1 is bound, and an attach with fid 7 for its authentication succeeds. -/
theorem not_refusesFid : ¬ ∀ (msg : Msg) (s : Server (dirHost oneDir).backend.State),
    (RefusesFid (Unpfs (.ofString "/")) (dirHost oneDir).backend msg s ↔
      ∃ fid ∈ msg.body.fids, s.fids.get fid = none) := by
  intro h
  have hrefused := (h ⟨1, .tattach 2 7 "" "" 0⟩ (rootServer oneDir)).mpr (by decide)
  exact absurd hrefused.1 (by decide)

end P9cpu.Ninep
