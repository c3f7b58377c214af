import P9cpu.Ninep.Footprint
import P9cpu.Ninep.Walk

/-! What one request leaves alone: after an error the table is as before, and an answered
request changes the entries that it is about. -/
namespace P9cpu.Ninep
open Core Prog

variable {σ : Type}

/-- The objects of fids over a host that answers in any way. -/
def execObjs (exec : (o : HostOp) → σ → HostRes o × σ) :
    (o : UnpfsOp) → Host.Objs σ → UnpfsRes o × Host.Objs σ
  | .realpathRead a, s => ((s.objs a).realpath, s)
  | .realpathUnread _, s => ((), s)
  | .realpathWrite a path, s => ((), s.setRealpath a path)
  | .fileLock a, s => ((s.objs a).file, s)
  | .fileSet a file, s => ((), s.setFile a file)
  | .fileUnlock _, s => ((), s)
  | .host o, s => ((exec o s.host).1, { s with host := (exec o s.host).2 })

abbrev objsBackend (exec : (o : HostOp) → σ → HostRes o × σ) : Backend UnpfsOp UnpfsRes where
  State := Host.Objs σ
  create a s := s.create a
  exec := execObjs exec

namespace Server

/-- The path and the open file of a fid. -/
def entry (s : Server (Host.Objs σ)) (f : UInt32) : Option UnpfsFid :=
  (s.fids.get f).map fun b => s.world.objs b.aux

/-- The table owns its objects: no two fids have the same one. -/
def Owns (s : Server σ) : Prop :=
  ∀ f g b c, s.fids.get f = some b → s.fids.get g = some c → b.aux = c.aux → f = g

end Server

/-- How an answered request may change the entry of the fid `f`. -/
def Fcall.Alters (body : Fcall) (f : UInt32) (before after : Option UnpfsFid) : Prop :=
  match body with
  | .tlopen fid _ | .tlcreate fid .. =>
    if f = fid then before.isSome = true ∧ after.isSome = true else after = before
  | .tclunk fid => if f = fid then after = none else after = before
  | .twalk _ newfid _ | .tattach newfid .. =>
    if f = newfid then after.isSome = true else after = before
  | _ => after = before

/-! Operations. -/

/-- The object that an operation writes to. -/
def UnpfsOp.writes : UnpfsOp → Option ObjId
  | .realpathWrite a _ | .fileSet a _ => some a
  | _ => none

section
variable (exec : (o : HostOp) → σ → HostRes o × σ)

theorem execObjs_of_not_writes {o : UnpfsOp} {a : ObjId} (h : o.writes ≠ some a)
    (s : Host.Objs σ) : (execObjs exec o s).2.objs a = s.objs a := by
  cases o with
  | realpathWrite b path =>
    have hne : a ≠ b := fun hab => h (congrArg some hab.symm)
    simp [execObjs, Host.Objs.setRealpath, hne]
  | fileSet b file =>
    have hne : a ≠ b := fun hab => h (congrArg some hab.symm)
    simp [execObjs, Host.Objs.setFile, hne]
  | realpathRead b => rfl
  | realpathUnread b => rfl
  | fileLock b => rfl
  | fileUnlock b => rfl
  | host o => rfl

/-- A handler writes to the object that its request may write to. -/
theorem footprint_writes (P : UnpfsOp → Prop) (hP : ∀ o : UnpfsOp, o.writes = none → P o) :
    Footprint P (fun _ _ => True) (fun _ => True) (fun _ => True) (fun _ => True) where
  realpathRead _ _ := hP _ rfl
  realpathUnread _ := hP _ rfl
  fileLock _ := hP _ rfl
  fileUnlock _ := hP _ rfl
  realpath _ _ _ := True.intro
  good _ _ := True.intro
  host _ _ := hP _ rfl
  dots _ _ := hP _ rfl

variable {realroot : PathBuf} {fids : FidTable} {aux : ObjId} {body : Fcall}
  {handler : UnpfsHandler Fcall}

theorem objs_of_handler (hroute : route (Unpfs realroot) fids (newFid body aux) body = .ok handler)
    {a : ObjId} (ha : changes fids aux body ≠ some a) (s : Host.Objs σ) :
    (handler.run.run (execObjs exec) s).2.objs a = s.objs a := by
  have hfoot : Footprint (fun o => ∀ b, o.writes = some b → changes fids aux body = some b)
      (fun _ _ => True) (fun _ => True) (fun _ => True) (fun _ => True) :=
    footprint_writes _ fun o ho b hb => by simp [ho] at hb
  have hroot : (fun _ : PathBuf => True) realroot := True.intro
  have huses := hfoot.uses_route hroot (fun _ _ _ => True.intro)
    (fun _ _ _ _ _ => True.intro) (fun b hb => ⟨fun _ _ c hc => (Option.some.inj hc) ▸ hb,
      fun _ c hc => (Option.some.inj hc) ▸ hb⟩) hroute
  have hkeeps : ∀ (o : UnpfsOp) (t : Host.Objs σ), t.objs a = s.objs a →
      (∀ b, o.writes = some b → changes fids aux body = some b) →
      True ∧ (execObjs exec o t).2.objs a = s.objs a := by
    intro o t ht ho
    rw [execObjs_of_not_writes exec (fun h => ha (ho a h)) t]
    exact ⟨True.intro, ht⟩
  exact (Performs.run_preserves huses hkeeps rfl).2

/-! `rlopen` and `rlcreate` write to the object of their fid once nothing can fail any more. -/

/-- Operations that write to the object of a fid. -/
def UnpfsOp.Writes (o : UnpfsOp) : Prop := o.writes ≠ none

theorem footprint_reads :
    Footprint (fun o => ¬ o.Writes) (fun _ _ => True) (fun _ => True) (fun _ => True)
      (fun _ => True) := by
  refine footprint_writes _ fun o ho => ?_
  unfold UnpfsOp.Writes
  exact not_not_intro ho

theorem succeeds_setFile {α : Type} {f : Unit → UnpfsHandler α} (hf : ∀ u, Succeeds (f u))
    (fid : Fid) (file : FileId) : Succeeds (setFile fid file >>= f) := by
  intro _ _ _ _ _ _
  exact hf ()

theorem succeeds_setRealpath {α : Type} {f : Unit → UnpfsHandler α} (hf : ∀ u, Succeeds (f u))
    (fid : Fid) (path : PathBuf) : Succeeds (setRealpath fid path >>= f) := by
  intro _ _
  exact hf ()

theorem succeeds_pure {α : Type} (a : α) : Succeeds (pure a : UnpfsHandler α) := ⟨a, rfl⟩

theorem commits_rlopen (fid : Fid) (flags : UInt32) :
    (Unpfs.rlopen fid flags).run.Commits UnpfsOp.Writes := by
  have H := footprint_reads
  unfold Unpfs.rlopen
  have hread : (fun _ : ObjId => True) fid.aux := True.intro
  refine (H.uses_realpath hread).commits_bind fun path hpath => ?_
  refine (H.uses_getQid hpath).commits_bind fun qid _ => ?_
  split_ifs
  · refine Uses.commits_bind (Q := fun _ => True) ?_ fun fd _ => ?_
    · exact uses_liftNix ⟨H.host_one rfl hpath, fun _ _ _ _ => True.intro⟩
    · exact (succeeds_setFile (fun _ => succeeds_pure _) fid fd).commits
  · exact (succeeds_pure _).commits

theorem commits_rlcreate (fid : Fid) (name : String) (flags mode gid : UInt32) :
    (Unpfs.rlcreate fid name flags mode gid).run.Commits UnpfsOp.Writes := by
  have H := footprint_reads
  unfold Unpfs.rlcreate
  have hread : (fun _ : ObjId => True) fid.aux := True.intro
  refine (H.uses_realpath hread).commits_bind fun path hpath => ?_
  refine Uses.commits_bind (Q := fun _ => True) ?_ fun fd _ => ?_
  · exact uses_liftNix ⟨H.host_one rfl True.intro, fun _ _ _ _ => True.intro⟩
  · refine (H.uses_getQid True.intro).commits_bind fun qid _ => ?_
    have hset := succeeds_setFile (fun _ => succeeds_pure (Fcall.rlcreate qid 0)) fid fd
    exact (succeeds_setRealpath (fun _ => hset) fid _).commits

theorem objs_of_commits {h : UnpfsHandler Fcall} (hh : h.run.Commits UnpfsOp.Writes)
    {s : Host.Objs σ} {e : Error} (hr : (h.run.run (execObjs exec) s).1 = .error e) :
    (h.run.run (execObjs exec) s).2.objs = s.objs := by
  refine Commits.run_error (I := fun t => t.objs = s.objs) hh (fun o t ht ho => ?_) rfl hr
  funext a
  rw [execObjs_of_not_writes exec (fun hw => ho (by simp [UnpfsOp.Writes, hw])) t, ht]

/-- A handler that fails has written to the object of the new fid at most. -/
theorem objs_of_error (hroute : route (Unpfs realroot) fids (newFid body aux) body = .ok handler)
    {s : Host.Objs σ} {e : Error} (hr : (handler.run.run (execObjs exec) s).1 = .error e)
    {a : ObjId} (ha : a ≠ aux) : (handler.run.run (execObjs exec) s).2.objs a = s.objs a := by
  have hother : changes fids aux body = none ∨ changes fids aux body = some aux →
      (handler.run.run (execObjs exec) s).2.objs a = s.objs a := by
    rintro (hc | hc)
    · exact objs_of_handler exec hroute (by simp [hc]) s
    · exact objs_of_handler exec hroute (by simp [hc, ha.symm]) s
  cases routed_of_route hroute with
  | rlopen flags hb => rw [objs_of_commits exec (commits_rlopen _ flags) hr]
  | rlcreate name flags mode gid hb =>
    rw [objs_of_commits exec (commits_rlcreate _ name flags mode gid) hr]
  | unsupported => rfl
  | rattach => exact hother (.inr rfl)
  | rwalk => exact hother (.inr rfl)
  | rstatfs | rreadlink | rgetattr | rsetattr | rreaddir | rfsync | rmkdir | rrenameat | runlinkat
  | rread | rwrite | rclunk | rversion => exact hother (.inl rfl)

end

/-! The table. -/

theorem get_updateFids {fids : FidTable} {body : Fcall} {aux : ObjId} (f : UInt32) :
    (updateFids fids body (newFid body aux)).get f =
      if body.newfid = some f then some ⟨f, aux⟩
      else if body = .tclunk f then none
      else fids.get f := by
  cases body <;> simp [updateFids, newFid, Fcall.newfid] <;> grind

theorem owns_updateFids {s : Server σ} (hs : s.Owns) (body : Fcall) (world : σ) :
    Server.Owns ⟨updateFids s.fids body (newFid body s.nextAux), s.nextAux + 1, world,
      fresh_updateFids s.fresh body⟩ := by
  have hold : ∀ f b, (updateFids s.fids body (newFid body s.nextAux)).get f = some b →
      body.newfid = some f ∧ b.aux = s.nextAux ∨ s.fids.get f = some b := by
    intro f b hb
    rw [get_updateFids] at hb
    split_ifs at hb with hnew hclunk
    · cases hb
      exact .inl ⟨hnew, rfl⟩
    · exact .inr hb
  intro f g b c hb hc haux
  obtain ⟨hf, hfa⟩ | hf := hold f b hb
  · obtain ⟨hg, -⟩ | hg := hold g c hc
    · exact Option.some.inj (hf.symm.trans hg)
    · have hlt := s.fresh g c hg
      rw [← haux, hfa] at hlt
      exact absurd hlt (Nat.lt_irrefl _)
  · obtain ⟨-, hga⟩ | hg := hold g c hc
    · have hlt := s.fresh f b hf
      rw [haux, hga] at hlt
      exact absurd hlt (Nat.lt_irrefl _)
    · exact hs f g b c hf hg haux

section
variable (exec : (o : HostOp) → σ → HostRes o × σ) (realroot : PathBuf) (msg : Msg)
  (s : Server (Host.Objs σ))

theorem created_objs (body : Fcall) {f : UInt32} {b : Fid} (hb : s.fids.get f = some b) :
    (s.created (objsBackend exec) body).objs b.aux = s.world.objs b.aux := by
  have hne : b.aux ≠ s.nextAux := Nat.ne_of_lt (s.fresh f b hb)
  unfold Server.created
  split_ifs
  · exact Host.Objs.create_of_ne s.world hne
  · rfl

variable {exec realroot msg s}

theorem entry_of_error {a : Abort}
    (hr : (dispatchOnce (Unpfs realroot) (objsBackend exec) msg s).1 = .error a) :
    (dispatchOnce (Unpfs realroot) (objsBackend exec) msg s).2.fids = s.fids ∧
      ∀ f, (dispatchOnce (Unpfs realroot) (objsBackend exec) msg s).2.entry f = s.entry f := by
  have hentry : ∀ {t : Server (Host.Objs σ)}, t.fids = s.fids →
      (∀ f b, s.fids.get f = some b → t.world.objs b.aux = s.world.objs b.aux) →
      ∀ f, t.entry f = s.entry f := by
    intro t hfids hobjs f
    unfold Server.entry
    rw [hfids]
    cases hb : s.fids.get f with
    | none => rfl
    | some b => simp [hobjs f b hb]
  cases hroute : route (Unpfs realroot) s.fids (newFid msg.body s.nextAux) msg.body with
  | error e =>
    obtain ⟨-, hfids, hworld⟩ := dispatchOnce_refused (b := objsBackend exec) (s := s) hroute
    refine ⟨hfids, hentry hfids fun f b hb => ?_⟩
    rw [hworld]
    exact created_objs exec s msg.body hb
  | ok handler =>
    cases hrun : handler.run.run (execObjs exec) (s.created (objsBackend exec) msg.body) with
    | mk r world =>
      cases r with
      | ok response =>
        obtain ⟨hok, -⟩ := dispatchOnce_ok (b := objsBackend exec) hroute hrun
        exact absurd (hok.symm.trans hr) (by simp)
      | error e =>
        obtain ⟨-, hfids, hworld⟩ := dispatchOnce_error (b := objsBackend exec) hroute hrun
        refine ⟨hfids, hentry hfids fun f b hb => ?_⟩
        have hne : b.aux ≠ s.nextAux := Nat.ne_of_lt (s.fresh f b hb)
        have hobjs := objs_of_error exec hroute (congrArg Prod.fst hrun) hne
        rw [hrun] at hobjs
        rw [hworld]
        exact hobjs.trans (created_objs exec s msg.body hb)

/-- The entries after an answered request, and its handler. -/
theorem entry_of_ok {response : Fcall}
    (hr : (dispatchOnce (Unpfs realroot) (objsBackend exec) msg s).1 = .ok response) :
    ∃ handler, Routed realroot s.fids s.nextAux msg.body handler ∧
      (handler.run.run (execObjs exec) (s.created (objsBackend exec) msg.body)).1 = .ok response ∧
      (dispatchOnce (Unpfs realroot) (objsBackend exec) msg s).2.world =
        (handler.run.run (execObjs exec) (s.created (objsBackend exec) msg.body)).2 ∧
      (dispatchOnce (Unpfs realroot) (objsBackend exec) msg s).2.fids =
        updateFids s.fids msg.body (newFid msg.body s.nextAux) ∧
      ∀ f, msg.body.newfid ≠ some f → msg.body ≠ .tclunk f →
        (∀ b, s.fids.get f = some b → changes s.fids s.nextAux msg.body ≠ some b.aux) →
        (dispatchOnce (Unpfs realroot) (objsBackend exec) msg s).2.entry f = s.entry f := by
  cases hroute : route (Unpfs realroot) s.fids (newFid msg.body s.nextAux) msg.body with
  | error e =>
    obtain ⟨herr, -⟩ := dispatchOnce_refused (b := objsBackend exec) (s := s) hroute
    exact absurd (herr.symm.trans hr) (by simp)
  | ok handler =>
    cases hrun : handler.run.run (execObjs exec) (s.created (objsBackend exec) msg.body) with
    | mk r world =>
      cases r with
      | error e =>
        obtain ⟨herr, -⟩ := dispatchOnce_error (b := objsBackend exec) hroute hrun
        exact absurd (herr.symm.trans hr) (by simp)
      | ok answer =>
        obtain ⟨hok, hfids, hworld⟩ := dispatchOnce_ok (b := objsBackend exec) hroute hrun
        have hanswer : answer = response := Except.ok.inj (hok.symm.trans hr)
        refine ⟨handler, routed_of_route hroute, ?_, ?_, hfids, fun f hnew hclunk hch => ?_⟩
        · rw [hrun, hanswer]
        · rw [hrun, hworld]
        · unfold Server.entry
          rw [hfids, hworld, get_updateFids, if_neg hnew, if_neg hclunk]
          cases hb : s.fids.get f with
          | none => rfl
          | some b =>
            have hobjs := objs_of_handler exec hroute (hch b hb)
              (s.created (objsBackend exec) msg.body)
            rw [hrun, created_objs exec s msg.body hb] at hobjs
            exact congrArg some hobjs

theorem alters_of_ok (hs : s.Owns) {response : Fcall}
    (hr : (dispatchOnce (Unpfs realroot) (objsBackend exec) msg s).1 = .ok response) (f : UInt32) :
    msg.body.Alters f (s.entry f)
      ((dispatchOnce (Unpfs realroot) (objsBackend exec) msg s).2.entry f) := by
  obtain ⟨handler, hrouted, hrun, -, hfids, hsame⟩ := entry_of_ok hr
  -- the entry of a bound fid of `Tlopen` or `Tlcreate`, which stays bound
  have hopen : ∀ {fid : UInt32} {b : Fid}, s.fids.get fid = some b →
      changes s.fids s.nextAux msg.body = some b.aux → msg.body.newfid = none →
      (∀ g, msg.body ≠ .tclunk g) →
      if f = fid then (s.entry f).isSome ∧
        ((dispatchOnce (Unpfs realroot) (objsBackend exec) msg s).2.entry f).isSome
      else (dispatchOnce (Unpfs realroot) (objsBackend exec) msg s).2.entry f = s.entry f := by
    intro fid b hb hch hnew hclunk
    split_ifs with hf
    · subst hf
      unfold Server.entry
      rw [hfids, get_updateFids, hnew, if_neg (by simp), if_neg (hclunk f), hb]
      simp
    · refine hsame f (by simp [hnew]) (hclunk f) fun c hc haux => hf ?_
      rw [hch] at haux
      exact hs f fid c b hc hb (Option.some.inj haux).symm
  -- the entries besides that of a new fid
  have hbind : ∀ {newfid : UInt32}, msg.body.newfid = some newfid →
      changes s.fids s.nextAux msg.body = some s.nextAux → (∀ g, msg.body ≠ .tclunk g) →
      if f = newfid then
        ((dispatchOnce (Unpfs realroot) (objsBackend exec) msg s).2.entry f).isSome
      else (dispatchOnce (Unpfs realroot) (objsBackend exec) msg s).2.entry f = s.entry f := by
    intro newfid hnew hch hclunk
    split_ifs with hf
    · subst hf
      unfold Server.entry
      rw [hfids, get_updateFids, if_pos hnew]
      rfl
    · refine hsame f (by simp [hnew, Ne.symm hf]) (hclunk f) fun c hc haux => ?_
      rw [hch] at haux
      exact Nat.ne_of_lt (s.fresh f c hc) (Option.some.inj haux).symm
  obtain ⟨tag, body⟩ := msg
  dsimp only at hrouted hopen hbind hsame
  cases hrouted with
  | rlopen flags hb => exact hopen hb (by simp [changes, hb]) rfl (by simp)
  | rlcreate name flags mode gid hb => exact hopen hb (by simp [changes, hb]) rfl (by simp)
  | rattach => exact hbind rfl rfl (by simp)
  | rwalk => exact hbind rfl rfl (by simp)
  | @rclunk fid b hb =>
    show if f = fid then _ else _
    split_ifs with hf
    · subst hf
      unfold Server.entry
      rw [hfids, get_updateFids]
      simp [Fcall.newfid]
    · exact hsame f (by simp [Fcall.newfid]) (by simpa using Ne.symm hf) (by simp [changes])
  | unsupported => cases hrun
  | rstatfs | rreadlink | rgetattr | rsetattr | rreaddir | rfsync | rmkdir | rrenameat | runlinkat
  | rread | rwrite | rversion =>
    exact hsame f (by simp [Fcall.newfid]) (by simp) (by simp [changes])

theorem Fcall.Alters.eq_of_not_named {body : Fcall} {f : UInt32} {before after : Option UnpfsFid}
    (h : body.Alters f before after) (hf : f ∉ body.fids) (hnew : body.newfid ≠ some f) :
    after = before := by
  cases body <;> simp_all [Fcall.Alters, Fcall.fids, Fcall.newfid] <;> grind

/-- An error leaves every fid with its path and its open file. An answered request changes the
entries that it is about, and only of fids that it names. -/
theorem dispatchOnce_frame (exec : (o : HostOp) → σ → HostRes o × σ) (realroot : PathBuf)
    (msg : Msg) (s : Server (Host.Objs σ)) (hs : s.Owns) :
    let r := dispatchOnce (Unpfs realroot) (objsBackend exec) msg s
    ((∃ a, r.1 = .error a) → ∀ f, r.2.entry f = s.entry f) ∧
    ((∃ response, r.1 = .ok response) → ∀ f, msg.body.Alters f (s.entry f) (r.2.entry f) ∧
      (f ∉ msg.body.fids → msg.body.newfid ≠ some f → r.2.entry f = s.entry f)) ∧
    r.2.Owns := by
  refine ⟨?_, ?_, ?_⟩
  · rintro ⟨a, ha⟩
    exact (entry_of_error ha).2
  · rintro ⟨response, hr⟩ f
    exact ⟨alters_of_ok hs hr f, (alters_of_ok hs hr f).eq_of_not_named⟩
  · cases hr : (dispatchOnce (Unpfs realroot) (objsBackend exec) msg s).1 with
    | error a =>
      have hfids := (entry_of_error hr).1
      intro f g b c hb hc
      rw [hfids] at hb hc
      exact hs f g b c hb hc
    | ok response =>
      obtain ⟨-, -, -, -, hfids, -⟩ := entry_of_ok hr
      have howns := owns_updateFids hs msg.body s.world
      intro f g b c hb hc
      rw [hfids] at hb hc
      exact howns f g b c hb hc

end

/-- A host that opens every path and then does not find it. -/
def openHost : (o : HostOp) → Unit → HostRes o × Unit
  | .open .., s => (.ok 5, s)
  | o, s => (dirHost []).exec o s

theorem owns_rootServer (dirs : List PathBuf) : (rootServer dirs).Owns := by
  have hone : ∀ f b, (rootServer dirs).fids.get f = some b → f = 1 := by
    intro f b hb
    simp only [rootServer, FidTable.get_insert, FidTable.get_new] at hb
    split_ifs at hb with hf
    exact hf
  intro f g b c hb hc _
  rw [hone f b hb, hone g c hc]

/-- `Tlcreate` fails after the file was opened. -/
theorem dispatchOnce_frame_tlcreate :
    let r := dispatchOnce (Unpfs (.ofString "/")) (objsBackend openHost)
      ⟨7, .tlcreate 1 "f" 0 0o644 0⟩ (rootServer [])
    r.1 = .error (.error (.io (.os 2))) ∧ ∀ f, r.2.entry f = (rootServer []).entry f := by
  have herr : (dispatchOnce (Unpfs (.ofString "/")) (objsBackend openHost)
      ⟨7, .tlcreate 1 "f" 0 0o644 0⟩ (rootServer [])).1 = .error (.error (.io (.os 2))) := rfl
  exact ⟨herr, (dispatchOnce_frame openHost (.ofString "/") ⟨7, .tlcreate 1 "f" 0 0o644 0⟩
    (rootServer []) (owns_rootServer [])).1 ⟨_, herr⟩⟩

end P9cpu.Ninep
