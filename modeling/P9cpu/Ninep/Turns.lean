import P9cpu.Ninep.Files
import P9cpu.Ninep.Protocol

/-! How the handlers of `Tread` and `Twrite` take turns at an open file. -/
namespace P9cpu.Ninep
open Core Prog

/-- Where a request reads or writes. -/
def Fcall.position : Fcall → Option UInt64
  | .tread _ offset _ | .twrite _ offset _ => some offset
  | _ => none

/-- The response of a handler that moved this. -/
def Transfer.response : Transfer → Fcall
  | .read _ _ _ bytes => .rread ⟨bytes⟩
  | .write _ _ _ n => .rwrite (.ofNat n)

/-- Where a task is with the open file of its fid. -/
inductive Course
  /-- has not locked the file, or is the task of another request -/
  | other (q : Stage)
  /-- has locked a fid that is not open -/
  | unopened (a : ObjId)
  | locked (a : ObjId) (f : FileId)
  | sought (a : ObjId) (f : FileId) (offset : UInt64)
  /-- knows its response and still has the lock -/
  | served (a : ObjId) (f : FileId) (outcome : Except Error Transfer)
  | finished (f : FileId) (outcome : Except Error Transfer)

def Course.stage : Course → Stage
  | .other q => q
  | .unopened a => .locked a none none
  | .locked a f => .locked a (some f) none
  | .sought a f offset => .sought a f offset
  | .served a f outcome => .locked a (some f) outcome.toOption
  | .finished _ outcome => .free outcome.toOption

/-- The operation moves no open file. -/
def UnpfsOp.Unmoved : UnpfsOp → Prop
  | .host o => o.moves = none
  | _ => True

/-- The protocol of a request: `Tread` and `Twrite` lock the file once, go to their own offset and
transfer once; no other request moves an open file. -/
inductive Proceeds (Uses : ObjId → Prop) (body : Fcall) :
    Course → (o : UnpfsOp) → UnpfsRes o → Course → Prop
  | other (q q' : Stage) (o : UnpfsOp) (r : UnpfsRes o) (hbody : body.position = none)
      (ho : o.Unmoved) (h : Next Uses q o r q') : Proceeds Uses body (.other q) o r (.other q')
  | locks (a : ObjId) (f : FileId) (h : Uses a) (hbody : body.position ≠ none) :
      Proceeds Uses body (.other (.free none)) (.fileLock a) (some f) (.locked a f)
  | locksUnopened (a : ObjId) (h : Uses a) (hbody : body.position ≠ none) :
      Proceeds Uses body (.other (.free none)) (.fileLock a) none (.unopened a)
  | unlocksUnopened (a : ObjId) :
      Proceeds Uses body (.unopened a) (.fileUnlock a) () (.other (.free none))
  | seeks (a : ObjId) (f : FileId) (offset pos : UInt64) (hbody : body.position = some offset) :
      Proceeds Uses body (.locked a f) (.host (.seek f offset)) (.ok pos) (.sought a f offset)
  | notSeeks (a : ObjId) (f : FileId) (offset : UInt64) (e : IoError)
      (hbody : body.position = some offset) :
      Proceeds Uses body (.locked a f) (.host (.seek f offset)) (.error e)
        (.served a f (.error (.io e)))
  | reads (a : ObjId) (f : FileId) (fid : UInt32) (offset : UInt64) (count : UInt32)
      (bytes : { bytes : List UInt8 // bytes.length ≤ count.toNat })
      (hbody : body = .tread fid offset count) :
      Proceeds Uses body (.sought a f offset) (.host (.read f count.toNat)) (.ok bytes)
        (.served a f (.ok (.read f offset count.toNat bytes.val)))
  | notReads (a : ObjId) (f : FileId) (offset : UInt64) (count : ℕ) (e : IoError) :
      Proceeds Uses body (.sought a f offset) (.host (.read f count)) (.error e)
        (.served a f (.error (.io e)))
  | writes (a : ObjId) (f : FileId) (fid : UInt32) (offset : UInt64) (data : Data)
      (n : { n : ℕ // n ≤ data.bytes.length }) (hbody : body = .twrite fid offset data) :
      Proceeds Uses body (.sought a f offset) (.host (.write f data.bytes)) (.ok n)
        (.served a f (.ok (.write f offset data.bytes n.val)))
  | notWrites (a : ObjId) (f : FileId) (offset : UInt64) (data : List UInt8) (e : IoError) :
      Proceeds Uses body (.sought a f offset) (.host (.write f data)) (.error e)
        (.served a f (.error (.io e)))
  | unlocks (a : ObjId) (f : FileId) (outcome : Except Error Transfer) :
      Proceeds Uses body (.served a f outcome) (.fileUnlock a) () (.finished f outcome)

/-- A request may end here, with this response. -/
def Course.Ends (body : Fcall) : Course → Fcall → Prop
  | .finished _ outcome, response => response = responseOf (outcome.map Transfer.response)
  | .other q, response => q.released ∧ (body.position ≠ none → ∃ e, response = rlerrorOf e)
  | _, _ => False

section
variable {Uses Uses' : ObjId → Prop} {body : Fcall} {v v' : Course} {o : UnpfsOp} {r : UnpfsRes o}

theorem Proceeds.imp (body : Fcall) (huses : ∀ a, Uses a → Uses' a) (v : Course) (o : UnpfsOp)
    (r : UnpfsRes o) (v' : Course) (h : Proceeds Uses body v o r v') :
    Proceeds Uses' body v o r v' := by
  cases h with
  | other q q' o r hbody ho h => exact .other q q' o r hbody ho (Next.imp huses q o r q' h)
  | locks a f ha hbody => exact .locks a f (huses a ha) hbody
  | locksUnopened a ha hbody => exact .locksUnopened a (huses a ha) hbody
  | unlocksUnopened a => exact .unlocksUnopened a
  | seeks a f offset pos hbody => exact .seeks a f offset pos hbody
  | notSeeks a f offset e hbody => exact .notSeeks a f offset e hbody
  | reads a f fid offset count bytes hbody => exact .reads a f fid offset count bytes hbody
  | notReads a f offset count e => exact .notReads a f offset count e
  | writes a f fid offset data n hbody => exact .writes a f fid offset data n hbody
  | notWrites a f offset data e => exact .notWrites a f offset data e
  | unlocks a f outcome => exact .unlocks a f outcome

/-- Taking turns is one way to keep to the protocol of open files. -/
theorem Proceeds.next (h : Proceeds Uses body v o r v') : Next Uses v.stage o r v'.stage := by
  cases h with
  | other q q' o r hbody ho h => exact h
  | locks a f ha hbody => exact .locks a (some f) ha
  | locksUnopened a ha hbody => exact .locks a none ha
  | unlocksUnopened a => exact .unlocks a none none
  | seeks a f offset pos hbody => exact .seeks a f offset pos
  | notSeeks a f offset e hbody => exact .notSeeks a f offset e
  | reads a f fid offset count bytes hbody => exact .reads a f offset count.toNat bytes
  | notReads a f offset count e => exact .notReads a f offset count e
  | writes a f fid offset data n hbody => exact .writes a f offset data.bytes n
  | notWrites a f offset data e => exact .notWrites a f offset data e
  | unlocks a f outcome => exact .unlocks a (some f) outcome.toOption

/-- The requests to a host filesystem take turns at its open files. -/
abbrev courses : Protocol UnpfsOp UnpfsRes where
  Stage := Course
  start := .other (.free none)
  next := Proceeds
  ends := Course.Ends
  mono := Proceeds.imp

/-! `Tread` and `Twrite`. -/

/-- The block with the lock of the file. -/
theorem proceeds_withFile {α : Type} {fid : Fid} {act : FileId → UnpfsHandler α} (g : α → Fcall)
    (huses : Uses fid.aux) (hbody : body.position ≠ none)
    (hact : ∀ f, (act f).run.Follows (Proceeds Uses body)
      (fun v r => ∃ outcome, v = .served fid.aux f outcome ∧
        r.map g = outcome.map Transfer.response) (.locked fid.aux f)) :
    (withFile fid act).run.Follows (Proceeds Uses body)
      (fun v r => v.Ends body (responseOf (r.map g))) (.other (.free none)) := by
  unfold withFile
  simp only [ExceptT.run_mk, op, call_bind]
  intro file
  cases file with
  | none =>
    refine ⟨_, .locksUnopened fid.aux huses hbody, fun u => ?_⟩
    exact ⟨_, .unlocksUnopened fid.aux, rfl, fun _ => ⟨_, rfl⟩⟩
  | some f =>
    refine ⟨_, .locks fid.aux f huses hbody, ?_⟩
    refine follows_bind (hact f) fun v r hr => ?_
    obtain ⟨outcome, rfl, heq⟩ := hr
    intro u
    exact ⟨_, .unlocks fid.aux f outcome, congrArg responseOf heq⟩

/-- The block goes to the position of the request first. -/
theorem proceeds_seek {α : Type} {a : ObjId} {f : FileId} {offset : UInt64}
    {act : UInt64 → UnpfsHandler α} (g : α → Fcall) (hbody : body.position = some offset)
    (hact : ∀ pos, (act pos).run.Follows (Proceeds Uses body)
      (fun v r => ∃ outcome, v = .served a f outcome ∧
        r.map g = outcome.map Transfer.response) (.sought a f offset)) :
    (liftIo (op (.host (.seek f offset))) >>= act).run.Follows (Proceeds Uses body)
      (fun v r => ∃ outcome, v = .served a f outcome ∧
        r.map g = outcome.map Transfer.response) (.locked a f) := by
  intro r
  cases r with
  | error e => exact ⟨_, .notSeeks a f offset e hbody, _, rfl, rfl⟩
  | ok pos => exact ⟨_, .seeks a f offset pos hbody, hact pos⟩

/-- A handler that builds its response from what the block returned. -/
theorem proceeds_map {α : Type} {h : UnpfsHandler α} {g : α → Fcall} {v : Course}
    (hh : h.run.Follows (Proceeds Uses body) (fun v r => v.Ends body (responseOf (r.map g))) v) :
    (h >>= fun a => pure (g a)).run.Follows (Proceeds Uses body)
      (fun v r => v.Ends body (responseOf r)) v := by
  rw [ExceptT.run_bind]
  refine follows_bind hh fun v r hr => ?_
  cases r with
  | ok a => exact hr
  | error e => exact hr

theorem proceeds_rread {b : Fid} (huses : Uses b.aux) (fid : UInt32) (offset : UInt64)
    (count : UInt32) :
    (Unpfs.rread b offset count).run.Follows (Proceeds Uses (.tread fid offset count))
      (fun v r => v.Ends (.tread fid offset count) (responseOf r)) (.other (.free none)) := by
  apply proceeds_map (g := fun buf => .rread ⟨buf⟩)
  refine proceeds_withFile _ huses (by simp [Fcall.position]) fun f => ?_
  refine proceeds_seek _ rfl fun pos => ?_
  intro r
  cases r with
  | error e => exact ⟨_, .notReads b.aux f offset count.toNat e, _, rfl, rfl⟩
  | ok bytes => exact ⟨_, .reads b.aux f fid offset count bytes rfl, _, rfl, rfl⟩

theorem proceeds_rwrite {b : Fid} (huses : Uses b.aux) (fid : UInt32) (offset : UInt64)
    (data : Data) :
    (Unpfs.rwrite b offset data).run.Follows (Proceeds Uses (.twrite fid offset data))
      (fun v r => v.Ends (.twrite fid offset data) (responseOf r)) (.other (.free none)) := by
  apply proceeds_map (g := fun count => .rwrite count)
  refine proceeds_withFile _ huses (by simp [Fcall.position]) fun f => ?_
  refine proceeds_seek _ rfl fun pos => ?_
  intro r
  cases r with
  | error e => exact ⟨_, .notWrites b.aux f offset data.bytes e, _, rfl, rfl⟩
  | ok n => exact ⟨_, .writes b.aux f fid offset data n rfl, _, rfl, rfl⟩

end

/-! All other requests. -/

section
variable {α β : Type}

abbrev UsesUnmoved (h : UnpfsHandler α) : Prop :=
  Prog.Uses UnpfsOp.Unmoved (fun _ _ => True) (fun _ => True) h

theorem unmoved_of_plain {h : UnpfsHandler α} (hh : UsesPlain h) : UsesUnmoved h := by
  refine Performs.imp hh fun o ho => ?_
  cases o with
  | host o =>
    cases o with
    | seek | read | write => exact ho.elim
    | _ => rfl
  | _ => exact True.intro

theorem unmoved_bind {h : UnpfsHandler α} {f : α → UnpfsHandler β} (hh : UsesUnmoved h)
    (hf : ∀ a, UsesUnmoved (f a)) : UsesUnmoved (h >>= f) :=
  uses_bind hh fun a _ => hf a

theorem unmoved_setFile (fid : Fid) (file : FileId) : UsesUnmoved (setFile fid file) :=
  ⟨True.intro, fun _ _ => ⟨True.intro, fun _ _ => ⟨True.intro, fun _ _ _ _ => True.intro⟩⟩⟩

theorem unmoved_open (path : PathBuf) (oflags omode : UInt32) :
    UsesUnmoved (liftNix (op (.host (.open path oflags omode)))) :=
  uses_liftNix ⟨rfl, fun _ _ _ _ => True.intro⟩

theorem unmoved_rlopen (fid : Fid) (flags : UInt32) : UsesUnmoved (Unpfs.rlopen fid flags) := by
  unfold Unpfs.rlopen
  refine unmoved_bind (unmoved_of_plain (plain_realpath fid)) fun path => ?_
  refine unmoved_bind (unmoved_of_plain (plain_getQid path)) fun qid => ?_
  dsimp only
  split_ifs
  · refine unmoved_bind (unmoved_open path _ _) fun file => ?_
    exact unmoved_bind (unmoved_setFile fid file) fun _ => unmoved_of_plain (plain_pure _)
  · exact unmoved_of_plain (plain_pure _)

theorem unmoved_rlcreate (fid : Fid) (name : String) (flags mode gid : UInt32) :
    UsesUnmoved (Unpfs.rlcreate fid name flags mode gid) := by
  unfold Unpfs.rlcreate
  refine unmoved_bind (unmoved_of_plain (plain_realpath fid)) fun path => ?_
  refine unmoved_bind (unmoved_open _ _ _) fun file => ?_
  refine unmoved_bind (unmoved_of_plain (plain_getQid _)) fun qid => ?_
  refine unmoved_bind (unmoved_of_plain (plain_setRealpath fid _)) fun _ => ?_
  exact unmoved_bind (unmoved_setFile fid file) fun _ => unmoved_of_plain (plain_pure _)

theorem unmoved_setSize (path : PathBuf) (valid : SetattrMask) (stat : SetAttr) :
    UsesUnmoved (Unpfs.setSize path valid stat) := by
  unfold Unpfs.setSize
  split
  · refine unmoved_bind (uses_liftIo ⟨rfl, fun _ _ _ _ => True.intro⟩) fun file => ?_
    exact uses_liftIo ⟨rfl, fun _ _ _ _ => True.intro⟩
  · exact unmoved_of_plain (plain_pure _)

theorem unmoved_rsetattr (fid : Fid) (valid : SetattrMask) (stat : SetAttr) :
    UsesUnmoved (Unpfs.rsetattr fid valid stat) := by
  unfold Unpfs.rsetattr
  refine unmoved_bind (unmoved_of_plain (plain_realpath fid)) fun path => ?_
  refine unmoved_bind (unmoved_of_plain (plain_setMode path valid stat)) fun _ => ?_
  refine unmoved_bind (unmoved_of_plain (plain_setOwner path valid stat)) fun _ => ?_
  refine unmoved_bind (unmoved_setSize path valid stat) fun _ => ?_
  refine unmoved_bind (unmoved_of_plain (plain_setTimes path valid stat)) fun _ => ?_
  exact unmoved_of_plain (plain_pure _)

theorem unmoved_rfsync (fid : Fid) : UsesUnmoved (Unpfs.rfsync fid) := by
  have hsync : UsesUnmoved (withFile fid fun file => liftIo (op (.host (.syncAll file)))) := by
    refine ⟨True.intro, fun file _ => ?_⟩
    cases file with
    | none => exact ⟨True.intro, fun _ _ _ _ => True.intro⟩
    | some file => exact ⟨rfl, fun _ _ => ⟨True.intro, fun _ _ _ _ => True.intro⟩⟩
  exact unmoved_bind hsync fun _ => unmoved_of_plain (plain_pure _)

/-- Only `Tread` and `Twrite` move open files. -/
theorem unmoved_of_route {realroot : PathBuf} {fids : FidTable} {aux : ObjId} {body : Fcall}
    {handler : UnpfsHandler Fcall} (hbody : body.position = none)
    (hroute : route (Unpfs realroot) fids (newFid body aux) body = .ok handler) :
    UsesUnmoved handler := by
  cases routed_of_route hroute with
  | rread | rwrite => cases hbody
  | rlopen flags hb => exact unmoved_rlopen _ flags
  | rlcreate name flags mode gid hb => exact unmoved_rlcreate _ name flags mode gid
  | rsetattr valid stat hb => exact unmoved_rsetattr _ valid stat
  | rfsync hb => exact unmoved_rfsync _
  | rstatfs hb =>
    apply unmoved_of_plain
    refine plain_bind (plain_realpath _) fun path => ?_
    exact plain_bind (plain_liftNix ⟨True.intro, fun _ _ => True.intro⟩) fun fs => plain_pure _
  | rreadlink hb =>
    apply unmoved_of_plain
    refine plain_bind (plain_withRealpath _ fun path => ?_) fun link => plain_pure _
    exact plain_liftIo ⟨True.intro, fun _ _ => True.intro⟩
  | rgetattr reqMask hb =>
    apply unmoved_of_plain
    refine plain_bind (plain_withRealpath _ fun path => ?_) fun attr => plain_pure _
    exact plain_liftIo ⟨True.intro, fun _ _ => True.intro⟩
  | rreaddir offset count hb =>
    apply unmoved_of_plain
    refine plain_bind (plain_readdirStart offset) fun x => ?_
    refine plain_bind (plain_withRealpath _ fun path => ?_) fun entries => ?_
    · exact plain_liftIo ⟨True.intro, fun _ _ => True.intro⟩
    · exact plain_bind (plain_readdirLoop _ _ _ _) fun dirents => plain_pure _
  | rmkdir name mode gid hb =>
    apply unmoved_of_plain
    refine plain_bind (plain_realpath _) fun path => ?_
    refine plain_bind (plain_liftIo ⟨True.intro, fun _ _ => True.intro⟩) fun _ => ?_
    exact plain_bind (plain_getQid _) fun qid => plain_pure _
  | rrenameat oldname newname hb hc =>
    apply unmoved_of_plain
    refine plain_bind (plain_realpath _) fun oldpath => ?_
    refine plain_bind (plain_realpath _) fun newpath => ?_
    exact plain_bind (plain_liftIo ⟨True.intro, fun _ _ => True.intro⟩) fun _ => plain_pure _
  | runlinkat name flags hb =>
    apply unmoved_of_plain
    refine plain_bind (plain_realpath _) fun path => ?_
    refine plain_bind (plain_liftIo ⟨True.intro, fun _ _ => True.intro⟩) fun attr => ?_
    dsimp only
    split_ifs
    · exact plain_bind (plain_liftIo ⟨True.intro, fun _ _ => True.intro⟩) fun _ => plain_pure _
    · exact plain_bind (plain_liftIo ⟨True.intro, fun _ _ => True.intro⟩) fun _ => plain_pure _
  | rattach fid afid uname aname nUname =>
    apply unmoved_of_plain
    refine plain_bind (plain_setRealpath _ _) fun _ => ?_
    exact plain_bind (plain_getQid _) fun qid => plain_pure _
  | rwalk newfid wnames hb =>
    apply unmoved_of_plain
    refine plain_bind (plain_realpath _) fun path => ?_
    refine plain_bind (plain_walkLoop wnames 0 path []) fun x => ?_
    exact plain_bind (plain_setRealpath _ _) fun _ => plain_pure _
  | rclunk hb => exact unmoved_of_plain (plain_pure _)
  | rversion msize version => exact unmoved_of_plain (plain_pure _)
  | unsupported => exact uses_throw _

end

theorem courses_governs (realroot : PathBuf) : courses.Governs (Unpfs realroot) where
  refused body e := ⟨rfl, fun _ => ⟨e, rfl⟩⟩
  routed := by
    intro Uses fids aux body handler huses hroute
    cases hbody : body.position with
    | none =>
      have hobeys : handler.run.Follows (Next Uses) _ (.free none) := obeys_of_route huses hroute
      have hunmoved : handler.run.Performs UnpfsOp.Unmoved (fun _ _ => True) _ :=
        unmoved_of_route hbody hroute
      have hembed : handler.run.Follows (Proceeds Uses body) _ (.other (.free none)) :=
        (hobeys.performs hunmoved).embed Course.other
          fun q o r q' h => .other q q' o r hbody h.2 h.1
      refine Follows.mono hembed fun v r hr => ?_
      obtain ⟨q, rfl, hq⟩ := hr
      refine ⟨?_, fun hsome => absurd hbody hsome⟩
      cases r with
      | ok response => exact released_of_answers hq
      | error e => exact hq
    | some offset =>
      cases routed_of_route hroute with
      | rread offset count hb => exact proceeds_rread (huses _ _ hb) _ offset count
      | rwrite offset data hb => exact proceeds_rwrite (huses _ _ hb) _ offset data
      | unsupported => exact ⟨rfl, fun _ => ⟨_, rfl⟩⟩
      | _ => cases hbody

end P9cpu.Ninep
