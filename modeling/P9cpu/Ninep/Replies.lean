import P9cpu.Ninep.Conn
import P9cpu.Ninep.Unpfs
import P9cpu.Ninep.Lengths

/-! What the handlers of the host filesystem return and how long their replies are. -/
namespace P9cpu.Ninep
open Core
open Prog hiding bind

section
variable {C : (o : UnpfsOp) → UnpfsRes o → Prop} {α β : Type} {Q : α → Prop}

/-! Rules for the blocks that handlers are made of. -/

theorem returns_liftIo (p : UnpfsProg (Except IoError α)) :
    Returns C Q (liftIo p) ↔ p.Ensures C (fun r => ∀ a, r = .ok a → Q a) := by
  simp only [Returns, liftIo, ExceptT.run_mk, ensures_map]
  refine ensures_congr (fun r => ?_) p
  cases r with
  | ok a => simp [Except.mapError]
  | error e => simp [Except.mapError]

theorem returns_withRealpath {fid : Fid} {body : PathBuf → UnpfsHandler α}
    (h : ∀ path, Returns C Q (body path)) : Returns C Q (withRealpath fid body) := by
  simp only [Returns, withRealpath, ExceptT.run_mk, ensures_bind]
  intro path _
  rw [ensures_ret]
  exact Ensures.mono (h path) fun r hr => ensures_of_forall (fun _ => hr) _

theorem returns_withFile {fid : Fid} {body : FileId → UnpfsHandler α}
    (h : ∀ file, Returns C Q (body file)) : Returns C Q (withFile fid body) := by
  simp only [Returns, withFile, ExceptT.run_mk, ensures_bind]
  intro file _
  rw [ensures_ret]
  cases file with
  | some file => exact Ensures.mono (h file) fun r hr => ensures_of_forall (fun _ => hr) _
  | none =>
    have hthrow : Returns C Q (throw (Error.io INVALID_FID) : UnpfsHandler α) := returns_throw _
    exact Ensures.mono hthrow fun r hr => ensures_of_forall (fun _ => hr) _

end

/-! Listings. -/

def HostDirEntry.len (e : HostDirEntry) : ℕ := direntLen (fromUtf8Lossy e.fileName)

/-- The bytes of `.` and `..`, with which a listing starts. -/
def dotsLen (off : UInt64) : ℕ := if off = 0 then direntLen "." + direntLen ".." else 0

/-- The entries that a request with this offset starts from. -/
def skipped (off : UInt64) : ℕ := if off = 0 then 0 else (off - 1).toNat

/-- No page of the listing that the count lets through is too long for a frame. A name has
at most 65535 bytes, as on every host. -/
structure ListingFits (off : UInt64) (count : UInt32)
    (entries : List (Except IoError HostDirEntry)) : Prop where
  names : ∀ entry, .ok entry ∈ entries → (fromUtf8Lossy entry.fileName).utf8ByteSize ≤ 65535
  pages : ∀ page : List HostDirEntry, page.map .ok <+: entries.drop (skipped off) →
    dotsLen off + (page.map HostDirEntry.len).sum ≤ count.toNat →
    7 + (dotsLen off + (page.map HostDirEntry.len).sum) ≤ maxFrameLen

/-- The results of host calls that leave room for the reply to `body` in one frame. -/
def AnswerFits (body : Fcall) : (o : UnpfsOp) → UnpfsRes o → Prop
  | .host (.read ..), .ok bytes => 7 + bytes.val.length ≤ maxFrameLen
  | .host (.readLink _), .ok link => 5 + link.toStringLossy.utf8ByteSize ≤ maxFrameLen
  | .host (.readDir _), .ok entries =>
    match body with
    | .treaddir _ off count => ListingFits off count entries
    | _ => True
  | _, _ => True

/-- A reply of the type that belongs to the request and that fits in one frame. -/
structure Replies (body response : Fcall) : Prop where
  type : response.msgType.toU8 = body.msgType.toU8 + 1
  isR : response.msgType.isR = true
  fits : 3 + response.wireFields.length ≤ maxFrameLen

theorem returns_getDirent {C : (o : UnpfsOp) → UnpfsRes o → Prop} (entry : HostDirEntry)
    (offset : UInt64) :
    Returns C (fun d => d.name = fromUtf8Lossy entry.fileName) (getDirent entry offset) := by
  refine returns_bind_of_forall (fun attr => ?_) _
  rw [returns_pure]

theorem returns_getDirentFrom {C : (o : UnpfsOp) → UnpfsRes o → Prop} (path : PathBuf)
    (offset : UInt64) :
    Returns C (fun d => d.name = path.toStringLossy) (getDirentFrom path offset) := by
  refine returns_bind_of_forall (fun qid => ?_) _
  rw [returns_pure]

theorem returns_readdirLoop {C : (o : UnpfsOp) → UnpfsRes o → Prop} (count : UInt32)
    (entries : List (Except IoError HostDirEntry)) (i : ℕ) (dirents : DirEntryData)
    (hnames : ∀ entry, .ok entry ∈ entries → (fromUtf8Lossy entry.fileName).utf8ByteSize ≤ 65535)
    (hpages : ∀ page : List HostDirEntry, page.map .ok <+: entries →
      dirents.len + (page.map HostDirEntry.len).sum ≤ count.toNat →
      7 + (dirents.len + (page.map HostDirEntry.len).sum) ≤ maxFrameLen)
    (hlen : 7 + dirents.len ≤ maxFrameLen) :
    Returns C (fun d => 7 + d.len ≤ maxFrameLen)
      (Unpfs.readdirLoop count entries i dirents) := by
  induction entries generalizing i dirents with
  | nil => exact (returns_pure _).mpr hlen
  | cons entry entries ih =>
    rw [Unpfs.readdirLoop, returns_bind, returns_liftIo]
    rintro e rfl
    rw [returns_bind]
    refine (returns_getDirent e _).mono fun dirent hname => ?_
    have hsize := hnames e (by simp)
    have hone := hpages [e] (by simp)
    simp only [List.map_cons, List.map_nil, List.sum_cons, List.sum_nil, Nat.add_zero,
      HostDirEntry.len, ← hname] at hone
    rw [← hname] at hsize
    -- the sum in `u32` is exact: the page fits a frame and the name is short
    have hsum : (dirents.size + dirent.size).toNat = dirents.len + direntLen dirent.name := by
      rw [DirEntryData.size_eq, DirEntry.size_eq, ← UInt32.ofNat_add, UInt32.toNat_ofNat']
      refine Nat.mod_eq_of_lt ?_
      simp only [direntLen, maxFrameLen] at *
      omega
    split_ifs with hcount
    · exact (returns_pure _).mpr hlen
    · rw [UInt32.lt_iff_toNat_lt, hsum, not_lt] at hcount
      refine ih (i + 1) (dirents.push dirent) (fun entry h => hnames entry (by simp [h])) ?_ ?_
      · intro page hpage hfit
        have hlonger := hpages (e :: page) (by simpa using hpage)
        simp only [List.map_cons, List.sum_cons, HostDirEntry.len, ← hname] at hlonger
        simp only [DirEntryData.len_push] at hfit ⊢
        omega
      · rw [DirEntryData.len_push]
        exact hone hcount

/-- The loop of `rwalk` adds at most one qid for each name. -/
theorem returns_walkLoop {C : (o : UnpfsOp) → UnpfsRes o → Prop} (wnames : List String) (i : ℕ)
    (path : PathBuf) (wqids : List Qid) :
    Returns C (fun x => x.2.length ≤ wqids.length + wnames.length)
      (Unpfs.walkLoop wnames i path wqids) := by
  induction wnames generalizing i path wqids with
  | nil => simp [Unpfs.walkLoop]
  | cons name wnames ih =>
    rw [Unpfs.walkLoop]
    refine returns_bind_of_forall (fun r => ?_) _
    cases r with
    | ok qid =>
      refine (ih (i + 1) (path.push name) (wqids ++ [qid])).mono fun x hx => ?_
      simp only [List.length_append, List.length_cons, List.length_nil] at hx ⊢
      omega
    | error e =>
      dsimp only
      split_ifs
      · exact returns_throw e
      · simp

/-! Handlers. -/

section
variable {C : (o : UnpfsOp) → UnpfsRes o → Prop} {body : Fcall}

/-- Replies of a short fixed length. -/
theorem returns_reply {response : Fcall}
    (ht : response.msgType.toU8 = body.msgType.toU8 + 1) (hr : response.msgType.isR = true)
    (hl : response.wireFields.length ≤ 160) :
    Returns C (Replies body) (pure response : UnpfsHandler Fcall) := by
  rw [returns_pure]
  refine ⟨ht, hr, ?_⟩
  simp only [maxFrameLen]
  omega

theorem rread_replies (fid : Fid) (f : UInt32) (offset : UInt64) (count : UInt32) :
    Returns (AnswerFits (.tread f offset count)) (Replies (.tread f offset count))
      (Unpfs.rread fid offset count) := by
  rw [Unpfs.rread, returns_bind]
  refine returns_withFile fun file => ?_
  refine returns_bind_of_forall (fun _ => ?_) _
  rw [returns_bind, returns_liftIo]
  rintro r hr bytes rfl
  have hfits : 7 + bytes.val.length ≤ maxFrameLen := hr
  simp only [returns_pure]
  refine ⟨rfl, rfl, ?_⟩
  simp [Fcall.wireFields, Fcall.encodeFields]
  omega

theorem rreadlink_replies (fid : Fid) (f : UInt32) :
    Returns (AnswerFits (.treadlink f)) (Replies (.treadlink f)) (Unpfs.rreadlink fid) := by
  rw [Unpfs.rreadlink, returns_bind]
  refine returns_withRealpath fun path => ?_
  rw [returns_liftIo]
  rintro r hr link rfl
  have hfits : 5 + link.toStringLossy.utf8ByteSize ≤ maxFrameLen := hr
  rw [returns_pure]
  refine ⟨rfl, rfl, ?_⟩
  simp [Fcall.wireFields, Fcall.encodeFields]
  omega

theorem returns_readdirStart {C : (o : UnpfsOp) → UnpfsRes o → Prop} (offset : UInt64) :
    Returns C (fun x => x.1.len = dotsLen offset ∧ x.2 = skipped offset)
      (Unpfs.readdirStart offset) := by
  unfold Unpfs.readdirStart dotsLen skipped
  split_ifs with h0
  · rw [returns_bind]
    refine (returns_getDirentFrom _ _).mono fun dot hdot => ?_
    rw [returns_bind]
    refine (returns_getDirentFrom _ _).mono fun dots hdots => ?_
    have hdot' : dot.name = "." := hdot.trans (by decide)
    have hdots' : dots.name = ".." := hdots.trans (by decide)
    simp [hdot', hdots', h0]
  · simp

theorem rreaddir_replies (fid : Fid) (f : UInt32) (offset : UInt64) (count : UInt32) :
    Returns (AnswerFits (.treaddir f offset count)) (Replies (.treaddir f offset count))
      (Unpfs.rreaddir fid offset count) := by
  rw [Unpfs.rreaddir, returns_bind]
  refine (returns_readdirStart offset).mono fun x hx => ?_
  obtain ⟨dirents, skip⟩ := x
  obtain ⟨hlen, rfl⟩ := hx
  rw [returns_bind]
  refine returns_withRealpath fun path => ?_
  rw [returns_liftIo]
  rintro r hr entries rfl
  have hfits : ListingFits offset count entries := hr
  have hdots : dotsLen offset ≤ 51 := by
    unfold dotsLen
    split_ifs <;> decide
  rw [returns_bind]
  refine (returns_readdirLoop count _ _ dirents ?_ ?_ ?_).mono fun d hd => ?_
  · exact fun entry h => hfits.names entry (List.mem_of_mem_drop h)
  · rw [hlen]
    exact hfits.pages
  · rw [hlen, maxFrameLen]
    omega
  · rw [returns_pure]
    refine ⟨rfl, rfl, ?_⟩
    simp [Fcall.wireFields, Fcall.encodeFields, length_wire_dirents]
    omega

theorem rwalk_replies (fid newfid : Fid) (f g : UInt32) {wnames : List String}
    (h : wnames.length ≤ 65535) :
    Returns (AnswerFits (.twalk f g wnames)) (Replies (.twalk f g wnames))
      (Unpfs.rwalk fid newfid wnames) := by
  rw [Unpfs.rwalk]
  refine returns_bind_of_forall (fun path => ?_) _
  rw [returns_bind]
  refine (returns_walkLoop wnames 0 path []).mono fun x hx => ?_
  refine returns_bind_of_forall (fun _ => ?_) _
  rw [returns_pure]
  refine ⟨rfl, rfl, ?_⟩
  simp only [List.length_nil, Nat.zero_add] at hx
  simp [Fcall.wireFields, Fcall.encodeFields, length_wire_qids, maxFrameLen]
  omega

theorem rstatfs_replies (fid : Fid) (f : UInt32) :
    Returns C (Replies (.tstatfs f)) (Unpfs.rstatfs fid) := by
  refine returns_bind_of_forall (fun path => ?_) _
  refine returns_bind_of_forall (fun fs => ?_) _
  exact returns_reply rfl rfl (by simp [Fcall.wireFields, Fcall.encodeFields])

theorem rlopen_replies (fid : Fid) (f flags : UInt32) :
    Returns C (Replies (.tlopen f flags)) (Unpfs.rlopen fid flags) := by
  have hreply : ∀ (qid : Qid) (_ : Unit), Returns C (Replies (.tlopen f flags))
      (pure (.rlopen qid 0) : UnpfsHandler Fcall) :=
    fun _ _ => returns_reply rfl rfl (by simp [Fcall.wireFields, Fcall.encodeFields])
  refine returns_bind_of_forall (fun path => ?_) _
  refine returns_bind_of_forall (fun qid => ?_) _
  dsimp only
  split_ifs
  · refine returns_bind_of_forall (fun fd => ?_) _
    exact returns_bind_of_forall (hreply qid) _
  · exact hreply qid ()

theorem rlcreate_replies (fid : Fid) (f : UInt32) (name : String) (flags mode gid : UInt32) :
    Returns C (Replies (.tlcreate f name flags mode gid))
      (Unpfs.rlcreate fid name flags mode gid) := by
  refine returns_bind_of_forall (fun path => ?_) _
  refine returns_bind_of_forall (fun fd => ?_) _
  refine returns_bind_of_forall (fun qid => ?_) _
  refine returns_bind_of_forall (fun _ => ?_) _
  refine returns_bind_of_forall (fun _ => ?_) _
  exact returns_reply rfl rfl (by simp [Fcall.wireFields, Fcall.encodeFields])

theorem rgetattr_replies (fid : Fid) (f : UInt32) (reqMask : GetattrMask) :
    Returns C (Replies (.tgetattr f reqMask)) (Unpfs.rgetattr fid reqMask) := by
  refine returns_bind_of_forall (fun attr => ?_) _
  exact returns_reply rfl rfl (by simp [Fcall.wireFields, Fcall.encodeFields])

theorem rsetattr_replies (fid : Fid) (f : UInt32) (valid : SetattrMask) (stat : SetAttr) :
    Returns C (Replies (.tsetattr f valid stat)) (Unpfs.rsetattr fid valid stat) := by
  refine returns_bind_of_forall (fun filepath => ?_) _
  refine returns_bind_of_forall (fun _ => ?_) _
  refine returns_bind_of_forall (fun _ => ?_) _
  refine returns_bind_of_forall (fun _ => ?_) _
  refine returns_bind_of_forall (fun _ => ?_) _
  exact returns_reply rfl rfl (by simp [Fcall.wireFields, Fcall.encodeFields])

theorem rfsync_replies (fid : Fid) (f : UInt32) :
    Returns C (Replies (.tfsync f)) (Unpfs.rfsync fid) := by
  refine returns_bind_of_forall (fun _ => ?_) _
  exact returns_reply rfl rfl (by simp [Fcall.wireFields, Fcall.encodeFields])

theorem rmkdir_replies (dfid : Fid) (f : UInt32) (name : String) (mode gid : UInt32) :
    Returns C (Replies (.tmkdir f name mode gid)) (Unpfs.rmkdir dfid name mode gid) := by
  refine returns_bind_of_forall (fun path => ?_) _
  refine returns_bind_of_forall (fun _ => ?_) _
  refine returns_bind_of_forall (fun qid => ?_) _
  exact returns_reply rfl rfl (by simp [Fcall.wireFields, Fcall.encodeFields])

theorem rrenameat_replies (olddir newdir : Fid) (f g : UInt32) (oldname newname : String) :
    Returns C (Replies (.trenameat f oldname g newname))
      (Unpfs.rrenameat olddir oldname newdir newname) := by
  refine returns_bind_of_forall (fun oldpath => ?_) _
  refine returns_bind_of_forall (fun newpath => ?_) _
  refine returns_bind_of_forall (fun _ => ?_) _
  exact returns_reply rfl rfl (by simp [Fcall.wireFields, Fcall.encodeFields])

theorem runlinkat_replies (dirfid : Fid) (f : UInt32) (name : String) (flags : UInt32) :
    Returns C (Replies (.tunlinkat f name flags)) (Unpfs.runlinkat dirfid name flags) := by
  have hreply : ∀ _ : Unit, Returns C (Replies (.tunlinkat f name flags))
      (pure .runlinkat : UnpfsHandler Fcall) :=
    fun _ => returns_reply rfl rfl (by simp [Fcall.wireFields, Fcall.encodeFields])
  refine returns_bind_of_forall (fun path => ?_) _
  refine returns_bind_of_forall (fun attr => ?_) _
  dsimp only
  split_ifs
  · exact returns_bind_of_forall hreply _
  · exact returns_bind_of_forall hreply _

theorem rattach_replies (realroot : PathBuf) (fid : Fid) (f afid : UInt32) (uname aname : String)
    (nUname : UInt32) :
    Returns C (Replies (.tattach f afid uname aname nUname))
      (Unpfs.rattach realroot fid none uname aname nUname) := by
  refine returns_bind_of_forall (fun _ => ?_) _
  refine returns_bind_of_forall (fun qid => ?_) _
  exact returns_reply rfl rfl (by simp [Fcall.wireFields, Fcall.encodeFields])

theorem rwrite_replies (fid : Fid) (f : UInt32) (offset : UInt64) (data : Data) :
    Returns C (Replies (.twrite f offset data)) (Unpfs.rwrite fid offset data) := by
  refine returns_bind_of_forall (fun count => ?_) _
  exact returns_reply rfl rfl (by simp [Fcall.wireFields, Fcall.encodeFields])

theorem rclunk_replies (fid : Fid) (f : UInt32) :
    Returns C (Replies (.tclunk f)) (Unpfs.rclunk fid) := by
  exact returns_reply rfl rfl (by simp [Fcall.wireFields, Fcall.encodeFields])

theorem rversion_replies (msize : UInt32) (version : String) :
    Returns C (Replies (.tversion msize version))
      (({} : Filesystem UnpfsOp UnpfsRes).rversion msize version) := by
  refine returns_reply rfl rfl ?_
  simp [Fcall.wireFields, Fcall.encodeFields]
  split_ifs with hv
  · rw [hv]
    decide
  · decide

end

/-- Whatever the handler of a request returns is the reply of its type, in one frame. -/
theorem route_replies (realroot : PathBuf) (fids : FidTable) (newfid : Option Fid) {body : Fcall}
    (hvec : body.vecLen ≤ 65535) {handler : UnpfsHandler Fcall}
    (h : route (Unpfs realroot) fids newfid body = .ok handler) :
    Returns (AnswerFits body) (Replies body) handler := by
  cases body with
  | tstatfs fid =>
    obtain ⟨f, -, h⟩ := bind_eq_ok.mp h
    cases h
    exact rstatfs_replies f fid
  | tlopen fid flags =>
    obtain ⟨f, -, h⟩ := bind_eq_ok.mp h
    cases h
    exact rlopen_replies f fid flags
  | tlcreate fid name flags mode gid =>
    obtain ⟨f, -, h⟩ := bind_eq_ok.mp h
    cases h
    exact rlcreate_replies f fid name flags mode gid
  | treadlink fid =>
    obtain ⟨f, -, h⟩ := bind_eq_ok.mp h
    cases h
    exact rreadlink_replies f fid
  | tgetattr fid reqMask =>
    obtain ⟨f, -, h⟩ := bind_eq_ok.mp h
    cases h
    exact rgetattr_replies f fid reqMask
  | tsetattr fid valid stat =>
    obtain ⟨f, -, h⟩ := bind_eq_ok.mp h
    cases h
    exact rsetattr_replies f fid valid stat
  | treaddir fid offset count =>
    obtain ⟨f, -, h⟩ := bind_eq_ok.mp h
    cases h
    exact rreaddir_replies f fid offset count
  | tfsync fid =>
    obtain ⟨f, -, h⟩ := bind_eq_ok.mp h
    cases h
    exact rfsync_replies f fid
  | tmkdir dfid name mode gid =>
    obtain ⟨f, -, h⟩ := bind_eq_ok.mp h
    cases h
    exact rmkdir_replies f dfid name mode gid
  | trenameat olddirfid oldname newdirfid newname =>
    obtain ⟨f, -, h⟩ := bind_eq_ok.mp h
    obtain ⟨g, -, h⟩ := bind_eq_ok.mp h
    cases h
    exact rrenameat_replies f g olddirfid newdirfid oldname newname
  | tunlinkat dirfd name flags =>
    obtain ⟨f, -, h⟩ := bind_eq_ok.mp h
    cases h
    exact runlinkat_replies f dirfd name flags
  | tattach fid afid uname aname nUname =>
    obtain ⟨f, -, h⟩ := bind_eq_ok.mp h
    cases h
    exact rattach_replies realroot f fid afid uname aname nUname
  | twalk fid newfid wnames =>
    obtain ⟨f, -, h⟩ := bind_eq_ok.mp h
    obtain ⟨g, -, h⟩ := bind_eq_ok.mp h
    cases h
    exact rwalk_replies f g fid newfid hvec
  | tread fid offset count =>
    obtain ⟨f, -, h⟩ := bind_eq_ok.mp h
    cases h
    exact rread_replies f fid offset count
  | twrite fid offset data =>
    obtain ⟨f, -, h⟩ := bind_eq_ok.mp h
    cases h
    exact rwrite_replies f fid offset data
  | tclunk fid =>
    obtain ⟨f, -, h⟩ := bind_eq_ok.mp h
    cases h
    exact rclunk_replies f fid
  | tversion msize version =>
    cases h
    exact rversion_replies msize version
  | tflush oldtag =>
    cases h
    exact returns_throw _
  | tauth | tsymlink | tmknod | txattrcreate | tlock | tgetlock | tremove =>
    -- not overridden: `EOPNOTSUPP`
    obtain ⟨f, -, h⟩ := bind_eq_ok.mp h
    cases h
    exact returns_throw _
  | trename | txattrwalk | tlink =>
    obtain ⟨f, -, h⟩ := bind_eq_ok.mp h
    obtain ⟨g, -, h⟩ := bind_eq_ok.mp h
    cases h
    exact returns_throw _
  | _ => exact absurd h (by simp [route])

end P9cpu.Ninep
