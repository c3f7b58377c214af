import P9cpu.Ninep.Conn
import P9cpu.Ninep.Replies

/-! One reply to each request of a connection that serves a host filesystem. -/
namespace P9cpu.Ninep
open Core
open Prog hiding bind

section
variable {W : World UnpfsOp UnpfsRes} {realroot : PathBuf}

/-- An operation of a task is answered so that its reply will fit in one frame. -/
def AnswersFit (s : Conn W) (l : Label W) : Prop :=
  ∀ i msg aux newfid o k r world, l = .run i →
    s.tasks[i]? = some ⟨msg, aux, .handling newfid (.op o k)⟩ →
    W.exec o s.world = some (r, world) → AnswerFits msg.body o r

/-- `Rlerror`, or the message whose type number is one more. -/
def Answers (body response : Fcall) : Prop :=
  (∃ ecode, response = .rlerror ecode) ∨ response.msgType.toU8 = body.msgType.toU8 + 1

/-- A response that passes the filter, the encoder and the codec. -/
structure Sendable (body response : Fcall) : Prop where
  answers : Answers body response
  isR : response.msgType.isR = true
  fits : 3 + response.wireFields.length ≤ maxFrameLen

theorem Replies.sendable {body response : Fcall} (h : Replies body response) :
    Sendable body response := ⟨.inr h.type, h.isR, h.fits⟩

theorem sendable_rlerrorOf (body : Fcall) (e : Error) : Sendable body (rlerrorOf e) := by
  refine ⟨.inl ⟨_, rfl⟩, rfl, ?_⟩
  simp [rlerrorOf, Fcall.wireFields, Fcall.encodeFields, maxFrameLen]

/-- What holds of a task wherever it is. -/
def Phase.Good (body : Fcall) : Phase UnpfsOp UnpfsRes → Prop
  | .received => True
  | .handling _ p => p.Ensures (AnswerFits body) (fun r => ∀ f, r = .ok f → Replies body f)
  | .clunking _ _ response => Sendable body response
  | .inserting _ response => Sendable body response
  | .replying response => Sendable body response
  | .done => True
  | .panicked => False

structure Conn.Good (s : Conn W) : Prop where
  vecLen : s.All (fun msg _ _ => msg.body.vecLen ≤ 65535)
  phase : s.All (fun msg _ p => p.Good msg.body)
  nodup : (s.written.map Prod.fst).Nodup
  sent : ∀ i, i ∈ s.written.map Prod.fst ↔ ∃ msg aux, s.tasks[i]? = some ⟨msg, aux, .done⟩
  reply : ∀ i m, (i, m) ∈ s.written →
    ∃ msg, (s.tasks.map Task.msg)[i]? = some msg ∧ m.tag = msg.tag ∧ Answers msg.body m.body

theorem good_afterHandler {body response : Fcall} (newfid : Option Fid)
    (h : Sendable body response) : (afterHandler body newfid response).Good body := by
  have hafter : (afterClunk newfid response).Good body := by
    cases newfid <;> exact h
  cases body with
  | tclunk fid => exact h
  | _ => exact hafter

theorem length_wire_msg (m : Msg) : (wire m).length = 3 + m.body.wireFields.length := by
  change (wire m.body.msgType.toU8 ++ wire m.tag ++ m.body.wireFields).length = _
  rw [List.length_append, List.length_append, length_wire_uint8, length_wire_uint16]

/-- A step of one task leads to a good phase; only `send` makes it `done`. -/
theorem taskStep_good {s u : Conn W} {i : ℕ} {msg : Msg} {aux : ObjId} {l : Label W}
    {p q : Phase UnpfsOp UnpfsRes} (h : TaskStep (Unpfs realroot) s i msg aux l p q u)
    (hv : msg.body.vecLen ≤ 65535) (hp : p.Good msg.body)
    (hfit : ∀ newfid o k r world, l = .run i → p = .handling newfid (.op o k) →
      W.exec o s.world = some (r, world) → AnswerFits msg.body o r) :
    q.Good msg.body ∧ p ≠ .done ∧ u.tasks = s.tasks ∧
      (q ≠ .done ∧ u.written = s.written ∨ q = .done ∧ ∃ response, Sendable msg.body response ∧
        u.written = s.written ++ [(i, ⟨msg.tag, response⟩)]) := by
  cases h with
  | routed handler hroute =>
    have hret : Returns (AnswerFits msg.body) (Replies msg.body) handler :=
      route_replies realroot s.fids _ hv hroute
    exact ⟨hret, by simp, rfl, .inl ⟨by simp, rfl⟩⟩
  | refused e hroute =>
    exact ⟨sendable_rlerrorOf msg.body e, by simp, rfl, .inl ⟨by simp, rfl⟩⟩
  | ran newfid o k r world hexec =>
    have hnext := hp r (hfit newfid o k r world rfl rfl hexec)
    exact ⟨hnext, by simp, rfl, .inl ⟨by simp, rfl⟩⟩
  | failed newfid e =>
    exact ⟨sendable_rlerrorOf msg.body e, by simp, rfl, .inl ⟨by simp, rfl⟩⟩
  | handled newfid response =>
    have hr : Replies msg.body response := hp response rfl
    refine ⟨good_afterHandler newfid hr.sendable, by simp, rfl, .inl ⟨?_, rfl⟩⟩
    cases hb : msg.body <;> cases newfid <;> simp [afterHandler, afterClunk]
  | clunked fid newfid response hu =>
    have hgood : (afterClunk newfid response).Good msg.body := by
      cases newfid <;> exact hp
    refine ⟨hgood, by simp, rfl, .inl ⟨?_, rfl⟩⟩
    cases newfid <;> simp [afterClunk]
  | inserted newfid response hu => exact ⟨hp, by simp, rfl, .inl ⟨by simp, rfl⟩⟩
  | skipped response hr =>
    have hs : Sendable msg.body response := hp
    rw [hs.isR] at hr
    cases hr
  | sent response hr hlen =>
    exact ⟨trivial, by simp, rfl, .inr ⟨rfl, response, hp, rfl⟩⟩
  | tooLong response hr hlen =>
    have hs : Sendable msg.body response := hp
    rw [length_wire_msg] at hlen
    exact absurd hs.fits (not_le.mpr hlen)

theorem good_spawn {s : Conn W} (hs : s.Good) {msg : Msg} (hm : msg.body.vecLen ≤ 65535) :
    (s.spawn msg).Good := by
  refine ⟨hs.vecLen.spawn hm, hs.phase.spawn trivial, hs.nodup, ?_, ?_⟩
  · intro i
    rw [show (s.spawn msg).written = s.written from rfl, hs.sent i]
    constructor
    · rintro ⟨m, aux, ht⟩
      exact ⟨m, aux, Conn.task_spawn msg ht⟩
    · rintro ⟨m, aux, ht⟩
      obtain ht | ⟨-, -, -, hp⟩ := Conn.spawn_task ht
      · exact ⟨m, aux, ht⟩
      · cases hp
  · intro i m h
    obtain ⟨msg', hmsg, hreply⟩ := hs.reply i m h
    refine ⟨msg', ?_, hreply⟩
    rw [Conn.spawn, List.map_append, List.getElem?_append_left
      (List.getElem?_eq_some_iff.mp hmsg).1, hmsg]

theorem good_setPhase {s u : Conn W} (hs : s.Good) {i : ℕ} {msg : Msg} {aux : ObjId}
    {p q : Phase UnpfsOp UnpfsRes} (ht : s.tasks[i]? = some ⟨msg, aux, p⟩)
    (hq : q.Good msg.body) (hp : p ≠ .done) (htasks : u.tasks = s.tasks)
    (hw : q ≠ .done ∧ u.written = s.written ∨ q = .done ∧ ∃ response, Sendable msg.body response ∧
      u.written = s.written ++ [(i, ⟨msg.tag, response⟩)]) : (u.setPhase i q).Good := by
  have hi : (u.setPhase i q).tasks[i]? = some ⟨msg, aux, q⟩ := Conn.setPhase_task_self htasks ht
  have hj : ∀ j, i ≠ j → (u.setPhase i q).tasks[j]? = s.tasks[j]? :=
    fun j hij => Conn.setPhase_task_of_ne q htasks hij
  have hmsgs : (u.setPhase i q).tasks.map Task.msg = s.tasks.map Task.msg := by
    rw [setPhase_map_msg, htasks]
  have hfresh : i ∉ s.written.map Prod.fst := by
    rw [hs.sent i]
    rintro ⟨m, a, hd⟩
    rw [ht] at hd
    cases hd
    exact hp rfl
  have hmsg : (s.tasks.map Task.msg)[i]? = some msg := by simp [ht]
  refine ⟨hs.vecLen.setPhase htasks ht (hs.vecLen i msg aux p ht),
    hs.phase.setPhase htasks ht hq, ?_, ?_, ?_⟩
  · obtain ⟨-, hw⟩ | ⟨-, response, -, hw⟩ := hw
    · rw [Conn.setPhase_written, hw]
      exact hs.nodup
    · rw [Conn.setPhase_written, hw, List.map_append, List.nodup_append]
      refine ⟨hs.nodup, by simp, ?_⟩
      rintro a ha b hb rfl
      obtain rfl : a = i := by simpa using hb
      exact hfresh ha
  · intro j
    obtain ⟨hqd, hw⟩ | ⟨rfl, response, -, hw⟩ := hw
    · rw [Conn.setPhase_written, hw]
      by_cases hij : i = j
      · subst hij
        rw [hi]
        simp [hfresh, hqd]
      · rw [hj j hij]
        exact hs.sent j
    · rw [Conn.setPhase_written, hw]
      by_cases hij : i = j
      · subst hij
        rw [hi]
        simp
      · rw [hj j hij, ← hs.sent j]
        simp [Ne.symm hij]
  · intro j m h
    rw [hmsgs]
    obtain ⟨-, hw⟩ | ⟨-, response, hsend, hw⟩ := hw
    · rw [Conn.setPhase_written, hw] at h
      exact hs.reply j m h
    · rw [Conn.setPhase_written, hw, List.mem_append] at h
      obtain h | h := h
      · exact hs.reply j m h
      · obtain ⟨rfl, rfl⟩ : j = i ∧ m = ⟨msg.tag, response⟩ := by simpa using h
        exact ⟨msg, hmsg, rfl, hsend.answers⟩

theorem good_step (s : Conn W) (l : Label W) (t : Conn W) (hs : s.Good) (hfit : AnswersFit s l)
    (h : step (Unpfs realroot) s l = some t) : t.Good := by
  cases connStep_of_step h with
  | spawned frame msg rest hr hm => exact good_spawn hs (vecLen_of_readMsg hm)
  | undecodable frame e hm => exact ⟨hs.vecLen, hs.phase, hs.nodup, hs.sent, hs.reply⟩
  | hungUp => exact ⟨hs.vecLen, hs.phase, hs.nodup, hs.sent, hs.reply⟩
  | ticked e world hw => exact ⟨hs.vecLen, hs.phase, hs.nodup, hs.sent, hs.reply⟩
  | task i msg aux p q l u ht hstep =>
    have hfit' : ∀ newfid o k r world, l = .run i → p = .handling newfid (.op o k) →
        W.exec o s.world = some (r, world) → AnswerFits msg.body o r := by
      rintro newfid o k r world rfl rfl hexec
      exact hfit i msg aux newfid o k r world rfl ht hexec
    obtain ⟨hq, hp, htasks, hw⟩ :=
      taskStep_good hstep (hs.vecLen i msg aux p ht) (hs.phase i msg aux p ht) hfit'
    exact good_setPhase hs ht hq hp htasks hw

theorem good_start (fids : FidTable) (nextAux : ObjId) (world : W.State) :
    (Conn.start fids nextAux world).Good := by
  refine ⟨?_, ?_, List.nodup_nil, ?_, ?_⟩ <;> simp [Conn.start, Conn.All]

end

/-! A host with one directory, whose listing can be too long for a frame. -/

def attrOf (fileType : FileType) (ino : UInt64) : Metadata :=
  ⟨1, ino, fileType, 0o755, 0, 0, 1, 0, 0, 4096, 0, 0, 0, 0, 0, 0, 0⟩

/-- A host with the one directory `/`. It lists `names`, which are regular files, and refuses
everything else. -/
def listingHost (names : List (List UInt8)) : (o : HostOp) → HostRes o
  | .symlinkMetadata _ | .metadata _ => .ok (attrOf .dir 2)
  | .readDir _ => .ok (names.map (fun name => .ok ⟨0, name⟩))
  | .entryMetadata _ => .ok (attrOf .file 3)
  | .chown .. | .statvfs _ => .error Errno.EPERM
  | .open .. => .error Errno.EISDIR
  | .openWrite _ | .readLink _ | .seek .. | .read .. | .write .. | .setPermissions .. | .setLen ..
  | .setFileTimes .. | .syncAll _ | .createDir _ | .rename .. | .removeDir _ | .removeFile _ =>
    .error (.os 1)

def listingExec (names : List (List UInt8)) (o : UnpfsOp) (s : Unit) :
    Option (UnpfsRes o × Unit) :=
  some (match o with
    | .realpathRead _ => ⟨[0x2f]⟩
    | .fileLock _ => none
    | .realpathUnread _ | .realpathWrite .. | .fileSet .. | .fileUnlock _ => ()
    | .host o => listingHost names o, s)

def listingWorld (names : List (List UInt8)) : World UnpfsOp UnpfsRes where
  State := Unit
  Event := Empty
  create _ s := s
  exec := listingExec names
  tick e _ := nomatch e

/-- The codec refuses a longer frame, and the `unwrap` of its error ends the task. -/
theorem step_send_of_tooLong {Op : Type} {Res : Op → Type} {W : World Op Res}
    {fs : Filesystem Op Res} {s : Conn W} {i : ℕ} {msg : Msg} {aux : ObjId} {response : Fcall}
    (ht : s.tasks[i]? = some ⟨msg, aux, .replying response⟩)
    (hr : response.msgType.isR = true)
    (hlong : maxFrameLen < (wire (⟨msg.tag, response⟩ : Msg)).length) :
    step fs s (.send i) = some (s.setPhase i .panicked) := by
  simp only [step, ht, hr, if_true, writeMsg_vec, List.nil_append, if_pos hlong]

theorem readdirLoop_listing (names : List (List UInt8)) (count : UInt32)
    (es : List HostDirEntry) (i : ℕ) (dirents : DirEntryData)
    (hfit : dirents.len + (es.map HostDirEntry.len).sum ≤ count.toNat) :
    ∃ d, (Unpfs.readdirLoop count (es.map .ok) i dirents).run.run? (listingExec names) () =
        some (.ok d, ()) ∧ d.len = dirents.len + (es.map HostDirEntry.len).sum := by
  induction es generalizing i dirents with
  | nil => exact ⟨dirents, rfl, rfl⟩
  | cons e es ih =>
    simp only [List.map_cons, List.sum_cons] at hfit ⊢
    let dirent : DirEntry :=
      ⟨qidFromAttr (attrOf .file 3), UInt64.ofNat (2 + i), 0, fromUtf8Lossy e.fileName⟩
    have hcount := count.toNat_lt
    have hsum : (dirents.size + dirent.size).toNat = dirents.len + e.len := by
      rw [DirEntryData.size_eq, DirEntry.size_eq, ← UInt32.ofNat_add, UInt32.toNat_ofNat']
      refine Nat.mod_eq_of_lt ?_
      change dirents.len + e.len < 2 ^ 32
      omega
    have hle : ¬ count < dirents.size + dirent.size := by
      rw [UInt32.lt_iff_toNat_lt, hsum]
      omega
    have hpush : (dirents.push dirent).len = dirents.len + e.len := DirEntryData.len_push _ _
    obtain ⟨d, hrun, hlen⟩ := ih (i + 1) (dirents.push dirent) (by omega)
    refine ⟨d, ?_, by omega⟩
    have hloop : (Unpfs.readdirLoop count (.ok e :: es.map .ok) i dirents).run.run?
        (listingExec names) () =
          (if count < dirents.size + dirent.size then pure dirents
            else Unpfs.readdirLoop count (es.map .ok) (i + 1) (dirents.push dirent) :
            UnpfsHandler DirEntryData).run.run? (listingExec names) () := rfl
    rw [hloop, if_neg hle, hrun]

theorem rreaddir_listing (names : List (List UInt8)) (fid : Fid) (count : UInt32)
    (hfit : 51 + (names.map (fun name => direntLen (fromUtf8Lossy name))).sum ≤ count.toNat) :
    ∃ d, (Unpfs.rreaddir fid 0 count).run.run? (listingExec names) () =
        some (.ok (.rreaddir d), ()) ∧
      d.len = 51 + (names.map (fun name => direntLen (fromUtf8Lossy name))).sum := by
  let es : List HostDirEntry := names.map (fun name => ⟨0, name⟩)
  have hes : es.map HostDirEntry.len = names.map (fun name => direntLen (fromUtf8Lossy name)) := by
    rw [List.map_map]
    rfl
  let dot : DirEntry := ⟨qidFromAttr (attrOf .dir 2), 0, 0, "."⟩
  let dots : DirEntry := ⟨qidFromAttr (attrOf .dir 2), 1, 0, ".."⟩
  let start := (DirEntryData.new.push dot).push dots
  have hstart : start.len = 51 := by decide
  obtain ⟨d, hrun, hlen⟩ := readdirLoop_listing names count es 0 start
    (by rw [hstart, hes]; exact hfit)
  refine ⟨d, ?_, by rw [hlen, hstart, hes]⟩
  have hhandler : (Unpfs.rreaddir fid 0 count).run.run? (listingExec names) () =
      (do
        let dirents ← Unpfs.readdirLoop count (es.map .ok) 0 start
        return .rreaddir dirents : UnpfsHandler Fcall).run.run? (listingExec names) () := by
    have hnames : es.map Except.ok = names.map (fun name => (.ok ⟨0, name⟩ : Except IoError _)) := by
      rw [List.map_map]
      rfl
    rw [hnames]
    rfl
  rw [hhandler, ExceptT.run_bind, run?_bind, hrun]
  rfl

/-- A name of 255 bytes that ends in the five digits of `i`. -/
def longName (i : ℕ) : List UInt8 :=
  List.replicate 250 0x61 ++
    [10000, 1000, 100, 10, 1].map (fun d => UInt8.ofNat (0x30 + i / d % 10))

def longNames : List (List UInt8) := (List.range 30100).map longName

theorem longName_len (i : ℕ) : direntLen (fromUtf8Lossy (longName i)) = 279 := by
  have hascii : ∀ b ∈ longName i, b < 0x80 := by
    intro b hb
    simp only [longName, List.mem_append, List.mem_replicate, List.mem_map] at hb
    obtain ⟨-, rfl⟩ | ⟨d, -, rfl⟩ := hb
    · decide
    · rw [UInt8.lt_iff_toNat_lt, UInt8.toNat_ofNat']
      have : (0x80 : UInt8).toNat = 128 := rfl
      omega
  rw [direntLen, utf8ByteSize_fromUtf8Lossy _ hascii, longName, List.length_append,
    List.length_replicate, List.length_map]
  rfl

theorem longNames_len : (longNames.map (fun name => direntLen (fromUtf8Lossy name))).sum =
    30100 * 279 := by
  rw [longNames, List.map_map]
  have hconst : (List.range 30100).map ((fun name => direntLen (fromUtf8Lossy name)) ∘ longName) =
      (List.range 30100).map (fun _ => 279) :=
    List.map_congr_left fun i _ => longName_len i
  rw [hconst, List.map_const', List.sum_replicate_nat, List.length_range]

section
variable {W : World UnpfsOp UnpfsRes} {realroot : PathBuf}

end

def versionFrame : List UInt8 :=
  [100, 0xff, 0xff, 0, 0x20, 0, 0, 8, 0, 0x39, 0x50, 0x32, 0x30, 0x30, 0x30, 0x2e, 0x4c]

end P9cpu.Ninep
