import P9cpu.Ninep.Serialize
import Mathlib.Tactic.SplitIfs

/-! What the encoder emits into a byte vector, and that the decoder reads it back. -/
namespace P9cpu.Ninep
open Core

/-- The byte string that `encode` appends to a vector and whose length it returns. -/
class Emits (α : Type) [Encodable α] where
  wire : α → List UInt8
  encode_wire : ∀ (x : α) (w : List UInt8),
    Encodable.encode x w = .ok ((wire x).length, w ++ wire x)

export Emits (wire encode_wire)

/-- Values whose wire image `decode` reads back. `Fits` bounds what is stored in a
length prefix. -/
class Decodes (α : Type) [Encodable α] [Decodable α] extends Emits α where
  Fits : α → Prop
  decode_wire : ∀ (x : α) (rest : List UInt8), Fits x → decode (wire x ++ rest) = .ok (x, rest)

export Decodes (Fits decode_wire)

section Encoder

variable {α : Type} [Encodable α] [Emits α]

@[simp] theorem encoder_shiftLeft (enc : Encoder (List UInt8)) (x : α) :
    enc <<< x = (.ok ⟨enc.writer ++ wire x, enc.bytes + (wire x).length⟩ :
      SResult (Encoder (List UInt8))) := by
  simp only [HShiftLeft.hShiftLeft, Encoder.encode, encode_wire]
  rfl

@[simp] theorem sresult_shiftLeft (enc : Encoder (List UInt8)) (x : α) :
    (.ok enc : SResult (Encoder (List UInt8))) <<< x =
      (.ok ⟨enc.writer ++ wire x, enc.bytes + (wire x).length⟩ :
        SResult (Encoder (List UInt8))) :=
  encoder_shiftLeft enc x

@[simp] theorem encoder_new (w : List UInt8) : Encoder.new w = ⟨w, 0⟩ := rfl

@[simp] theorem finish_ok (enc : Encoder (List UInt8)) :
    SResult.finish (.ok enc) = .ok (enc.bytes, enc.writer) := rfl

theorem foldl_shiftLeft (xs : List α) (enc : Encoder (List UInt8)) :
    xs.foldl (fun (acc : SResult (Encoder (List UInt8))) x => acc <<< x) (.ok enc) =
      .ok ⟨enc.writer ++ xs.flatMap wire, enc.bytes + (xs.flatMap wire).length⟩ := by
  induction xs generalizing enc with
  | nil => simp
  | cons x xs ih => simp [ih, Nat.add_assoc]

end Encoder

/-! Integers and byte strings. -/

theorem writeUInt_vec (w : List UInt8) (size val : ℕ) :
    writeUInt w size val = .ok ((leBytes size val).length, w ++ leBytes size val) := by
  simp only [length_leBytes]
  rfl

theorem reader_bind {α β : Type} (r : Reader IoError α) (f : α → Reader IoError β)
    (input : List UInt8) :
    (r >>= f) input = match r input with
      | .ok (a, rest) => f a rest
      | .error e => .error e := by
  change (r input).bind _ = _
  cases r input <;> rfl

theorem reader_map {α β : Type} (r : Reader IoError α) (f : α → β) (input : List UInt8) :
    (f <$> r) input = match r input with
      | .ok (a, rest) => .ok (f a, rest)
      | .error e => .error e := by
  change (r input).bind _ = _
  cases r input <;> rfl

theorem reads_readUInt (size : ℕ) {val : ℕ} (h : val < 256 ^ size) :
    Reads (readUInt size) (leBytes size val) val := by
  have hread := (reads_readExact unexpectedEof (leBytes size val)).map leVal
  rw [length_leBytes, leVal_leBytes_of_lt h] at hread
  exact hread

instance : Decodes UInt8 where
  wire x := leBytes 1 x.toNat
  encode_wire x w := writeUInt_vec w 1 x.toNat
  Fits _ := True
  decode_wire x rest _ := by
    have h := (reads_readUInt 1 x.toNat_lt).map UInt8.ofNat
    rw [UInt8.ofNat_toNat] at h
    exact h rest

instance : Decodes UInt16 where
  wire x := leBytes 2 x.toNat
  encode_wire x w := writeUInt_vec w 2 x.toNat
  Fits _ := True
  decode_wire x rest _ := by
    have h := (reads_readUInt 2 x.toNat_lt).map UInt16.ofNat
    rw [UInt16.ofNat_toNat] at h
    exact h rest

instance : Decodes UInt32 where
  wire x := leBytes 4 x.toNat
  encode_wire x w := writeUInt_vec w 4 x.toNat
  Fits _ := True
  decode_wire x rest _ := by
    have h := (reads_readUInt 4 x.toNat_lt).map UInt32.ofNat
    rw [UInt32.ofNat_toNat] at h
    exact h rest

instance : Decodes UInt64 where
  wire x := leBytes 8 x.toNat
  encode_wire x w := writeUInt_vec w 8 x.toNat
  Fits _ := True
  decode_wire x rest _ := by
    have h := (reads_readUInt 8 x.toNat_lt).map UInt64.ofNat
    rw [UInt64.ofNat_toNat] at h
    exact h rest

theorem length_strBytes (s : String) : (strBytes s).length = s.utf8ByteSize := by
  simp only [strBytes, String.utf8ByteSize, ByteArray.size, Array.length_toList]

theorem reads_fromUtf8 (s : String) : fromUtf8 (strBytes s) = pure s := by
  have hbytes : (⟨(strBytes s).toArray⟩ : ByteArray) = s.toByteArray := by
    simp only [strBytes, Array.toArray_toList]
  simp only [fromUtf8, hbytes, String.fromUTF8?, dif_pos s.isValidUTF8]
  rfl

@[simp] theorem fits_uint8 (x : UInt8) : Fits x := trivial

@[simp] theorem fits_uint16 (x : UInt16) : Fits x := trivial

@[simp] theorem fits_uint32 (x : UInt32) : Fits x := trivial

@[simp] theorem fits_uint64 (x : UInt64) : Fits x := trivial

@[simp] theorem reader_pure {α : Type} (a : α) (input : List UInt8) :
    (pure a : Reader IoError α) input = .ok (a, input) := rfl

@[simp] theorem decode_wire_bind {α β : Type} [Encodable α] [Decodable α] [Decodes α] (x : α)
    (hx : Fits x) (f : α → Reader IoError β) (rest : List UInt8) :
    (decode >>= f) (wire x ++ rest) = f x rest := by
  rw [reader_bind, decode_wire x rest hx]

@[simp] theorem decode_wire_map {α β : Type} [Encodable α] [Decodable α] [Decodes α] (x : α)
    (hx : Fits x) (f : α → β) (rest : List UInt8) :
    (f <$> decode : Reader IoError β) (wire x ++ rest) = .ok (f x, rest) :=
  decode_wire_bind x hx (fun a => pure (f a)) rest

/-! Strings, vectors and data carry their length in front. -/

instance : Decodes String where
  wire s := wire (UInt16.ofNat s.utf8ByteSize) ++ strBytes s
  encode_wire s w := by
    rw [List.length_append, length_strBytes, ← List.append_assoc]
    rfl
  Fits s := s.utf8ByteSize ≤ 65535
  decode_wire s rest hs := by
    have hlen : (UInt16.ofNat s.utf8ByteSize).toNat = (strBytes s).length := by
      rw [UInt16.toNat_ofNat', length_strBytes, Nat.mod_eq_of_lt (by omega)]
    have hread := (reads_readExact unexpectedEof (strBytes s)).bind
      ((reads_fromUtf8 s).symm ▸ Reads.pure s)
    rw [List.append_nil] at hread
    rw [List.append_assoc]
    refine (decode_wire_bind (UInt16.ofNat s.utf8ByteSize) trivial _ _).trans ?_
    rw [hlen]
    exact hread rest

instance : Decodes Data where
  wire d := wire (UInt32.ofNat d.bytes.length) ++ d.bytes
  encode_wire d w := by
    rw [List.length_append, ← List.append_assoc]
    rfl
  Fits d := d.bytes.length ≤ 2 ^ 32 - 1
  decode_wire d rest hd := by
    have hlen : (UInt32.ofNat d.bytes.length).toNat = d.bytes.length := by
      rw [UInt32.toNat_ofNat', Nat.mod_eq_of_lt (by omega)]
    have hread := (reads_readExact unexpectedEof d.bytes).map Data.mk
    rw [List.append_assoc]
    refine (decode_wire_bind (UInt32.ofNat d.bytes.length) trivial _ _).trans ?_
    rw [hlen]
    exact hread rest

instance {α : Type} [Encodable α] [Decodable α] [Decodes α] : Decodes (List α) where
  wire v := wire (UInt16.ofNat v.length) ++ v.flatMap wire
  encode_wire v w := by simp [Encodable.encode, foldl_shiftLeft]
  Fits v := v.length ≤ 65535 ∧ ∀ x ∈ v, Fits x
  decode_wire v rest hv := by
    have hlen : (UInt16.ofNat v.length).toNat = v.length := by
      rw [UInt16.toNat_ofNat', Nat.mod_eq_of_lt (by omega)]
    have hread := reads_readMany v (fun x hx rest => decode_wire x rest (hv.2 x hx))
    rw [List.append_assoc]
    refine (decode_wire_bind (UInt16.ofNat v.length) trivial _ _).trans ?_
    rw [hlen]
    exact hread rest

@[simp] theorem fits_string (s : String) : Fits s ↔ s.utf8ByteSize ≤ 65535 := Iff.rfl

@[simp] theorem fits_data (d : Data) : Fits d ↔ d.bytes.length ≤ 2 ^ 32 - 1 := Iff.rfl

@[simp] theorem fits_list {α : Type} [Encodable α] [Decodable α] [Decodes α] (v : List α) :
    Fits v ↔ v.length ≤ 65535 ∧ ∀ x ∈ v, Fits x := Iff.rfl

/-! Records are their fields in order. -/

instance : Decodes Qid where
  wire q := wire q.typ.bits ++ wire q.version ++ wire q.path
  encode_wire q w := by simp [Encodable.encode, Nat.add_assoc]
  Fits _ := True
  decode_wire q rest _ := by
    change Qid.decode _ = _
    simp [Qid.decode, List.append_assoc]

instance : Decodes Statfs where
  wire s := wire s.typ ++ wire s.bsize ++ wire s.blocks ++ wire s.bfree ++ wire s.bavail
    ++ wire s.files ++ wire s.ffree ++ wire s.fsid ++ wire s.namelen
  encode_wire s w := by simp [Encodable.encode, Nat.add_assoc]
  Fits _ := True
  decode_wire s rest _ := by
    change Statfs.decode _ = _
    simp [Statfs.decode, List.append_assoc]

instance : Decodes Time where
  wire t := wire t.sec ++ wire t.nsec
  encode_wire t w := by simp [Encodable.encode]
  Fits _ := True
  decode_wire t rest _ := by
    change Time.decode _ = _
    simp [Time.decode, List.append_assoc]

@[simp] theorem fits_qid (q : Qid) : Fits q := trivial

@[simp] theorem fits_statfs (s : Statfs) : Fits s := trivial

@[simp] theorem fits_time (t : Time) : Fits t := trivial

instance : Decodes Stat where
  wire s := wire s.mode ++ wire s.uid ++ wire s.gid ++ wire s.nlink ++ wire s.rdev
    ++ wire s.size ++ wire s.blksize ++ wire s.blocks ++ wire s.atime ++ wire s.mtime
    ++ wire s.ctime
  encode_wire s w := by simp [Encodable.encode, Nat.add_assoc]
  Fits _ := True
  decode_wire s rest _ := by
    change Stat.decode _ = _
    simp [Stat.decode, List.append_assoc]

instance : Decodes SetAttr where
  wire s := wire s.mode ++ wire s.uid ++ wire s.gid ++ wire s.size ++ wire s.atime
    ++ wire s.mtime
  encode_wire s w := by simp [Encodable.encode, Nat.add_assoc]
  Fits _ := True
  decode_wire s rest _ := by
    change SetAttr.decode _ = _
    simp [SetAttr.decode, List.append_assoc]

@[simp] theorem fits_stat (s : Stat) : Fits s := trivial

@[simp] theorem fits_setAttr (s : SetAttr) : Fits s := trivial

instance : Decodes DirEntry where
  wire e := wire e.qid ++ wire e.offset ++ wire e.typ ++ wire e.name
  encode_wire e w := by simp [Encodable.encode, Nat.add_assoc]
  Fits e := Fits e.name
  decode_wire e rest he := by
    change DirEntry.decode _ = _
    simp [DirEntry.decode, List.append_assoc, he]

/-- Only the encoder's side: `decode` gives the leading field another meaning. -/
instance : Emits DirEntryData where
  wire d := wire d.size ++ d.data.flatMap wire
  encode_wire d w := by simp [Encodable.encode, foldl_shiftLeft]

instance : Decodes Flock where
  wire l := wire l.typ.bits ++ wire l.flags.bits ++ wire l.start ++ wire l.length
    ++ wire l.procId ++ wire l.clientId
  encode_wire l w := by simp [Encodable.encode, Nat.add_assoc]
  Fits l := Fits l.clientId
  decode_wire l rest hl := by
    change Flock.decode _ = _
    simp [Flock.decode, List.append_assoc, hl]

instance : Decodes Getlock where
  wire l := wire l.typ.bits ++ wire l.start ++ wire l.length ++ wire l.procId
    ++ wire l.clientId
  encode_wire l w := by simp [Encodable.encode, Nat.add_assoc]
  Fits l := Fits l.clientId
  decode_wire l rest hl := by
    change Getlock.decode _ = _
    simp [Getlock.decode, List.append_assoc, hl]

@[simp] theorem fits_flock (l : Flock) : Fits l ↔ l.clientId.utf8ByteSize ≤ 65535 := Iff.rfl

@[simp] theorem fits_getlock (l : Getlock) : Fits l ↔ l.clientId.utf8ByteSize ≤ 65535 :=
  Iff.rfl

/-! Messages. -/

namespace Fcall

/-- The strings of a message body. -/
def strings : Fcall → List String
  | .tlcreate _ name .. => [name]
  | .tsymlink _ name symtgt _ => [name, symtgt]
  | .tmknod _ name .. => [name]
  | .trename _ _ name => [name]
  | .rreadlink target => [target]
  | .txattrwalk _ _ name => [name]
  | .txattrcreate _ name .. => [name]
  | .rreaddir data => data.data.map DirEntry.name
  | .tlock _ flock => [flock.clientId]
  | .tgetlock _ flock => [flock.clientId]
  | .rgetlock flock => [flock.clientId]
  | .tlink _ _ name => [name]
  | .tmkdir _ name .. => [name]
  | .trenameat _ oldname _ newname => [oldname, newname]
  | .tunlinkat _ name _ => [name]
  | .tauth _ uname aname _ => [uname, aname]
  | .tattach _ _ uname aname _ => [uname, aname]
  | .tversion _ version => [version]
  | .rversion _ version => [version]
  | .twalk _ _ wnames => wnames
  | _ => []

/-- The number of elements of the vector in a message body. -/
def vecLen : Fcall → ℕ
  | .twalk _ _ wnames => wnames.length
  | .rwalk wqids => wqids.length
  | _ => 0

/-- The data in a message body. -/
def payload : Fcall → List UInt8
  | .rread data => data.bytes
  | .twrite _ _ data => data.bytes
  | _ => []

/-- Every length that is sent fits the field it is sent in. -/
structure WellFormed (f : Fcall) : Prop where
  strings : ∀ s ∈ f.strings, s.utf8ByteSize ≤ 65535
  vecLen : f.vecLen ≤ 65535
  payload : f.payload.length ≤ 2 ^ 32 - 1

/-- What the encoder writes after the type and the tag. -/
def wireFields (f : Fcall) : List UInt8 :=
  match f.encodeFields (.ok ⟨[], 0⟩) with
  | .ok enc => enc.writer
  | .error _ => []

theorem encodeFields_ok (f : Fcall) (w : List UInt8) (n : ℕ) :
    f.encodeFields (.ok ⟨w, n⟩) = .ok ⟨w ++ f.wireFields, n + f.wireFields.length⟩ := by
  cases f <;> simp [encodeFields, wireFields, Nat.add_assoc]

theorem decodeFields_wireFields (f : Fcall) (hf : f.WellFormed) (hr : f.msgType ≠ .rreaddir)
    (rest : List UInt8) :
    decodeFields (some f.msgType) (f.wireFields ++ rest) = .ok (f, rest) := by
  obtain ⟨hs, hv, hp⟩ := hf
  cases f with
  | rgetattr valid qid stat =>
    -- the four reserved words are read back as a `Time` and two words
    have htime : wire (⟨0, 0⟩ : Time) = wire (0 : UInt64) ++ wire (0 : UInt64) := rfl
    have hwire : (rgetattr valid qid stat).wireFields = wire valid.bits ++ wire qid ++ wire stat
        ++ wire (⟨0, 0⟩ : Time) ++ wire (0 : UInt64) ++ wire (0 : UInt64) := by
      simp [encodeFields, wireFields, htime]
    simp [hwire, decodeFields, msgType]
  | _ =>
    simp_all [encodeFields, wireFields, decodeFields, msgType, strings, vecLen, payload]

end Fcall

instance : Emits Msg where
  wire m := wire m.body.msgType.toU8 ++ wire m.tag ++ m.body.wireFields
  encode_wire m w := by
    simp [Encodable.encode, Fcall.encodeFields_ok, Nat.add_assoc]

theorem writeMsg_vec (m : Msg) (w : List UInt8) :
    writeMsg w m = .ok ((wire m).length, w ++ wire m) := encode_wire m w

/-- `read_msg` undoes `write_msg` and leaves what follows unread. -/
theorem readMsg_writeMsg (m : Msg) (hr : ∀ data, m.body ≠ .rreaddir data)
    (hm : m.body.WellFormed) (rest : List UInt8) :
    ∃ n bytes, writeMsg [] m = .ok (n, bytes) ∧ readMsg (bytes ++ rest) = .ok (m, rest) := by
  have htype : m.body.msgType ≠ .rreaddir := by
    intro h
    cases hb : m.body with
    | rreaddir data => exact hr data hb
    | _ => simp [hb, Fcall.msgType] at h
  refine ⟨(wire m).length, wire m, writeMsg_vec m [], ?_⟩
  have hbody := Fcall.decodeFields_wireFields m.body hm htype rest
  have hwire : wire m ++ rest =
      wire m.body.msgType.toU8 ++ (wire m.tag ++ (m.body.wireFields ++ rest)) := by
    simp only [wire, List.append_assoc]
  rw [hwire, show readMsg = Msg.decode from rfl]
  simp [Msg.decode, reader_map (Fcall.decodeFields _), hbody]

theorem readMsg_writeMsg_rversion :
    ∃ n bytes, writeMsg [] ⟨0xdead, .rversion 40 P92000L⟩ = .ok (n, bytes) ∧
      readMsg (bytes ++ [1, 2]) = .ok (⟨0xdead, .rversion 40 P92000L⟩, [1, 2]) :=
  readMsg_writeMsg ⟨0xdead, .rversion 40 P92000L⟩ (fun _ => by simp)
    ⟨by decide, by decide, by decide⟩ [1, 2]

/-! A decoded vector is as long as its 16-bit count says. -/

theorem yields_decode_list {α : Type} [Decodable α] :
    Yields (decode : Reader IoError (List α)) (fun v => v.length ≤ 65535) := by
  refine .bind_of_forall (fun len => ?_) _
  intro input v rest hv
  have hlen : v.length = len.toNat := yields_readMany _ _ input v rest hv
  have := len.toNat_lt
  omega

theorem yields_decodeFields (t : Option MsgType) :
    Yields (Fcall.decodeFields t) (fun f => f.vecLen ≤ 65535) := by
  cases t with
  | none =>
    intro input f rest h
    cases h
  | some t =>
    cases t with
    | twalk =>
      refine .bind_of_forall (fun fid => ?_) _
      refine .bind_of_forall (fun newfid => ?_) _
      exact yields_decode_list.bind fun wnames h => .pure h
    | rwalk => exact yields_decode_list.bind fun wqids h => .pure h
    | tlerror =>
      intro input f rest h
      cases h
    | _ =>
      -- no other message has a vector
      simp only [Fcall.decodeFields]
      repeat' first | exact .pure (Nat.zero_le _) | refine .bind_of_forall (fun _ => ?_) _

theorem vecLen_of_readMsg {frame rest : List UInt8} {m : Msg}
    (h : readMsg frame = .ok (m, rest)) : m.body.vecLen ≤ 65535 := by
  have hmsg : Yields readMsg (fun m => m.body.vecLen ≤ 65535) := by
    change Yields Msg.decode _
    refine .bind_of_forall (fun t => ?_) _
    refine .bind_of_forall (fun tag => ?_) _
    exact (yields_decodeFields _).bind fun body hb => .pure hb
  exact hmsg frame m rest h

end P9cpu.Ninep
