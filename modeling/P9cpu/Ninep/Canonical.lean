import P9cpu.Ninep.Lengths

/-! What the decoder accepts: the bytes that it took off its input are what the encoder writes
for the message, up to the bits that it drops. -/
namespace P9cpu.Ninep
open Core

/-- Every bit is kept of the bytes that have no mask. -/
def keep : List UInt8 → List UInt8 → List UInt8
  | _, [] => []
  | [], bs => bs
  | mask :: masks, b :: bs => (b &&& mask) :: keep masks bs

@[simp] theorem keep_nil (bs : List UInt8) : keep [] bs = bs := by
  cases bs <;> rfl

@[simp] theorem length_keep (masks bs : List UInt8) : (keep masks bs).length = bs.length := by
  induction bs generalizing masks with
  | nil => simp [keep]
  | cons b bs ih =>
    cases masks with
    | nil => rfl
    | cons mask masks => simp [keep, ih]

theorem keep_append {masks bs : List UInt8} (h : masks.length = bs.length)
    (masks' bs' : List UInt8) :
    keep (masks ++ masks') (bs ++ bs') = keep masks bs ++ keep masks' bs' := by
  induction bs generalizing masks with
  | nil =>
    rw [List.eq_nil_of_length_eq_zero h]
    rfl
  | cons b bs ih =>
    cases masks with
    | nil => simp at h
    | cons mask masks =>
      have htail : masks.length = bs.length := by simpa using h
      simp only [List.cons_append, keep, ih htail]

theorem keep_all {n : ℕ} {bs : List UInt8} (h : n = bs.length) :
    keep (List.replicate n 0xff) bs = bs := by
  induction bs generalizing n with
  | nil =>
    rw [h]
    rfl
  | cons b bs ih =>
    rw [h, List.length_cons, List.replicate_succ, keep, ih rfl]
    have hb : b &&& 0xff = b := UInt8.and_neg_one
    rw [hb]

theorem keep_none {n : ℕ} {bs : List UInt8} (h : n = bs.length) :
    keep (List.replicate n 0) bs = List.replicate n 0 := by
  induction bs generalizing n with
  | nil =>
    rw [h]
    rfl
  | cons b bs ih =>
    rw [h, List.length_cons, List.replicate_succ, keep, ih rfl]
    have hb : b &&& 0 = 0 := UInt8.and_zero
    rw [hb]

theorem keep_leBytes (n x y : ℕ) : keep (leBytes n y) (leBytes n x) = leBytes n (x &&& y) := by
  induction n generalizing x y with
  | zero => rfl
  | succ n ih =>
    have hlow : UInt8.ofNat x &&& UInt8.ofNat y = UInt8.ofNat (x &&& y) := by
      rw [← UInt8.ofNat_and]
    have hhigh : x / 256 &&& y / 256 = (x &&& y) / 256 := by
      have hdiv := Nat.and_div_two_pow (a := x) (b := y) (n := 8)
      simpa using hdiv.symm
    rw [leBytes, leBytes, keep, ih, hlow, hhigh, leBytes]

/-! Values that are read from the bytes that they are written to. -/

class Canonical (α : Type) [Encodable α] [Decodable α] [Emits α] : Prop where
  takes_decode : Takes (decode : Reader IoError α) (fun bs a => bs = wire a)

export Canonical (takes_decode)

/-- A field of a record: the rest of the record is read after it. -/
theorem takes_field {α β : Type} [Encodable α] [Decodable α] [Emits α] [Canonical α]
    {f : α → Reader IoError β} {H : List UInt8 → β → Prop}
    (hf : ∀ a, Takes (f a) (fun bs b => H (wire a ++ bs) b)) : Takes (decode >>= f) H := by
  refine takes_decode.bind fun bs a hbs => ?_
  rw [hbs]
  exact hf a

theorem takes_readUInt (size : ℕ) :
    Takes (readUInt size) (fun bs val => bs = leBytes size val ∧ val < 256 ^ size) := by
  refine (takes_readExact unexpectedEof size).map fun bs a h => ?_
  obtain ⟨rfl, hlen⟩ := h
  rw [← hlen]
  exact ⟨(leBytes_leVal a).symm, leVal_lt a⟩

instance : Canonical UInt8 where
  takes_decode := (takes_readUInt 1).map fun bs val h => by
    have hval : val < 2 ^ 8 := h.2
    change bs = leBytes 1 _
    rw [UInt8.toNat_ofNat', Nat.mod_eq_of_lt hval, ← h.1]

instance : Canonical UInt16 where
  takes_decode := (takes_readUInt 2).map fun bs val h => by
    have hval : val < 2 ^ 16 := h.2
    change bs = leBytes 2 _
    rw [UInt16.toNat_ofNat', Nat.mod_eq_of_lt hval, ← h.1]

instance : Canonical UInt32 where
  takes_decode := (takes_readUInt 4).map fun bs val h => by
    have hval : val < 2 ^ 32 := h.2
    change bs = leBytes 4 _
    rw [UInt32.toNat_ofNat', Nat.mod_eq_of_lt hval, ← h.1]

instance : Canonical UInt64 where
  takes_decode := (takes_readUInt 8).map fun bs val h => by
    have hval : val < 2 ^ 64 := h.2
    change bs = leBytes 8 _
    rw [UInt64.toNat_ofNat', Nat.mod_eq_of_lt hval, ← h.1]

theorem takes_fromUtf8 (bytes : List UInt8) :
    Takes (fromUtf8 bytes) (fun bs s => bs = [] ∧ strBytes s = bytes) := by
  unfold fromUtf8
  unfold String.fromUTF8?
  split_ifs with hvalid
  · exact .pure ⟨rfl, by simp [strBytes, String.fromUTF8]⟩
  · exact takes_throw _ _

instance : Canonical String where
  takes_decode := by
    refine takes_field fun len => ?_
    refine (takes_readExact _ _).bind fun bs bytes hbytes => ?_
    obtain ⟨rfl, hlen⟩ := hbytes
    intro input s rest h
    obtain ⟨cs, hcs, rfl, hs⟩ := takes_fromUtf8 bytes input s rest h
    refine ⟨[], hcs, ?_⟩
    change _ = wire (UInt16.ofNat s.utf8ByteSize) ++ strBytes s
    rw [hs, ← length_strBytes, hs, hlen, UInt16.ofNat_toNat, List.append_nil]

instance : Canonical Data where
  takes_decode := by
    refine takes_field fun len => ?_
    refine (takes_readExact _ _).map fun bs bytes hbytes => ?_
    obtain ⟨rfl, hlen⟩ := hbytes
    change _ = wire (UInt32.ofNat bytes.length) ++ bytes
    rw [hlen, UInt32.ofNat_toNat]

instance {α : Type} [Encodable α] [Decodable α] [Decodes α] [Canonical α] :
    Canonical (List α) where
  takes_decode := by
    refine takes_field fun len => ?_
    refine fun input v rest h => ?_
    obtain ⟨bs, hbs, hv, hlen⟩ := takes_readMany takes_decode len.toNat input v rest h
    refine ⟨bs, hbs, ?_⟩
    change _ = wire (UInt16.ofNat v.length) ++ v.flatMap wire
    rw [hlen, UInt16.ofNat_toNat, hv]

/-! Records are their fields in order. -/

/-- All bits of a qid type are declared. -/
theorem qidType_bits (bits : UInt8) : (Flags.fromBitsTruncate bits : QidType).bits = bits :=
  UInt8.and_neg_one

instance : Canonical Qid where
  takes_decode := by
    change Takes Qid.decode _
    unfold Qid.decode
    refine takes_field fun typ => takes_field fun version => takes_field fun path => .pure ?_
    change _ = wire (Flags.fromBitsTruncate typ : QidType).bits ++ wire version ++ wire path
    rw [qidType_bits, List.append_nil, List.append_assoc]

instance : Canonical Statfs where
  takes_decode := by
    change Takes Statfs.decode _
    unfold Statfs.decode
    iterate 9 refine takes_field fun _ => ?_
    exact .pure (by simp [wire])

instance : Canonical Time where
  takes_decode := by
    change Takes Time.decode _
    unfold Time.decode
    iterate 2 refine takes_field fun _ => ?_
    exact .pure (by simp [wire])

instance : Canonical Stat where
  takes_decode := by
    change Takes Stat.decode _
    unfold Stat.decode
    iterate 11 refine takes_field fun _ => ?_
    exact .pure (by simp [wire])

instance : Canonical SetAttr where
  takes_decode := by
    change Takes SetAttr.decode _
    unfold SetAttr.decode
    iterate 6 refine takes_field fun _ => ?_
    exact .pure (by simp [wire])

instance : Canonical DirEntry where
  takes_decode := by
    change Takes DirEntry.decode _
    unfold DirEntry.decode
    iterate 4 refine takes_field fun _ => ?_
    exact .pure (by simp [wire])

/-! Messages. -/

/-- The masks of the fields of a message body, up to the last field with bits that the decoder
drops: the bits of flags that are not declared and the reserved words of `Rgetattr`. -/
def MsgType.keptFieldBits : MsgType → List UInt8
  | .tgetattr => List.replicate 4 0xff ++ wire (0x3fff : UInt64)
  | .rgetattr => wire (0x3fff : UInt64) ++ (List.replicate 113 0xff ++ List.replicate 32 0)
  | .tsetattr => List.replicate 4 0xff ++ wire (0x1ff : UInt32)
  | .tlock => List.replicate 4 0xff ++ (wire (0x3 : UInt8) ++ wire (0x3 : UInt32))
  | .rlock | .rgetlock => wire (0x3 : UInt8)
  | .tgetlock => List.replicate 4 0xff ++ wire (0x3 : UInt8)
  | _ => []

/-- The masks of the bytes of a message: its type and tag, and its fields. -/
def MsgType.keptBits (t : MsgType) : List UInt8 := List.replicate 3 0xff ++ t.keptFieldBits

theorem keep_leBytes_append (n x y : ℕ) (masks cs : List UInt8) :
    keep (leBytes n y ++ masks) (leBytes n x ++ cs) = leBytes n (x &&& y) ++ keep masks cs := by
  rw [keep_append (by rw [length_leBytes, length_leBytes]), keep_leBytes]

theorem keep_wire8 (mask x : UInt8) (masks cs : List UInt8) :
    keep (wire mask ++ masks) (wire x ++ cs) = wire (x &&& mask) ++ keep masks cs := by
  have h := keep_leBytes_append 1 x.toNat mask.toNat masks cs
  rw [← UInt8.toNat_and] at h
  exact h

theorem keep_wire32 (mask x : UInt32) (masks cs : List UInt8) :
    keep (wire mask ++ masks) (wire x ++ cs) = wire (x &&& mask) ++ keep masks cs := by
  have h := keep_leBytes_append 4 x.toNat mask.toNat masks cs
  rw [← UInt32.toNat_and] at h
  exact h

theorem keep_wire64 (mask x : UInt64) (masks cs : List UInt8) :
    keep (wire mask ++ masks) (wire x ++ cs) = wire (x &&& mask) ++ keep masks cs := by
  have h := keep_leBytes_append 8 x.toNat mask.toNat masks cs
  rw [← UInt64.toNat_and] at h
  exact h

/-- A field that is kept as a whole. -/
theorem keep_field {n : ℕ} {bs : List UInt8} (h : n = bs.length) (masks cs : List UInt8) :
    keep (List.replicate n 0xff ++ masks) (bs ++ cs) = bs ++ keep masks cs := by
  rw [keep_append (by rw [List.length_replicate, h]), keep_all h]

theorem takes_flock : Takes (decode : Reader IoError Flock) (fun bs l =>
    wire l = keep (wire (0x3 : UInt8) ++ wire (0x3 : UInt32)) bs) := by
  change Takes Flock.decode _
  unfold Flock.decode
  refine takes_field fun typ => takes_field fun flags => ?_
  iterate 4 refine takes_field fun _ => ?_
  refine .pure ?_
  rw [keep_wire8, ← List.append_nil (wire (0x3 : UInt32)), keep_wire32, keep_nil]
  simp [wire, Flags.fromBitsTruncate]

theorem takes_getlock : Takes (decode : Reader IoError Getlock) (fun bs l =>
    wire l = keep (wire (0x3 : UInt8)) bs) := by
  change Takes Getlock.decode _
  unfold Getlock.decode
  refine takes_field fun typ => ?_
  iterate 4 refine takes_field fun _ => ?_
  refine .pure ?_
  rw [← List.append_nil (wire (0x3 : UInt8)), keep_wire8, keep_nil]
  simp [wire, Flags.fromBitsTruncate]

theorem takes_decodeFields (t : MsgType) (ht : t ≠ .rreaddir) :
    Takes (Fcall.decodeFields (some t)) (fun bs f => f.msgType = t ∧
      f.wireFields = keep t.keptFieldBits bs) := by
  cases t with
  | rreaddir => exact absurd rfl ht
  | tlerror => exact takes_throw _ _
  | tgetattr =>
    refine takes_field fun fid => takes_field fun reqMask => .pure ⟨rfl, ?_⟩
    rw [MsgType.keptFieldBits, keep_field (n := 4) rfl,
      ← List.append_nil (wire (0x3fff : UInt64)), keep_wire64]
    simp [Fcall.wireFields, Fcall.encodeFields, Flags.fromBitsTruncate]
  | rgetattr =>
    refine takes_field fun valid => takes_field fun qid => takes_field fun stat => ?_
    refine takes_field fun btime => takes_field fun gen => takes_field fun ver => .pure ⟨rfl, ?_⟩
    have hfields : wire valid ++ (wire qid ++ (wire stat ++ (wire btime ++ (wire gen ++
        (wire ver ++ []))))) =
        wire valid ++ ((wire qid ++ wire stat) ++ (wire btime ++ wire gen ++ wire ver)) := by
      simp only [List.append_assoc, List.append_nil]
    have hreserved : 32 = (wire btime ++ wire gen ++ wire ver).length := by
      change 32 = (wire btime.sec ++ wire btime.nsec ++ wire gen ++ wire ver).length
      simp
    have hzero : List.replicate 32 0 = wire (0 : UInt64) ++ (wire (0 : UInt64) ++
        (wire (0 : UInt64) ++ wire (0 : UInt64))) := rfl
    rw [MsgType.keptFieldBits, hfields, keep_wire64, keep_field (n := 113) (by simp),
      keep_none hreserved, hzero]
    simp [Fcall.wireFields, Fcall.encodeFields, Flags.fromBitsTruncate]
  | tsetattr =>
    refine takes_field fun fid => takes_field fun valid => takes_field fun stat => .pure ⟨rfl, ?_⟩
    rw [MsgType.keptFieldBits, keep_field (n := 4) rfl,
      ← List.append_nil (wire (0x1ff : UInt32)), keep_wire32]
    simp [Fcall.wireFields, Fcall.encodeFields, Flags.fromBitsTruncate]
  | tlock =>
    refine takes_field fun fid => takes_flock.bind fun bs flock h => .pure ⟨rfl, ?_⟩
    rw [MsgType.keptFieldBits, keep_field (n := 4) rfl, List.append_nil, ← h]
    simp [Fcall.wireFields, Fcall.encodeFields]
  | rlock =>
    refine takes_field fun status => .pure ⟨rfl, ?_⟩
    rw [MsgType.keptFieldBits, ← List.append_nil (wire (0x3 : UInt8)), keep_wire8]
    simp [Fcall.wireFields, Fcall.encodeFields, Flags.fromBitsTruncate]
  | tgetlock =>
    refine takes_field fun fid => takes_getlock.bind fun bs flock h => .pure ⟨rfl, ?_⟩
    rw [MsgType.keptFieldBits, keep_field (n := 4) rfl, List.append_nil, ← h]
    simp [Fcall.wireFields, Fcall.encodeFields]
  | rgetlock =>
    refine takes_getlock.bind fun bs flock h => .pure ⟨rfl, ?_⟩
    rw [MsgType.keptFieldBits, List.append_nil, ← h]
    simp [Fcall.wireFields, Fcall.encodeFields]
  | _ =>
    simp only [Fcall.decodeFields, MsgType.keptFieldBits, keep_nil]
    repeat refine takes_field fun _ => ?_
    refine .pure ⟨rfl, ?_⟩
    simp [Fcall.wireFields, Fcall.encodeFields]

theorem toU8_of_fromU8 {n : UInt8} {t : MsgType} (h : MsgType.fromU8 n = some t) : t.toU8 = n := by
  have hfind := List.find?_some h
  simpa using hfind

theorem head?_wire_uint8 (x : UInt8) (bs : List UInt8) : (wire x ++ bs).head? = some x := by
  change some (UInt8.ofNat x.toNat) = some x
  rw [UInt8.ofNat_toNat]

theorem takes_rreaddir : Takes (Fcall.decodeFields (some .rreaddir))
    (fun _ f => f.msgType = .rreaddir) := by
  have hdata : Takes (decode : Reader IoError DirEntryData) (fun _ _ => True) := by
    refine takes_field fun count => ?_
    exact (takes_readMany takes_decode count.toNat).map fun _ _ _ => True.intro
  exact hdata.bind fun _ _ _ => .pure rfl

/-- What `read_msg` takes starts with the type byte of the message, and is the message as
`write_msg` writes it. -/
theorem takes_readMsg : Takes readMsg (fun bs m => bs.head? = some m.body.msgType.toU8 ∧
    (m.body.msgType ≠ .rreaddir → wire m = keep m.body.msgType.keptBits bs)) := by
  change Takes Msg.decode _
  unfold Msg.decode
  refine takes_field fun n => takes_field fun tag => ?_
  cases hn : MsgType.fromU8 n with
  | none => exact fun input f rest h => (nomatch h)
  | some t =>
    obtain rfl := toU8_of_fromU8 hn
    by_cases ht : t = .rreaddir
    · subst ht
      refine takes_rreaddir.bind fun bs body h => .pure ⟨?_, fun hne => absurd h hne⟩
      rw [h, head?_wire_uint8]
    · refine (takes_decodeFields t ht).bind fun bs body h => .pure ⟨?_, fun _ => ?_⟩
      · rw [h.1, head?_wire_uint8]
      · obtain ⟨rfl, hbody⟩ := h
        have hhead : wire body.msgType.toU8 ++ (wire tag ++ (bs ++ [])) =
            (wire body.msgType.toU8 ++ wire tag) ++ bs := by
          simp only [List.append_assoc, List.append_nil]
        rw [hhead, MsgType.keptBits, keep_field (by simp), ← hbody]
        rfl

/-- The encoder undoes the decoder: from the `k` bytes that `read_msg` takes off any input which
is not an `Rreaddir`, `write_msg` emits the same `k` bytes, less the bits that are not kept. -/
theorem writeMsg_readMsg {b rest : List UInt8} {m : Msg} (h : readMsg b = .ok (m, rest))
    (ht : b.head? ≠ some MsgType.rreaddir.toU8) :
    ∃ k out, k ≤ b.length ∧ rest = b.drop k ∧ writeMsg [] m = .ok (k, out) ∧ out.length = k ∧
      out = keep m.body.msgType.keptBits (b.take k) := by
  obtain ⟨bs, rfl, hhead, hwire⟩ := takes_readMsg b m rest h
  have htype : m.body.msgType ≠ .rreaddir := by
    intro htype
    rw [htype] at hhead
    rw [List.head?_append, hhead] at ht
    exact ht rfl
  have hlen : (wire m).length = bs.length := by rw [hwire htype, length_keep]
  refine ⟨bs.length, wire m, by simp, by simp, ?_, hlen, ?_⟩
  · rw [writeMsg_vec, hlen, List.nil_append]
  · rw [List.take_left, hwire htype]

/-- A `Tgetattr` with all bits of its mask set, and two more bytes. -/
def fullMask : List UInt8 :=
  [24, 1, 0, 5, 0, 0, 0, 255, 255, 255, 255, 255, 255, 255, 255, 8, 9]

theorem writeMsg_readMsg_fullMask :
    ∃ k out, k ≤ fullMask.length ∧ [8, 9] = fullMask.drop k ∧
      writeMsg [] ⟨1, .tgetattr 5 (.fromBitsTruncate 0x3fff)⟩ = .ok (k, out) ∧
      out.length = k ∧ out = keep MsgType.tgetattr.keptBits (fullMask.take k) :=
  writeMsg_readMsg (b := fullMask) (m := ⟨1, .tgetattr 5 (.fromBitsTruncate 0x3fff)⟩) rfl (by decide)

end P9cpu.Ninep
