import P9cpu.Ninep.RoundTrip

/-! Lengths on the wire, and the field in front of a listing. -/
namespace P9cpu.Ninep
open Core

@[simp] theorem length_wire_uint8 (x : UInt8) : (wire x).length = 1 := length_leBytes 1 _

@[simp] theorem length_wire_uint16 (x : UInt16) : (wire x).length = 2 := length_leBytes 2 _

@[simp] theorem length_wire_uint32 (x : UInt32) : (wire x).length = 4 := length_leBytes 4 _

@[simp] theorem length_wire_uint64 (x : UInt64) : (wire x).length = 8 := length_leBytes 8 _

@[simp] theorem length_wire_string (s : String) : (wire s).length = 2 + s.utf8ByteSize := by
  change (wire (UInt16.ofNat s.utf8ByteSize) ++ strBytes s).length = _
  rw [List.length_append, length_wire_uint16, length_strBytes]

@[simp] theorem length_wire_data (d : Data) : (wire d).length = 4 + d.bytes.length := by
  change (wire (UInt32.ofNat d.bytes.length) ++ d.bytes).length = _
  rw [List.length_append, length_wire_uint32]

@[simp] theorem length_wire_qid (q : Qid) : (wire q).length = 13 := by
  change (wire q.typ.bits ++ wire q.version ++ wire q.path).length = 13
  simp

@[simp] theorem length_wire_statfs (s : Statfs) : (wire s).length = 60 := by
  simp [wire]

@[simp] theorem length_wire_stat (s : Stat) : (wire s).length = 100 := by
  simp [wire]

theorem length_wire_qids (qs : List Qid) : (wire qs).length = 2 + 13 * qs.length := by
  change (wire (UInt16.ofNat qs.length) ++ qs.flatMap wire).length = _
  induction qs with
  | nil => simp
  | cons q qs ih =>
    simp only [List.length_append, List.flatMap_cons, length_wire_qid, length_wire_uint16,
      List.length_cons] at ih ⊢
    omega

/-! Listings. -/

/-- The bytes of an entry on the wire: its qid, offset, type and counted name. -/
def direntLen (name : String) : ℕ := 24 + name.utf8ByteSize

/-- The bytes of the entries, without the field that precedes them. -/
def DirEntryData.len (d : DirEntryData) : ℕ := (d.data.map (fun e => direntLen e.name)).sum

@[simp] theorem DirEntryData.len_new : DirEntryData.new.len = 0 := rfl

@[simp] theorem DirEntryData.len_push (d : DirEntryData) (e : DirEntry) :
    (d.push e).len = d.len + direntLen e.name := by
  simp [DirEntryData.len, DirEntryData.push]

theorem DirEntry.size_eq (e : DirEntry) : e.size = UInt32.ofNat (direntLen e.name) := by
  have h : e.qid.size.toNat + 8 + 1 + 2 + e.name.utf8ByteSize = direntLen e.name := by
    rw [direntLen, show e.qid.size.toNat = 13 from rfl]
  rw [DirEntry.size, h]

theorem DirEntryData.size_eq (d : DirEntryData) : d.size = UInt32.ofNat d.len := by
  have hfold : ∀ (es : List DirEntry) (a : ℕ),
      es.foldl (fun a e => a + e.size) (UInt32.ofNat a) =
        UInt32.ofNat (a + (es.map (fun e => direntLen e.name)).sum) := by
    intro es
    induction es with
    | nil => intro a; simp
    | cons e es ih =>
      intro a
      rw [List.foldl_cons, DirEntry.size_eq, ← UInt32.ofNat_add, ih, List.map_cons, List.sum_cons,
        Nat.add_assoc]
  have h := hfold d.data 0
  rw [Nat.zero_add] at h
  exact h

theorem length_wire_dirent (e : DirEntry) : (wire e).length = direntLen e.name := by
  change (wire e.qid ++ wire e.offset ++ wire e.typ ++ wire e.name).length = _
  simp only [List.length_append, length_wire_qid, length_wire_uint64, length_wire_uint8,
    length_wire_string, direntLen]
  omega

theorem length_flatMap_wire (d : DirEntryData) : (d.data.flatMap wire).length = d.len := by
  rw [List.length_flatMap, DirEntryData.len]
  simp only [length_wire_dirent]

theorem length_wire_dirents (d : DirEntryData) : (wire d).length = 4 + d.len := by
  change (wire d.size ++ d.data.flatMap wire).length = _
  rw [List.length_append, length_wire_uint32, length_flatMap_wire]

theorem length_data_le (d : DirEntryData) : 24 * d.data.length ≤ d.len := by
  unfold DirEntryData.len
  induction d.data with
  | nil => simp
  | cons e es ih =>
    have he : 24 ≤ direntLen e.name := Nat.le_add_right 24 _
    rw [List.map_cons, List.sum_cons, List.length_cons]
    omega

/-- The decoder reads as many entries as the leading field says. -/
theorem length_of_decode {input rest : List UInt8} {count : UInt32} {d : DirEntryData}
    (h : decode (wire count ++ input) = .ok (d, rest)) : d.data.length = count.toNat := by
  change (decode >>= fun count : UInt32 => DirEntryData.mk <$> readMany decode count.toNat) _ = _ at h
  rw [decode_wire_bind count trivial] at h
  have hyields := (yields_readMany (decode : Reader IoError DirEntry) count.toNat).map
    (f := DirEntryData.mk) (Q := fun d => d.data.length = count.toNat) fun _ hes => hes
  exact hyields input d rest h

theorem decode_wire_new (rest : List UInt8) :
    decode (wire DirEntryData.new ++ rest) = .ok (DirEntryData.new, rest) := by
  change (decode >>= fun count : UInt32 => DirEntryData.mk <$> readMany decode count.toNat) _ = _
  have hwire : wire DirEntryData.new = wire (0 : UInt32) := rfl
  rw [hwire, decode_wire_bind (0 : UInt32) trivial]
  rfl

/-- A listing that is read back after its own encoding is empty: any entry takes more bytes than
its number, and the field holds the bytes. -/
theorem eq_new_of_decode {d : DirEntryData} {rest rest' : List UInt8} (hlen : d.len < 2 ^ 32)
    (h : decode (wire d ++ rest) = .ok (d, rest')) : d = DirEntryData.new := by
  have hwire : wire d ++ rest = wire d.size ++ (d.data.flatMap wire ++ rest) := by
    change wire d.size ++ d.data.flatMap wire ++ rest = _
    rw [List.append_assoc]
  rw [hwire] at h
  have hcount := length_of_decode h
  have hsize : d.size.toNat = d.len := by
    rw [DirEntryData.size_eq, UInt32.toNat_ofNat', Nat.mod_eq_of_lt hlen]
  have hle := length_data_le d
  have hzero : d.data.length = 0 := by omega
  have hdata : d.data = [] := List.eq_nil_of_length_eq_zero hzero
  cases d
  rw [DirEntryData.new, ← hdata]

theorem wireFields_rreaddir (d : DirEntryData) : (Fcall.rreaddir d).wireFields = wire d := by
  simp [Fcall.encodeFields, Fcall.wireFields]

/-- An `Rreaddir` is read back exactly when it has no entries. -/
theorem rreaddir_roundTrip_iff (d : DirEntryData) (hlen : d.len < 2 ^ 32) (tag : UInt16)
    (rest : List UInt8) :
    (∃ n bytes, Encodable.encode d [] = .ok (n, bytes) ∧
      (decode (bytes ++ rest) = .ok (d, rest) ↔ d = DirEntryData.new)) ∧
    ∃ n bytes, writeMsg [] ⟨tag, .rreaddir d⟩ = .ok (n, bytes) ∧
      (readMsg (bytes ++ rest) = .ok (⟨tag, .rreaddir d⟩, rest) ↔ d = DirEntryData.new) := by
  have hdata : decode (wire d ++ rest) = .ok (d, rest) ↔ d = DirEntryData.new := by
    constructor
    · exact eq_new_of_decode hlen
    · rintro rfl
      exact decode_wire_new rest
  refine ⟨⟨(wire d).length, wire d, encode_wire d [], hdata⟩, ?_⟩
  refine ⟨_, _, writeMsg_vec ⟨tag, .rreaddir d⟩ [], ?_⟩
  rw [← hdata]
  have hwire : wire (⟨tag, .rreaddir d⟩ : Msg) ++ rest =
      wire MsgType.rreaddir.toU8 ++ (wire tag ++ (wire d ++ rest)) := by
    change wire MsgType.rreaddir.toU8 ++ wire tag ++ (Fcall.rreaddir d).wireFields ++ rest = _
    rw [wireFields_rreaddir, List.append_assoc, List.append_assoc]
  rw [List.nil_append, hwire, show readMsg = Msg.decode from rfl]
  cases hd : (decode (wire d ++ rest) : Except IoError (DirEntryData × List UInt8)) with
  | error e => simp [Msg.decode, Fcall.decodeFields, reader_map, hd]
  | ok x => simp [Msg.decode, Fcall.decodeFields, reader_map, hd, Prod.ext_iff]

def dotListing : DirEntryData := ⟨[⟨⟨.fromBitsTruncate QidType.DIR, 0, 2⟩, 0, 0, "."⟩]⟩

theorem rreaddir_roundTrip_iff_dot :
    (∃ n bytes, Encodable.encode dotListing [] = .ok (n, bytes) ∧
      (decode (bytes ++ [7]) = .ok (dotListing, [7]) ↔ dotListing = DirEntryData.new)) ∧
    ∃ n bytes, writeMsg [] ⟨1, .rreaddir dotListing⟩ = .ok (n, bytes) ∧
      (readMsg (bytes ++ [7]) = .ok (⟨1, .rreaddir dotListing⟩, [7]) ↔
        dotListing = DirEntryData.new) :=
  rreaddir_roundTrip_iff dotListing (by decide) 1 [7]

/-- The one entry of the listing takes 25 bytes, so 25 entries are read. -/
theorem not_rreaddir_roundTrip : ¬ ∀ (d : DirEntryData) (rest bytes : List UInt8) (n : ℕ),
    (∀ e ∈ d.data, e.name.utf8ByteSize ≤ 65535) → (wire d).length < 2 ^ 32 →
    Encodable.encode d [] = .ok (n, bytes) → decode (bytes ++ rest) = .ok (d, rest) := by
  intro h
  have hread := h dotListing [] (wire dotListing) (wire dotListing).length (by decide) (by decide)
    (encode_wire dotListing [])
  have hnew := eq_new_of_decode (by decide) hread
  simp [dotListing, DirEntryData.new] at hnew

end P9cpu.Ninep
