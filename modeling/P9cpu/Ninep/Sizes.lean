import P9cpu.Ninep.Lengths
import Mathlib.Data.List.Forall2
import Mathlib.Data.List.Infix

/-! The count that `write_msg` returns, and the lengths that it puts in front of what it writes. -/
namespace P9cpu.Ninep
open Core

/-- A writer whose bytes are counted. -/
class CountedWrite (W : Type) extends Write W where
  written : W → ℕ
  written_writeAll : ∀ (w w' : W) (bs : List UInt8), writeAll w bs = .ok w' →
    written w' = written w + bs.length

export CountedWrite (written written_writeAll)

instance : CountedWrite (List UInt8) where
  written := List.length
  written_writeAll w w' bs h := by
    cases h
    exact List.length_append

/-- What `encode` returns is what it has written, in any writer. -/
class Counts (α : Type) [Encodable α] : Prop where
  written_encode : ∀ {W : Type} [CountedWrite W] (x : α) (w w' : W) (n : ℕ),
    Encodable.encode x w = .ok (n, w') → written w' = written w + n

export Counts (written_encode)

section Counting

variable {W : Type} [CountedWrite W] {α : Type} [Encodable α] [Counts α] {w : W}
  {r : SResult (Encoder W)}

/-- An encoder on `w` has the number of the bytes that it wrote there. -/
def Counting (w : W) (r : SResult (Encoder W)) : Prop :=
  ∀ enc, r = .ok enc → written enc.writer = written w + enc.bytes

theorem counting_new (w : W) : Counting w (.ok (Encoder.new w)) := by
  intro enc h
  cases h
  rfl

theorem Counting.shiftLeft (h : Counting w r) (x : α) : Counting w (r <<< x) := by
  intro enc' henc'
  cases r with
  | error e => cases henc'
  | ok enc =>
    have hstart := h enc rfl
    simp only [HShiftLeft.hShiftLeft, Encoder.encode] at henc'
    rcases hencode : Encodable.encode x enc.writer with e | ⟨n, w'⟩
    · rw [hencode] at henc'
      cases henc'
    · rw [hencode] at henc'
      cases henc'
      have hwrite := written_encode x enc.writer w' n hencode
      change written w' = written w + (enc.bytes + n)
      rw [hwrite, hstart, Nat.add_assoc]

theorem counting_first (w : W) (x : α) : Counting w (Encoder.new w <<< x) :=
  (counting_new w).shiftLeft x

theorem Counting.foldl {f : SResult (Encoder W) → α → SResult (Encoder W)}
    (hf : ∀ r x, f r x = r <<< x) (h : Counting w r) (xs : List α) :
    Counting w (xs.foldl f r) := by
  induction xs generalizing r with
  | nil => exact h
  | cons x xs ih =>
    rw [List.foldl_cons, hf]
    exact ih (h.shiftLeft x)

theorem Counting.finish (h : Counting w r) {w' : W} {n : ℕ}
    (hfinish : r.finish = .ok (n, w')) : written w' = written w + n := by
  cases r with
  | error e => cases hfinish
  | ok enc =>
    cases hfinish
    exact h enc rfl

theorem written_writeUInt {w w' : W} {size val n : ℕ}
    (h : writeUInt w size val = .ok (n, w')) : written w' = written w + n := by
  unfold writeUInt at h
  rcases hwrite : Write.writeAll w (leBytes size val) with e | w''
  · rw [hwrite] at h
    cases h
  · rw [hwrite] at h
    cases h
    rw [written_writeAll w w' _ hwrite, length_leBytes]

/-- A length and the bytes after it, as for a string and for `Data`. -/
theorem written_prefixed (len : α) (bs : List UInt8) {w w' : W} {n : ℕ}
    (h : (do
      let (bytes, w) ← Encodable.encode len w
      let w ← Write.writeAll w bs
      return (bytes + bs.length, w)) = .ok (n, w')) : written w' = written w + n := by
  rcases hlen : Encodable.encode len w with e | ⟨m, v⟩
  · rw [hlen] at h
    cases h
  · rw [hlen] at h
    change (Write.writeAll v bs).bind (fun w => .ok (m + bs.length, w)) = _ at h
    rcases hwrite : Write.writeAll v bs with e | v'
    · rw [hwrite] at h
      cases h
    · rw [hwrite] at h
      cases h
      rw [written_writeAll v w' bs hwrite, written_encode len w v m hlen, Nat.add_assoc]

end Counting

instance : Counts UInt8 := ⟨fun _ _ _ _ => written_writeUInt⟩
instance : Counts UInt16 := ⟨fun _ _ _ _ => written_writeUInt⟩
instance : Counts UInt32 := ⟨fun _ _ _ _ => written_writeUInt⟩
instance : Counts UInt64 := ⟨fun _ _ _ _ => written_writeUInt⟩

instance : Counts String where
  written_encode s _ _ _ h := by
    refine written_prefixed (UInt16.ofNat s.utf8ByteSize) (strBytes s) ?_
    rw [length_strBytes]
    exact h

instance : Counts Data where
  written_encode d _ _ _ h :=
    written_prefixed (UInt32.ofNat d.bytes.length) d.bytes h

/-! Records and lists are chains of `<<<`. -/

instance : Counts Qid where
  written_encode q w _ _ h :=
    (((counting_first w q.typ.bits).shiftLeft q.version).shiftLeft q.path).finish h

instance : Counts Statfs where
  written_encode s w _ _ h := by
    apply Counting.finish _ h
    apply_rules [counting_first, Counting.shiftLeft]

instance : Counts Time where
  written_encode t w _ _ h := ((counting_first w t.sec).shiftLeft t.nsec).finish h

instance : Counts Stat where
  written_encode s w _ _ h := by
    apply Counting.finish _ h
    apply_rules [counting_first, Counting.shiftLeft]

instance : Counts SetAttr where
  written_encode s w _ _ h := by
    apply Counting.finish _ h
    apply_rules [counting_first, Counting.shiftLeft]

instance : Counts DirEntry where
  written_encode e w _ _ h :=
    ((((counting_first w e.qid).shiftLeft e.offset).shiftLeft e.typ).shiftLeft e.name).finish h

instance : Counts DirEntryData where
  written_encode d w _ _ h :=
    ((counting_first w d.size).foldl (fun _ _ => rfl) d.data).finish h

instance : Counts Flock where
  written_encode l w _ _ h := by
    apply Counting.finish _ h
    apply_rules [counting_first, Counting.shiftLeft]

instance : Counts Getlock where
  written_encode l w _ _ h := by
    apply Counting.finish _ h
    apply_rules [counting_first, Counting.shiftLeft]

instance {α : Type} [Encodable α] [Counts α] : Counts (List α) where
  written_encode v w _ _ h :=
    ((counting_first w (UInt16.ofNat v.length)).foldl (fun _ _ => rfl) v).finish h

theorem Counting.encodeFields {W : Type} [CountedWrite W] {w : W} {r : SResult (Encoder W)}
    (h : Counting w r) (f : Fcall) : Counting w (f.encodeFields r) := by
  cases f
  all_goals
    simp only [Fcall.encodeFields]
    repeat' first | exact h | refine Counting.shiftLeft ?_ _

instance : Counts Msg where
  written_encode m w _ _ h := by
    have hhead := (counting_first w m.body.msgType.toU8).shiftLeft m.tag
    exact (hhead.encodeFields m.body).finish h

/-- Every count that is returned is that of the bytes written, whatever is too long for its field
and whichever writer fails; the field in front of a listing is the number of its bytes, as long as
it can hold that. -/
theorem writeMsg_size {W : Type} [CountedWrite W] (msg : Msg) :
    (∀ (w w' : W) (n : ℕ), writeMsg w msg = .ok (n, w') → written w' = written w + n) ∧
    (∀ w : List UInt8, ∃ bytes, writeMsg w msg = .ok (bytes.length, w ++ bytes)) ∧
    ∀ (data : DirEntryData) (w : List UInt8), msg.body = .rreaddir data →
      ∃ (head : List UInt8) (entries : List (List UInt8)), head.length = 3 ∧
        List.Forall₂ (fun e bytes => Encodable.encode e ([] : List UInt8) =
          .ok (bytes.length, bytes)) data.data entries ∧
        writeMsg w msg = .ok (7 + entries.flatten.length,
          w ++ (head ++ leBytes 4 data.size.toNat ++ entries.flatten)) ∧
        (entries.flatten.length < 2 ^ 32 → data.size.toNat = entries.flatten.length) := by
  refine ⟨fun w w' n h => written_encode msg w w' n h, fun w => ⟨wire msg, writeMsg_vec msg w⟩,
    fun data w hdata => ?_⟩
  obtain ⟨tag, body⟩ := msg
  subst hdata
  refine ⟨wire MsgType.rreaddir.toU8 ++ wire tag, data.data.map wire, by simp, ?_, ?_, ?_⟩
  · rw [List.forall₂_map_right_iff, List.forall₂_same]
    exact fun e _ => encode_wire e []
  · have hwire : wire (⟨tag, .rreaddir data⟩ : Msg) = wire MsgType.rreaddir.toU8 ++ wire tag ++
        leBytes 4 data.size.toNat ++ data.data.flatMap wire := by
      change wire MsgType.rreaddir.toU8 ++ wire tag ++ (Fcall.rreaddir data).wireFields = _
      rw [wireFields_rreaddir, List.append_assoc _ (leBytes 4 data.size.toNat)]
      rfl
    rw [writeMsg_vec, hwire, ← List.flatMap_def]
    simp only [List.length_append, length_wire_uint8, length_wire_uint16, length_leBytes]
  · intro hlen
    rw [← List.flatMap_def, length_flatMap_wire] at hlen ⊢
    rw [DirEntryData.size_eq, UInt32.toNat_ofNat', Nat.mod_eq_of_lt hlen]

/-! Lengths that their field cannot hold. -/

/-- A field that has its length, or its number of elements, in `width` bytes in front of it. -/
structure Prefixed where
  width : ℕ
  length : ℕ
  content : List UInt8

namespace Prefixed

/-- The value of the bytes in front of the content. -/
def announced (p : Prefixed) : ℕ := leVal (leBytes p.width p.length)

def bytes (p : Prefixed) : List UInt8 := leBytes p.width p.length ++ p.content

theorem announced_ne_iff (p : Prefixed) : p.announced ≠ p.length ↔ 256 ^ p.width ≤ p.length := by
  have hpos : 0 < 256 ^ p.width := Nat.pow_pos (by decide)
  unfold announced
  rw [leVal_leBytes, Ne, Nat.mod_eq_iff_lt hpos.ne', not_lt]

def string (s : String) : Prefixed := ⟨2, s.utf8ByteSize, strBytes s⟩

def vec {α : Type} [Encodable α] [Emits α] (v : List α) : Prefixed := ⟨2, v.length, v.flatMap wire⟩

def data (d : Data) : Prefixed := ⟨4, d.bytes.length, d.bytes⟩

end Prefixed

namespace Fcall

/-- The vectors of a message body. -/
def vectors : Fcall → List Prefixed
  | .twalk _ _ wnames => [.vec wnames]
  | .rwalk wqids => [.vec wqids]
  | _ => []

/-- The data of a message body. -/
def datas : Fcall → List Prefixed
  | .rread data => [.data data]
  | .twrite _ _ data => [.data data]
  | _ => []

def prefixed (f : Fcall) : List Prefixed := f.strings.map .string ++ f.vectors ++ f.datas

/-- A string, a vector or data is too long for the field of its length. -/
def Oversized (f : Fcall) : Prop :=
  (∃ s ∈ f.strings, 65535 < s.utf8ByteSize) ∨ 65535 < f.vecLen ∨ 2 ^ 32 - 1 < f.payload.length

end Fcall

theorem wire_ofNat_uint16 (n : ℕ) : wire (UInt16.ofNat n) = leBytes 2 n := by
  change leBytes 2 (UInt16.ofNat n).toNat = _
  rw [UInt16.toNat_ofNat']
  exact leBytes_mod 2 n

theorem wire_ofNat_uint32 (n : ℕ) : wire (UInt32.ofNat n) = leBytes 4 n := by
  change leBytes 4 (UInt32.ofNat n).toNat = _
  rw [UInt32.toNat_ofNat']
  exact leBytes_mod 4 n

theorem bytes_string (s : String) : (Prefixed.string s).bytes = wire s :=
  congrArg (· ++ strBytes s) (wire_ofNat_uint16 _).symm

theorem bytes_data (d : Data) : (Prefixed.data d).bytes = wire d :=
  congrArg (· ++ d.bytes) (wire_ofNat_uint32 _).symm

theorem bytes_vec {α : Type} [Encodable α] [Decodable α] [Decodes α] (v : List α) :
    (Prefixed.vec v).bytes = wire v :=
  congrArg (· ++ v.flatMap wire) (wire_ofNat_uint16 _).symm

theorem infix_wire_list {α : Type} [Encodable α] [Decodable α] [Decodes α] {v : List α} {x : α}
    (h : x ∈ v) : wire x <:+: wire v :=
  List.infix_append_of_infix_right
    (List.infix_of_mem_flatten (List.mem_map_of_mem h))

theorem infix_wire_dirents {d : DirEntryData} {e : DirEntry} (h : e ∈ d.data) :
    wire e <:+: wire d :=
  List.infix_append_of_infix_right
    (List.infix_of_mem_flatten (List.mem_map_of_mem h))

theorem infix_wire_flock (l : Flock) : wire l.clientId <:+: wire l := List.infix_append_right

theorem infix_wire_getlock (l : Getlock) : wire l.clientId <:+: wire l := List.infix_append_right

theorem infix_wire_dirent (e : DirEntry) : wire e.name <:+: wire e := List.infix_append_right

namespace Fcall

/-- Every prefixed field of a message is written, with as much of its length as fits in front. -/
theorem infix_wireFields {f : Fcall} {p : Prefixed} (hp : p ∈ f.prefixed) :
    p.bytes <:+: f.wireFields := by
  revert p
  cases f with
  | rreaddir data =>
    intro p hp
    obtain ⟨e, he, rfl⟩ : ∃ e ∈ data.data, Prefixed.string e.name = p := by
      simpa [prefixed, strings, vectors, datas] using hp
    rw [bytes_string, wireFields_rreaddir]
    exact (infix_wire_dirent e).trans (infix_wire_dirents he)
  | twalk fid newfid wnames =>
    have hwire : wire wnames <:+: (twalk fid newfid wnames).wireFields := by
      simp only [wireFields, encodeFields, sresult_shiftLeft]
      exact List.infix_append_right
    intro p hp
    have hcases : (∃ name ∈ wnames, Prefixed.string name = p) ∨ p = .vec wnames := by
      simpa [prefixed, strings, vectors, datas] using hp
    rcases hcases with ⟨name, hname, rfl⟩ | rfl
    · rw [bytes_string]
      exact (infix_wire_list hname).trans hwire
    · rw [bytes_vec]
      exact hwire
  | _ =>
    simp [prefixed, strings, vectors, datas, encodeFields, wireFields, bytes_string, bytes_vec,
      bytes_data]
    all_goals
      repeat' with_reducible first
        | exact List.infix_append_left
        | exact List.infix_rfl
        | exact infix_wire_flock _
        | exact infix_wire_getlock _
        | refine List.infix_append_of_infix_right ?_
        | refine And.intro ?_ ?_

theorem vectors_oversized_iff (f : Fcall) :
    (∃ p ∈ f.vectors, p.announced ≠ p.length) ↔ 65535 < f.vecLen := by
  simp only [Prefixed.announced_ne_iff]
  cases f with
  | twalk | rwalk => simp [vectors, vecLen, Prefixed.vec, Nat.lt_iff_add_one_le]
  | _ => simp [vectors, vecLen]

theorem datas_oversized_iff (f : Fcall) :
    (∃ p ∈ f.datas, p.announced ≠ p.length) ↔ 2 ^ 32 - 1 < f.payload.length := by
  simp only [Prefixed.announced_ne_iff]
  cases f with
  | rread | twrite => simp [datas, payload, Prefixed.data, Nat.lt_iff_add_one_le]
  | _ => simp [datas, payload]

theorem oversized_iff (f : Fcall) :
    f.Oversized ↔ ∃ p ∈ f.prefixed, p.announced ≠ p.length := by
  have hstrings : (∃ p ∈ f.strings.map Prefixed.string, p.announced ≠ p.length) ↔
      ∃ s ∈ f.strings, 65535 < s.utf8ByteSize := by
    simp [Prefixed.announced_ne_iff, Prefixed.string, Nat.lt_iff_add_one_le]
  unfold Oversized prefixed
  rw [← hstrings, ← vectors_oversized_iff, ← datas_oversized_iff]
  simp only [List.mem_append, or_and_right, exists_or, or_assoc]

end Fcall

/-- No length is too much for the encoder: it writes the contents whole, and in front of what is
too long for its field another length. -/
theorem writeMsg_oversized (msg : Msg) (w : List UInt8) :
    ∃ bytes, writeMsg w msg = .ok (bytes.length, w ++ bytes) ∧
      (∀ p ∈ msg.body.prefixed, p.bytes <:+: bytes) ∧
      (msg.body.Oversized ↔ ∃ p ∈ msg.body.prefixed, p.announced ≠ p.length) := by
  refine ⟨wire msg, writeMsg_vec msg w, fun p hp => ?_, msg.body.oversized_iff⟩
  exact List.infix_append_of_infix_right (Fcall.infix_wireFields hp)

/-- A walk by 65536 names is written as one by none, with the names after it. -/
def longWalk : Msg := ⟨1, .twalk 0 1 (List.replicate 65536 "")⟩

theorem not_writeMsg_oversized : ¬ ∀ (msg : Msg) (w : List UInt8), msg.body.Oversized →
    (∃ e, writeMsg w msg = .error e) ∨ ∀ p ∈ msg.body.prefixed, p.announced = p.length := by
  intro h
  have hlen : longWalk.body.vecLen = 65536 := List.length_replicate
  have hover : longWalk.body.Oversized := .inr (.inl (by omega))
  rcases h longWalk [] hover with ⟨e, he⟩ | hagree
  · rw [writeMsg_vec] at he
    cases he
  · obtain ⟨p, hp, hne⟩ := longWalk.body.oversized_iff.mp hover
    exact hne (hagree p hp)

end P9cpu.Ninep
