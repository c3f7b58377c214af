import P9cpu.Ninep.Serialize

/-! Unix paths as the standard library joins them, and the lossy reading of their bytes. -/
namespace P9cpu.Ninep

/-- The bytes of an `OsString`. -/
structure PathBuf where
  bytes : List UInt8
deriving DecidableEq

namespace PathBuf

def ofString (s : String) : PathBuf := ⟨strBytes s⟩

/-- `is_absolute` on Unix: the first byte is `/`. -/
def isAbsolute (p : List UInt8) : Bool := p.head? = some 0x2f

/-- `PathBuf::push`: an absolute path replaces the receiver, a relative one follows it after
a separator where the receiver does not end in one. -/
def push (p : PathBuf) (path : String) : PathBuf :=
  let path := strBytes path
  if isAbsolute path then ⟨path⟩
  else if p.bytes = [] ∨ p.bytes.getLast? = some 0x2f then ⟨p.bytes ++ path⟩
  else ⟨p.bytes ++ 0x2f :: path⟩

/-- `Path::join`. -/
def join (p : PathBuf) (path : String) : PathBuf := p.push path

end PathBuf

/-! `String::from_utf8_lossy`: every maximal part of an ill-formed sequence becomes one
replacement character. -/

/-- What the decoder expects next. -/
inductive Utf8State
  | start
  /-- `need` more bytes, the next one between `lo` and `hi`; `code` so far -/
  | more (need : ℕ) (code : ℕ) (lo hi : UInt8)

def replacementCharacter : Char := '\uFFFD'

/-- The first byte of a sequence: the characters it completes and the state after it. -/
def utf8Lead (b : UInt8) : List Char × Utf8State :=
  if b < 0x80 then ([Char.ofNat b.toNat], .start)
  else if 0xc2 ≤ b ∧ b ≤ 0xdf then ([], .more 1 (b.toNat - 0xc0) 0x80 0xbf)
  else if b = 0xe0 then ([], .more 2 0 0xa0 0xbf)
  else if b = 0xed then ([], .more 2 (b.toNat - 0xe0) 0x80 0x9f)
  else if 0xe1 ≤ b ∧ b ≤ 0xef then ([], .more 2 (b.toNat - 0xe0) 0x80 0xbf)
  else if b = 0xf0 then ([], .more 3 0 0x90 0xbf)
  else if 0xf1 ≤ b ∧ b ≤ 0xf3 then ([], .more 3 (b.toNat - 0xf0) 0x80 0xbf)
  else if b = 0xf4 then ([], .more 3 (b.toNat - 0xf0) 0x80 0x8f)
  else ([replacementCharacter], .start)

def utf8Lossy : Utf8State → List UInt8 → List Char
  | .start, [] => []
  | .more .., [] => [replacementCharacter]
  | .start, b :: bs => (utf8Lead b).1 ++ utf8Lossy (utf8Lead b).2 bs
  | .more need code lo hi, b :: bs =>
    if lo ≤ b ∧ b ≤ hi then
      let code := code * 64 + (b.toNat - 0x80)
      if need ≤ 1 then Char.ofNat code :: utf8Lossy .start bs
      else utf8Lossy (.more (need - 1) code 0x80 0xbf) bs
    else replacementCharacter :: ((utf8Lead b).1 ++ utf8Lossy (utf8Lead b).2 bs)

def fromUtf8Lossy (bs : List UInt8) : String := String.ofList (utf8Lossy .start bs)

/-- `Path::to_string_lossy`. -/
def PathBuf.toStringLossy (p : PathBuf) : String := fromUtf8Lossy p.bytes

example : fromUtf8Lossy [0x61, 0xe2, 0x82, 0xac, 0xe2, 0x82, 0x62, 0xff] =
    "a€\uFFFDb\uFFFD" := by decide

theorem utf8Lossy_ascii (bs : List UInt8) (h : ∀ b ∈ bs, b < 0x80) :
    utf8Lossy .start bs = bs.map (fun b => Char.ofNat b.toNat) := by
  induction bs with
  | nil => rfl
  | cons b bs ih =>
    have hb : b < 0x80 := h b (by simp)
    have hlead : utf8Lead b = ([Char.ofNat b.toNat], .start) := by simp [utf8Lead, hb]
    rw [utf8Lossy, hlead, ih fun c hc => h c (by simp [hc])]
    rfl

theorem utf8ByteSize_fromUtf8Lossy (bs : List UInt8) (h : ∀ b ∈ bs, b < 0x80) :
    (fromUtf8Lossy bs).utf8ByteSize = bs.length := by
  rw [fromUtf8Lossy, utf8Lossy_ascii bs h]
  induction bs with
  | nil => rfl
  | cons b bs ih =>
    have hb : b.toNat < 128 := h b (by simp)
    have hone : ∀ n < 128, (Char.ofNat n).utf8Size = 1 := by decide
    rw [List.map_cons, String.ofList_cons, String.utf8ByteSize_append,
      String.utf8ByteSize_singleton, hone _ hb, ih fun c hc => h c (by simp [hc]),
      List.length_cons, Nat.add_comm]

end P9cpu.Ninep
