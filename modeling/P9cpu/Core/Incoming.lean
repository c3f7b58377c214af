import Mathlib.Data.List.Basic
import Mathlib.Tactic.SplitIfs

/-! A byte stream as a blocking reader gets it: in parts that are not empty, up to its end or to
an error. -/
namespace P9cpu.Core

inductive Incoming (ε : Type)
  | done
  | failed (e : ε)
  | part (b : UInt8) (bs : List UInt8) (rest : Incoming ε)
deriving DecidableEq

namespace Incoming

variable {ε : Type}

/-- All bytes that will come. -/
def bytes : Incoming ε → List UInt8
  | .done | .failed _ => []
  | .part b bs rest => b :: bs ++ rest.bytes

/-- The error behind the last byte. -/
def error : Incoming ε → Option ε
  | .done => none
  | .failed e => some e
  | .part _ _ rest => rest.error

/-- The stream behind the bytes that are left of its first part. -/
def behind (rest : Incoming ε) : List UInt8 → Incoming ε
  | [] => rest
  | b :: bs => .part b bs rest

/-- `Read::read` into a buffer of `n` bytes: what there is of the next part. -/
def read (n : ℕ) : Incoming ε → Except ε (List UInt8) × Incoming ε
  | .done => (.ok [], .done)
  | .failed e => (.error e, .failed e)
  | .part b bs rest => (.ok ((b :: bs).take n), rest.behind ((b :: bs).drop n))

/-- `Read::read_exact` for `n` bytes: it reads until it has them; `eof` where the stream ends
before. -/
def readExact (eof : ε) : ℕ → Incoming ε → Except ε (List UInt8) × Incoming ε
  | 0, s => (.ok [], s)
  | _ + 1, .done => (.error eof, .done)
  | _ + 1, .failed e => (.error e, .failed e)
  | n + 1, .part b bs rest =>
    if n < bs.length then (.ok ((b :: bs).take (n + 1)), rest.behind ((b :: bs).drop (n + 1)))
    else
      let (r, rest) := readExact eof (n - bs.length) rest
      (r.map (b :: bs ++ ·), rest)

@[simp] theorem bytes_behind (rest : Incoming ε) (bs : List UInt8) :
    (rest.behind bs).bytes = bs ++ rest.bytes := by
  cases bs <;> rfl

@[simp] theorem error_behind (rest : Incoming ε) (bs : List UInt8) :
    (rest.behind bs).error = rest.error := by
  cases bs <;> rfl

/-- The loop of `read_exact`: one `read` after the other until the buffer is full. -/
theorem readExact_succ (eof : ε) (n : ℕ) (s : Incoming ε) :
    s.readExact eof (n + 1) =
      match s.read (n + 1) with
      | (.error e, s) => (.error e, s)
      | (.ok [], s) => (.error eof, s)
      | (.ok (b :: bs), s) =>
        let (r, s) := s.readExact eof (n - bs.length)
        (r.map (b :: bs ++ ·), s) := by
  cases s with
  | done | failed => rfl
  | part b bs rest =>
    rw [readExact, read, List.take_succ_cons, List.drop_succ_cons]
    split_ifs with hlt
    · have hzero : n - (bs.take n).length = 0 := by
        rw [List.length_take]
        omega
      simp only [hzero, readExact, Except.map, List.append_nil]
    · have htake : bs.take n = bs := List.take_of_length_le (by omega)
      have hdrop : bs.drop n = [] := List.drop_of_length_le (by omega)
      simp only [htake, hdrop, behind]

/-- However the bytes are cut into parts, `read_exact` takes the next `n` of them. -/
theorem readExact_of_le (eof : ε) {n : ℕ} {s : Incoming ε} (h : n ≤ s.bytes.length) :
    ∃ t, s.readExact eof n = (.ok (s.bytes.take n), t) ∧ t.bytes = s.bytes.drop n ∧
      t.error = s.error := by
  induction s generalizing n with
  | done | failed =>
    obtain rfl : n = 0 := Nat.le_zero.mp h
    exact ⟨_, rfl, rfl, rfl⟩
  | part b bs rest ih =>
    cases n with
    | zero => exact ⟨_, rfl, rfl, rfl⟩
    | succ n =>
      rw [readExact, bytes]
      rw [bytes, List.length_append, List.length_cons] at h
      split_ifs with hlt
      · have hle : n + 1 ≤ (b :: bs).length := Nat.succ_le_succ (Nat.le_of_lt hlt)
        refine ⟨rest.behind ((b :: bs).drop (n + 1)), ?_, ?_, error_behind _ _⟩
        · rw [List.take_append_of_le_length hle]
        · rw [bytes_behind, List.drop_append_of_le_length hle]
      · obtain ⟨t, hread, hbytes, herror⟩ := ih (n := n - bs.length) (by omega)
        have hsum : n + 1 = (b :: bs).length + (n - bs.length) := by
          rw [List.length_cons]
          omega
        refine ⟨t, ?_, ?_, herror⟩
        · rw [hread, hsum, List.take_length_add_append]
          rfl
        · rw [hbytes, hsum, List.drop_length_add_append]

/-- Where there are less than `n` bytes, it fails. -/
theorem readExact_of_lt (eof : ε) {n : ℕ} {s : Incoming ε} (h : s.bytes.length < n) :
    ∃ e t, s.readExact eof n = (.error e, t) := by
  induction s generalizing n with
  | done | failed =>
    obtain ⟨m, rfl⟩ := Nat.exists_eq_succ_of_ne_zero (Nat.ne_of_gt (Nat.zero_lt_of_lt h))
    exact ⟨_, _, rfl⟩
  | part b bs rest ih =>
    obtain ⟨m, rfl⟩ := Nat.exists_eq_succ_of_ne_zero (Nat.ne_of_gt (Nat.zero_lt_of_lt h))
    rw [bytes, List.length_append, List.length_cons] at h
    obtain ⟨e, t, hread⟩ := ih (n := m - bs.length) (by omega)
    rw [readExact, if_neg (by omega), hread]
    exact ⟨e, t, rfl⟩

/-- A read of one byte at the end of the stream. -/
theorem read_eq_ok_nil_iff {n : ℕ} (hn : n ≠ 0) (s : Incoming ε) :
    (s.read n).1 = .ok [] ↔ s.bytes = [] ∧ s.error = none := by
  obtain ⟨m, rfl⟩ := Nat.exists_eq_succ_of_ne_zero hn
  cases s with
  | done => exact ⟨fun _ => ⟨rfl, rfl⟩, fun _ => rfl⟩
  | failed e =>
    constructor
    · intro h
      cases h
    · rintro ⟨-, h⟩
      cases h
  | part b bs rest =>
    constructor
    · intro h
      cases h
    · rintro ⟨h, -⟩
      cases h

end Incoming
end P9cpu.Core
