import Mathlib.Data.Nat.Init
import Mathlib.Data.List.Basic
import Mathlib.Tactic.Ring

/-! Byte strings as a wire format: little-endian integers, and readers that consume
a prefix of their input. -/
namespace P9cpu.Core

/-- The `n` low bytes of `x`, least significant first. -/
def leBytes : ℕ → ℕ → List UInt8
  | 0, _ => []
  | n + 1, x => UInt8.ofNat x :: leBytes n (x / 256)

/-- The number whose little-endian bytes are given. -/
def leVal : List UInt8 → ℕ
  | [] => 0
  | b :: bs => b.toNat + 256 * leVal bs

@[simp] theorem length_leBytes (n x : ℕ) : (leBytes n x).length = n := by
  induction n generalizing x with
  | zero => rfl
  | succ n ih => simp [leBytes, ih]

theorem leVal_leBytes (n x : ℕ) : leVal (leBytes n x) = x % 256 ^ n := by
  induction n generalizing x with
  | zero => simp [leBytes, leVal, Nat.mod_one]
  | succ n ih =>
    have hlow : (UInt8.ofNat x).toNat = x % 256 := UInt8.toNat_ofNat'
    rw [leBytes, leVal, ih, hlow, pow_succ', Nat.mod_mul]

theorem leVal_leBytes_of_lt {n x : ℕ} (h : x < 256 ^ n) : leVal (leBytes n x) = x := by
  rw [leVal_leBytes, Nat.mod_eq_of_lt h]

/-- A reader takes a value off the front of its input or fails. -/
abbrev Reader (E α : Type) := StateT (List UInt8) (Except E) α

variable {E α β : Type}

/-- Take exactly `n` bytes; `e` when the input is shorter. -/
def readExact (e : E) (n : ℕ) : Reader E (List UInt8) := fun input =>
  if n ≤ input.length then .ok (input.take n, input.drop n) else .error e

/-- Run a reader `n` times and collect the values in order. -/
def readMany (r : Reader E α) : ℕ → Reader E (List α)
  | 0 => pure []
  | n + 1 => do
    let a ← r
    List.cons a <$> readMany r n

/-- On every input that starts with `bs`, the reader takes `bs` and returns `a`. -/
def Reads (r : Reader E α) (bs : List UInt8) (a : α) : Prop :=
  ∀ rest, r (bs ++ rest) = .ok (a, rest)

theorem Reads.pure (a : α) : Reads (pure a : Reader E α) [] a := fun _ => rfl

theorem Reads.bind {r : Reader E α} {f : α → Reader E β} {bs cs : List UInt8} {a : α} {b : β}
    (hr : Reads r bs a) (hf : Reads (f a) cs b) : Reads (r >>= f) (bs ++ cs) b := by
  intro rest
  change (r (bs ++ cs ++ rest)).bind _ = _
  rw [List.append_assoc, hr]
  exact hf rest

/-- The last field of a record: nothing is read after it. -/
theorem Reads.map {r : Reader E α} {bs : List UInt8} {a : α} (hr : Reads r bs a) (f : α → β) :
    Reads (f <$> r) bs (f a) := by
  intro rest
  change (r (bs ++ rest)).bind _ = _
  rw [hr]
  rfl

theorem Reads.congr {r : Reader E α} {bs cs : List UInt8} {a b : α} (h : Reads r bs a)
    (hbs : bs = cs) (hab : a = b) : Reads r cs b := hbs ▸ hab ▸ h

theorem reads_readExact (e : E) (bs : List UInt8) : Reads (readExact e bs.length) bs bs := by
  intro rest
  simp [readExact]

theorem reads_readMany {r : Reader E α} {wire : α → List UInt8} (as : List α)
    (h : ∀ a ∈ as, Reads r (wire a) a) :
    Reads (readMany r as.length) (as.flatMap wire) as := by
  induction as with
  | nil => exact .pure []
  | cons a as ih =>
    have hhead := h a (by simp)
    have htail := ih (fun b hb => h b (by simp [hb]))
    exact hhead.bind (htail.map (List.cons a))

/-- Whatever the reader takes off an input is in `P`. -/
def Yields (r : Reader E α) (P : α → Prop) : Prop :=
  ∀ input a rest, r input = .ok (a, rest) → P a

theorem Yields.of_forall {P : α → Prop} (h : ∀ a, P a) (r : Reader E α) : Yields r P :=
  fun _ a _ _ => h a

theorem Yields.pure {P : α → Prop} {a : α} (h : P a) : Yields (pure a : Reader E α) P := by
  intro input b rest hb
  cases hb
  exact h

theorem Yields.bind {P : α → Prop} {Q : β → Prop} {r : Reader E α} {f : α → Reader E β}
    (hr : Yields r P) (hf : ∀ a, P a → Yields (f a) Q) : Yields (r >>= f) Q := by
  intro input b rest hb
  change (r input).bind _ = _ at hb
  cases hi : r input with
  | error e => simp [hi, Except.bind] at hb
  | ok x => exact hf x.1 (hr input x.1 x.2 hi) x.2 b rest (by simpa [hi, Except.bind] using hb)

/-- A field that the property does not depend on. -/
theorem Yields.bind_of_forall {Q : β → Prop} {f : α → Reader E β} (hf : ∀ a, Yields (f a) Q)
    (r : Reader E α) : Yields (r >>= f) Q :=
  (Yields.of_forall (P := fun _ => True) (fun _ => True.intro) r).bind fun a _ => hf a

theorem Yields.map {P : α → Prop} {Q : β → Prop} {r : Reader E α} {f : α → β}
    (hr : Yields r P) (hf : ∀ a, P a → Q (f a)) : Yields (f <$> r) Q :=
  hr.bind fun a ha => .pure (hf a ha)

theorem yields_readMany (r : Reader E α) (n : ℕ) :
    Yields (readMany r n) (fun as => as.length = n) := by
  induction n with
  | zero => exact .pure rfl
  | succ n ih =>
    refine .bind_of_forall (fun a => ?_) r
    exact ih.map fun as has => congrArg Nat.succ has

/-! What a reader takes off its input. -/

theorem leBytes_leVal (bs : List UInt8) : leBytes bs.length (leVal bs) = bs := by
  induction bs with
  | nil => rfl
  | cons b bs ih =>
    have hb : b.toNat < 256 := b.toNat_lt
    have hlow : UInt8.ofNat (b.toNat + 256 * leVal bs) = b := by
      rw [← UInt8.toNat_inj, UInt8.toNat_ofNat']
      omega
    have hrest : (b.toNat + 256 * leVal bs) / 256 = leVal bs := by omega
    rw [List.length_cons, leBytes, leVal, hlow, hrest, ih]

theorem leBytes_mod (n x : ℕ) : leBytes n (x % 256 ^ n) = leBytes n x := by
  have h := leBytes_leVal (leBytes n x)
  rwa [length_leBytes, leVal_leBytes] at h

theorem leVal_lt (bs : List UInt8) : leVal bs < 256 ^ bs.length := by
  induction bs with
  | nil => simp [leVal]
  | cons b bs ih =>
    have hb : b.toNat < 256 := b.toNat_lt
    rw [List.length_cons, leVal, pow_succ']
    omega

/-- The reader takes a prefix of its input, and `G` relates the prefix and the value. -/
def Takes (r : Reader E α) (G : List UInt8 → α → Prop) : Prop :=
  ∀ input a rest, r input = .ok (a, rest) → ∃ bs, input = bs ++ rest ∧ G bs a

theorem Takes.pure {G : List UInt8 → α → Prop} {a : α} (h : G [] a) :
    Takes (pure a : Reader E α) G := by
  intro input b rest hb
  cases hb
  exact ⟨[], rfl, h⟩

theorem Takes.bind {G : List UInt8 → α → Prop} {H : List UInt8 → β → Prop} {r : Reader E α}
    {f : α → Reader E β} (hr : Takes r G)
    (hf : ∀ bs a, G bs a → Takes (f a) (fun cs b => H (bs ++ cs) b)) : Takes (r >>= f) H := by
  intro input b rest hb
  change (r input).bind _ = _ at hb
  cases hi : r input with
  | error e => simp [hi, Except.bind] at hb
  | ok x =>
    obtain ⟨bs, rfl, hG⟩ := hr input x.1 x.2 hi
    have hb' : f x.1 x.2 = .ok (b, rest) := by simpa [hi, Except.bind] using hb
    obtain ⟨cs, hcs, hH⟩ := hf bs x.1 hG x.2 b rest hb'
    exact ⟨bs ++ cs, by rw [hcs, List.append_assoc], hH⟩

theorem Takes.map {G : List UInt8 → α → Prop} {H : List UInt8 → β → Prop} {r : Reader E α}
    {f : α → β} (hr : Takes r G) (hf : ∀ bs a, G bs a → H bs (f a)) : Takes (f <$> r) H := by
  refine hr.bind fun bs a h => .pure ?_
  rw [List.append_nil]
  exact hf bs a h

theorem takes_throw (e : E) (G : List UInt8 → α → Prop) : Takes (throw e : Reader E α) G := by
  intro input a rest h
  cases h

theorem takes_readExact (e : E) (n : ℕ) :
    Takes (readExact e n) (fun bs a => a = bs ∧ bs.length = n) := by
  intro input a rest h
  unfold readExact at h
  split_ifs at h with hn
  cases h
  exact ⟨input.take n, by simp, rfl, by simpa using hn⟩

theorem takes_readMany {r : Reader E α} {wire : α → List UInt8}
    (hr : Takes r (fun bs a => bs = wire a)) (n : ℕ) :
    Takes (readMany r n) (fun bs as => bs = as.flatMap wire ∧ as.length = n) := by
  induction n with
  | zero => exact .pure ⟨rfl, rfl⟩
  | succ n ih =>
    refine hr.bind fun bs a hbs => ih.map fun cs as hcs => ?_
    obtain ⟨rfl, hlen⟩ := hcs
    exact ⟨by rw [hbs, List.flatMap_cons], by rw [List.length_cons, hlen]⟩

end P9cpu.Core
