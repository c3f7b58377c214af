import Mathlib.Data.List.TakeWhile
import Mathlib.Tactic.Common

/-! Text as programs read it: its lines, the fields of a line, and decimal numbers in a range. -/
namespace P9cpu.Core

/-! Fields. -/

section
variable {α : Type} (sep : α → Bool)

/-- What stands between separators, without the empty parts. -/
def fields (l : List α) : List (List α) := (l.splitOnP sep).filter (!·.isEmpty)

/-- The fields `ws` with separators between them, and maybe before and after them. -/
inductive Laid : List (List α) → List α → Prop
  | nil {pad : List α} (hpad : ∀ a ∈ pad, sep a = true) : Laid [] pad
  | cons {pad w rest : List α} {ws : List (List α)} (hpad : ∀ a ∈ pad, sep a = true)
      (hne : w ≠ []) (hw : ∀ a ∈ w, sep a = false) (hrest : ∀ a ∈ rest.head?, sep a = true)
      (h : Laid ws rest) : Laid (w :: ws) (pad ++ (w ++ rest))

variable {sep} {pad w rest : List α}

theorem fields_pad (hpad : ∀ a ∈ pad, sep a = true) (l : List α) :
    fields sep (pad ++ l) = fields sep l := by
  induction pad with
  | nil => rfl
  | cons a pad ih =>
    have ha : sep a = true := hpad a List.mem_cons_self
    have hfirst : fields sep (a :: (pad ++ l)) = fields sep (pad ++ l) := by
      simp [fields, List.splitOnP_cons_eq_if_modifyHead, ha]
    rw [List.cons_append, hfirst]
    exact ih fun b hb => hpad b (List.mem_cons_of_mem _ hb)

theorem fields_word (hne : w ≠ []) (hw : ∀ a ∈ w, sep a = false)
    (hrest : ∀ a ∈ rest.head?, sep a = true) :
    fields sep (w ++ rest) = w :: fields sep rest := by
  have hkept : (!w.isEmpty) = true := by simpa using hne
  cases rest with
  | nil => simp [fields, List.splitOnP_eq_singleton hw, hkept]
  | cons a rest =>
    have ha : sep a = true := hrest a rfl
    have hsplit : (w ++ a :: rest).splitOnP sep = w :: rest.splitOnP sep :=
      List.splitOnP_append_cons_of_forall_mem hw a ha rest
    have hbehind : fields sep (a :: rest) = fields sep rest :=
      fields_pad (List.forall_mem_singleton.mpr ha) rest
    rw [hbehind]
    unfold fields
    rw [hsplit, List.filter_cons, if_pos hkept]

/-- A list up to its first element without `p`. -/
theorem exists_span (p : α → Bool) (l : List α) :
    ∃ before behind, l = before ++ behind ∧ (∀ a ∈ before, p a = true) ∧
      ∀ a ∈ behind.head?, p a = false := by
  refine ⟨l.takeWhile p, l.dropWhile p, List.takeWhile_append_dropWhile.symm,
    fun a ha => List.mem_takeWhile_imp ha, fun a ha => ?_⟩
  have hhead := List.head?_dropWhile_not p l
  rw [Option.mem_def.mp ha] at hhead
  exact hhead

/-- Every text is laid out with its fields. -/
theorem laid_fields (l : List α) : Laid sep (fields sep l) l := by
  induction hlen : l.length using Nat.strongRecOn generalizing l with
  | ind n ih =>
    obtain ⟨pad, l', rfl, hpad, hl'⟩ := exists_span sep l
    rw [fields_pad hpad]
    cases l' with
    | nil =>
      rw [List.append_nil]
      exact .nil hpad
    | cons a l' =>
      obtain ⟨w, rest, hw, hword, hrest⟩ := exists_span (fun a => !sep a) (a :: l')
      have ha : sep a = false := hl' a rfl
      have hne : w ≠ [] := by
        rintro rfl
        rw [List.nil_append] at hw
        have hstop := hrest a (by rw [← hw]; rfl)
        simp [ha] at hstop
      have hword' : ∀ b ∈ w, sep b = false := by simpa using hword
      have hrest' : ∀ b ∈ rest.head?, sep b = true := by simpa using hrest
      have hshorter : rest.length < n := by
        have hpos := List.length_pos_iff.mpr hne
        rw [hw] at hlen
        simp only [List.length_append] at hlen
        omega
      rw [hw, fields_word hne hword' hrest']
      exact .cons hpad hne hword' hrest' (ih _ hshorter rest rfl)

/-- A text has one list of fields. -/
theorem fields_eq_iff {ws : List (List α)} {l : List α} :
    fields sep l = ws ↔ Laid sep ws l := by
  constructor
  · rintro rfl
    exact laid_fields l
  · intro h
    induction h with
    | nil hpad =>
      have hall := fields_pad hpad []
      rw [List.append_nil] at hall
      rw [hall]
      rfl
    | cons hpad hne hw hrest _ ih => rw [fields_pad hpad, fields_word hne hw hrest, ih]

end

theorem Laid.padded {pad l : List α} {ws : List (List α)} (hpad : ∀ a ∈ pad, sep a = true)
    (h : Laid sep ws l) : Laid sep ws (pad ++ l) := by
  rw [← fields_eq_iff] at h ⊢
  rw [fields_pad hpad, h]

/-- Fields with one separator between them. -/
theorem laid_intercalate {a : α} (ha : sep a = true) {ws : List (List α)}
    (hws : ∀ w ∈ ws, w ≠ [] ∧ ∀ b ∈ w, sep b = false) : Laid sep ws ([a].intercalate ws) := by
  have hone : ∀ b ∈ [a], sep b = true := List.forall_mem_singleton.mpr ha
  induction ws with
  | nil => exact .nil (by simp)
  | cons w ws ih =>
    rw [List.forall_mem_cons] at hws
    have hrest := ih hws.2
    cases ws with
    | nil =>
      have hlast : Laid sep [w] ([] ++ (w ++ [])) :=
        .cons (by simp) hws.1.1 hws.1.2 (by simp) (.nil (by simp))
      simpa using hlast
    | cons w' ws =>
      rw [List.intercalate_cons_cons, List.append_assoc]
      have hmore : Laid sep (w :: w' :: ws) ([] ++ (w ++ ([a] ++ [a].intercalate (w' :: ws)))) :=
        .cons (by simp) hws.1.1 hws.1.2 (by simpa using ha) (hrest.padded hone)
      exact hmore

theorem mem_intercalate {a b : α} {ws : List (List α)} (h : b ∈ [a].intercalate ws) :
    b = a ∨ ∃ w ∈ ws, b ∈ w := by
  induction ws with
  | nil => simp at h
  | cons w ws ih =>
    cases ws with
    | nil => exact .inr ⟨w, List.mem_cons_self, by simpa using h⟩
    | cons w' ws =>
      rw [List.intercalate_cons_cons, List.mem_append, List.mem_append, List.mem_singleton] at h
      rcases h with (hw | ha) | hrest
      · exact .inr ⟨w, List.mem_cons_self, hw⟩
      · exact .inl ha
      · rcases ih hrest with ha | ⟨v, hv, hb⟩
        · exact .inl ha
        · exact .inr ⟨v, List.mem_cons_of_mem w hv, hb⟩

/-! Decimal numbers. -/

inductive IntErrorKind
  | empty
  | invalidDigit
  | posOverflow
  | negOverflow
deriving DecidableEq

/-- The digits behind `acc`; `kind` where the number comes above `max`. -/
def readDigits (max : ℕ) (kind : IntErrorKind) : ℕ → List Char → Except IntErrorKind ℕ
  | acc, [] => .ok acc
  | acc, c :: cs =>
    if c.isDigit then
      let acc := 10 * acc + (c.toNat - '0'.toNat)
      if max < acc then .error kind else readDigits max kind acc cs
    else .error .invalidDigit

/-- A number between `-min` and `max`, as `from_str_radix` reads it. -/
def readInt (min max : ℕ) : List Char → Except IntErrorKind ℤ
  | [] => .error .empty
  | c :: cs =>
    if c = '+' then
      if cs = [] then .error .invalidDigit
      else (readDigits max .posOverflow 0 cs).map fun n : ℕ => (n : ℤ)
    else if c = '-' then
      if cs = [] then .error .invalidDigit
      else (readDigits min .negOverflow 0 cs).map fun n : ℕ => -(n : ℤ)
    else (readDigits max .posOverflow 0 (c :: cs)).map fun n : ℕ => (n : ℤ)

/-- Digits, with a sign or without one. -/
inductive Numeral : List Char → ℤ → Prop
  | plain {cs : List Char} (hne : cs ≠ []) (h : ∀ c ∈ cs, c.isDigit = true) :
      Numeral cs (Nat.ofDigitChars 10 cs 0)
  | plus {cs : List Char} (hne : cs ≠ []) (h : ∀ c ∈ cs, c.isDigit = true) :
      Numeral ('+' :: cs) (Nat.ofDigitChars 10 cs 0)
  | minus {cs : List Char} (hne : cs ≠ []) (h : ∀ c ∈ cs, c.isDigit = true) :
      Numeral ('-' :: cs) (-(Nat.ofDigitChars 10 cs 0 : ℕ))

theorem le_ofDigitChars (cs : List Char) (acc : ℕ) : acc ≤ Nat.ofDigitChars 10 cs acc := by
  induction cs generalizing acc with
  | nil => simp
  | cons c cs ih =>
    rw [Nat.ofDigitChars_cons]
    have hrest := ih (10 * acc + (c.toNat - '0'.toNat))
    omega

/-- Where a number stays in its range to its last digit, it does so on the way. -/
theorem readDigits_eq_ok_iff {max : ℕ} {kind : IntErrorKind} {acc n : ℕ} (hacc : acc ≤ max)
    {cs : List Char} : readDigits max kind acc cs = .ok n ↔
      (∀ c ∈ cs, c.isDigit = true) ∧ Nat.ofDigitChars 10 cs acc = n ∧ n ≤ max := by
  induction cs generalizing acc with
  | nil =>
    simp only [readDigits, Except.ok.injEq, Nat.ofDigitChars_nil]
    constructor
    · rintro rfl
      exact ⟨by simp, rfl, hacc⟩
    · exact fun h => h.2.1
  | cons c cs ih =>
    rw [readDigits, Nat.ofDigitChars_cons, List.forall_mem_cons]
    have hle := le_ofDigitChars cs (10 * acc + (c.toNat - '0'.toNat))
    dsimp only
    split_ifs with hc hmax
    · constructor
      · intro h
        cases h
      · rintro ⟨-, hn, hn'⟩
        omega
    · rw [ih (by omega)]
      simp [hc]
    · constructor
      · intro h
        cases h
      · exact fun h => absurd h.1.1 hc

theorem map_eq_ok_iff {ε α β : Type} {f : α → β} {x : Except ε α} {b : β} :
    x.map f = .ok b ↔ ∃ a, x = .ok a ∧ f a = b := by
  cases x with
  | error e => simp [Except.map]
  | ok a => simp [Except.map]

/-- What is read are the numerals of the numbers in the range. -/
theorem readInt_eq_ok_iff {min max : ℕ} {s : List Char} {n : ℤ} :
    readInt min max s = .ok n ↔ Numeral s n ∧ -(min : ℤ) ≤ n ∧ n ≤ max := by
  constructor
  · intro h
    cases s with
    | nil => cases h
    | cons c cs =>
      rw [readInt] at h
      split_ifs at h with hplus hnil hminus hnil
      · obtain ⟨m, hread, rfl⟩ := map_eq_ok_iff.mp h
        obtain ⟨hdigits, rfl, hmax⟩ := (readDigits_eq_ok_iff (Nat.zero_le max)).mp hread
        rw [hplus]
        exact ⟨.plus hnil hdigits, by omega, by omega⟩
      · obtain ⟨m, hread, rfl⟩ := map_eq_ok_iff.mp h
        obtain ⟨hdigits, rfl, hmin⟩ := (readDigits_eq_ok_iff (Nat.zero_le min)).mp hread
        rw [hminus]
        exact ⟨.minus hnil hdigits, by omega, by omega⟩
      · obtain ⟨m, hread, rfl⟩ := map_eq_ok_iff.mp h
        obtain ⟨hdigits, rfl, hmax⟩ := (readDigits_eq_ok_iff (Nat.zero_le max)).mp hread
        exact ⟨.plain (List.cons_ne_nil c cs) hdigits, by omega, by omega⟩
  · rintro ⟨hnumeral, hmin, hmax⟩
    cases hnumeral with
    | plain hne hdigits =>
      obtain ⟨c, cs, rfl⟩ := List.exists_cons_of_ne_nil hne
      have hc : c.isDigit = true := hdigits c List.mem_cons_self
      have hplus : c ≠ '+' := by
        rintro rfl
        revert hc
        decide
      have hminus : c ≠ '-' := by
        rintro rfl
        revert hc
        decide
      have hread : readDigits max .posOverflow 0 (c :: cs) = .ok _ :=
        (readDigits_eq_ok_iff (Nat.zero_le max)).mpr ⟨hdigits, rfl, by omega⟩
      rw [readInt, if_neg hplus, if_neg hminus, hread]
      rfl
    | @plus cs hne hdigits =>
      have hread : readDigits max .posOverflow 0 cs = .ok _ :=
        (readDigits_eq_ok_iff (Nat.zero_le max)).mpr ⟨hdigits, rfl, by omega⟩
      rw [readInt, if_pos rfl, if_neg hne, hread]
      rfl
    | @minus cs hne hdigits =>
      have hread : readDigits min .negOverflow 0 cs = .ok _ :=
        (readDigits_eq_ok_iff (Nat.zero_le min)).mpr ⟨hdigits, rfl, by omega⟩
      have hsign : '-' ≠ '+' := by decide
      rw [readInt, if_neg hsign, if_pos rfl, if_neg hne, hread]
      rfl

theorem Numeral.ne_nil {s : List Char} {n : ℤ} (h : Numeral s n) : s ≠ [] := by
  cases h with
  | plain hne _ => exact hne
  | plus _ _ => exact List.cons_ne_nil _ _
  | minus _ _ => exact List.cons_ne_nil _ _

theorem Numeral.mem {s : List Char} {n : ℤ} (h : Numeral s n) {c : Char} (hc : c ∈ s) :
    c.isDigit = true ∨ c = '+' ∨ c = '-' := by
  cases h with
  | plain _ h => exact .inl (h c hc)
  | plus _ h =>
    rcases List.mem_cons.mp hc with rfl | hc
    · exact .inr (.inl rfl)
    · exact .inl (h c hc)
  | minus _ h =>
    rcases List.mem_cons.mp hc with rfl | hc
    · exact .inr (.inr rfl)
    · exact .inl (h c hc)

/-- A number as it is printed. -/
theorem numeral_toString (n : ℤ) : Numeral (toString n).toList n := by
  have hdigits : ∀ m : ℕ, ∀ c ∈ Nat.toDigits 10 m, c.isDigit = true :=
    fun m c hc => Nat.isDigit_of_mem_toDigits (by decide) (by decide) hc
  have hvalue : ∀ m : ℕ, Nat.ofDigitChars 10 (Nat.toDigits 10 m) 0 = m :=
    fun m => Nat.ofDigitChars_ten_toDigits
  cases n with
  | ofNat m =>
    have hlist : (toString (Int.ofNat m)).toList = Nat.toDigits 10 m := by
      simp [toString, Int.repr]
    have hnumeral : Numeral (Nat.toDigits 10 m) _ := .plain Nat.toDigits_ne_nil (hdigits m)
    rw [hvalue] at hnumeral
    rw [hlist]
    exact hnumeral
  | negSucc m =>
    have hlist : (toString (Int.negSucc m)).toList = '-' :: Nat.toDigits 10 (m + 1) := by
      simp [toString, Int.repr]
    have hnumeral : Numeral ('-' :: Nat.toDigits 10 (m + 1)) _ :=
      .minus Nat.toDigits_ne_nil (hdigits (m + 1))
    rw [hvalue] at hnumeral
    rw [hlist]
    exact hnumeral

/-! Lines. -/

section
variable {α : Type} [DecidableEq α] (nl cr : α)

/-- Without the `cr` at its end. -/
def chomp (line : List α) : List α := if line.getLast? = some cr then line.dropLast else line

/-- The lines that have ended, `cur` being what was read of the first one, and what is behind
them. -/
def linesFrom (cur : List α) : List α → List (List α) × List α
  | [] => ([], cur)
  | a :: text =>
    if a = nl then (chomp cr cur :: (linesFrom [] text).1, (linesFrom [] text).2)
    else linesFrom (cur ++ [a]) text

def lines (text : List α) : List (List α) × List α := linesFrom nl cr [] text

/-- A text with these lines and `rest` behind them; a line ends with `nl`, or with `cr` and
`nl`. -/
inductive Lined : List α → List (List α) → List α → Prop
  | rest {rest : List α} (h : nl ∉ rest) : Lined rest [] rest
  | line {line text rest : List α} {ls : List (List α)} (h : nl ∉ line)
      (hend : line.getLast? ≠ some cr) (hls : Lined text ls rest) :
      Lined (line ++ nl :: text) (line :: ls) rest
  | crLine {line text rest : List α} {ls : List (List α)} (h : nl ∉ line)
      (hls : Lined text ls rest) : Lined (line ++ cr :: nl :: text) (line :: ls) rest

variable {nl cr} {text rest : List α} {ls : List (List α)}

theorem linesFrom_append {part : List α} (h : nl ∉ part) (cur text : List α) :
    linesFrom nl cr cur (part ++ text) = linesFrom nl cr (cur ++ part) text := by
  induction part generalizing cur with
  | nil => simp
  | cons a part ih =>
    rw [List.mem_cons, not_or] at h
    rw [List.cons_append, linesFrom, if_neg (Ne.symm h.1), ih h.2, List.append_assoc]
    rfl

theorem lined_linesFrom {cur : List α} (hcur : nl ∉ cur) (text : List α) :
    Lined nl cr (cur ++ text) (linesFrom nl cr cur text).1 (linesFrom nl cr cur text).2 := by
  induction text generalizing cur with
  | nil =>
    rw [List.append_nil]
    exact .rest hcur
  | cons a text ih =>
    rw [linesFrom]
    split_ifs with ha
    · rw [ha]
      have hrest : Lined nl cr text _ _ := ih List.not_mem_nil
      unfold chomp
      split_ifs with hcr
      · obtain ⟨line, rfl⟩ := List.getLast?_eq_some_iff.mp hcr
        rw [List.mem_append, not_or] at hcur
        rw [List.dropLast_concat, List.append_assoc]
        exact .crLine hcur.1 hrest
      · exact .line hcur hcr hrest
    · have hcons : cur ++ a :: text = cur ++ [a] ++ text := by simp
      have hmem : nl ∉ cur ++ [a] := by
        rw [List.mem_append, List.mem_singleton, not_or]
        exact ⟨hcur, Ne.symm ha⟩
      rw [hcons]
      exact ih hmem

theorem lines_eq_iff (hne : cr ≠ nl) :
    lines nl cr text = (ls, rest) ↔ Lined nl cr text ls rest := by
  constructor
  · intro h
    have hlined : Lined nl cr ([] ++ text) _ _ := lined_linesFrom List.not_mem_nil text
    change Lined nl cr text (lines nl cr text).1 (lines nl cr text).2 at hlined
    rwa [h] at hlined
  · intro h
    unfold lines
    induction h with
    | @rest rest h =>
      have happend : linesFrom nl cr [] (rest ++ []) = _ := linesFrom_append h [] []
      rw [List.append_nil] at happend
      exact happend
    | line h hend _ ih =>
      rw [linesFrom_append h, List.nil_append, linesFrom, if_pos rfl, ih, chomp, if_neg hend]
    | @crLine line text rest ls h _ ih =>
      have hmem : nl ∉ line ++ [cr] := by
        rw [List.mem_append, List.mem_singleton, not_or]
        exact ⟨h, Ne.symm hne⟩
      have hcons : line ++ cr :: nl :: text = line ++ [cr] ++ nl :: text := by simp
      have hlast : (line ++ [cr]).getLast? = some cr := List.getLast?_concat
      rw [hcons, linesFrom_append hmem, List.nil_append, linesFrom, if_pos rfl, ih, chomp,
        if_pos hlast, List.dropLast_concat]

end

end P9cpu.Core
