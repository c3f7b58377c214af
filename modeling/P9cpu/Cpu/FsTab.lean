import P9cpu.Core.Incoming
import P9cpu.Core.Text
import P9cpu.Cpu.Namespace
import P9cpu.Ninep.Lexical
import P9cpu.Ninep.Srv

/-! The fstab of a user: its lines, its entries, and the command that `app` makes with them. -/
namespace P9cpu.Cpu
open Core
open Ninep (IoError bind_eq_ok strBytes strBytes_append)

/-- `char::is_whitespace`: the code points with the property `White_Space`. -/
def isWhitespace (c : Char) : Bool :=
  (0x9 ≤ c.toNat && c.toNat ≤ 0xd) || (0x2000 ≤ c.toNat && c.toNat ≤ 0x200a) ||
    c.toNat ∈ [0x20, 0x85, 0xa0, 0x1680, 0x2028, 0x2029, 0x202f, 0x205f, 0x3000]

/-- `str::split_whitespace` -/
def splitWhitespace (s : String) : List String := (fields isWhitespace s.toList).map String.ofList

/-- `str::parse::<i32>` -/
def parseI32 (s : String) : Except IntErrorKind Int32 :=
  (readInt (2 ^ 31) (2 ^ 31 - 1) s.toList).map Int32.ofInt

inductive FsTabError
  | notSixFields
  | invalidNumber (field : String) (e : IntErrorKind)
deriving DecidableEq

/-- `ParseIntError` as it is displayed. -/
def parseIntMessage : IntErrorKind → String
  | .empty => "cannot parse integer from empty string"
  | .invalidDigit => "invalid digit found in string"
  | .posOverflow => "number too large to fit in target type"
  | .negOverflow => "number too small to fit in target type"

def FsTabError.message : FsTabError → String
  | .notSixFields => "line does not contain 6 fields."
  | .invalidNumber field e => "Invalid Number for " ++ field ++ ": " ++ parseIntMessage e

/-- The number of a field, with the name that an error gives to it. -/
def parseNumber (field s : String) : Except FsTabError Int32 :=
  (parseI32 s).mapError (.invalidNumber field)

/-- `FsTab::try_from`: the fields are read from left to right. -/
def FsTab.tryFrom (line : String) : Except FsTabError FsTab :=
  match splitWhitespace line with
  | spec :: file :: vfstype :: mntops :: freq :: it => do
    let freq ← parseNumber "freq" freq
    match it with
    | [] => .error .notSixFields
    | passno :: it => do
      let passno ← parseNumber "passno" passno
      if it = [] then return { spec, file, vfstype, mntops, freq, passno }
      else .error .notSixFields
  | _ => .error .notSixFields

inductive FileError
  | io (e : IoError)
  | fsTab (e : FsTabError)

def invalidUtf8 : IoError := .custom .invalidData "stream did not contain valid UTF-8"

/-- The text of a line. -/
def decodeLine (bytes : List UInt8) : Except FileError String :=
  match String.fromUTF8? ⟨bytes.toArray⟩ with
  | some line => .ok line
  | none => .error (.io invalidUtf8)

/-- The loop over the lines in `app`. -/
def readLines : List (List UInt8) → Except FileError (List FsTab)
  | [] => return []
  | bytes :: rest => do
    let line ← decodeLine bytes
    if line.toList.head? = some '#' then readLines rest
    else do
      let tab ← (FsTab.tryFrom line).mapError .fsTab
      return tab :: (← readLines rest)

/-- The lines of the file as `Lines::next_line` gives them; what is behind the last newline is a
line when the file has ended. -/
def readFsTab (file : Incoming IoError) : Except FileError (List FsTab) := do
  let (ended, rest) := lines 0x0a 0x0d file.bytes
  let tabs ← readLines ended
  match file.error with
  | some e => .error (.io e)
  | none => if rest = [] then return tabs else return tabs ++ (← readLines [rest])

inductive AppFailure
  | app (e : AppError)
  | file (e : FileError)

/-- `app` with its `fs_tab` argument, which opens or fails to. -/
def Args.appWithFile (args : Args) (fsTab : Option (Except IoError (Incoming IoError)))
    (vars : List EnvVar) : Except AppFailure Cmd :=
  if args.tmpMnt.isEmpty then .error (.app .emptyTmpMnt)
  else do
    let tabs ← match fsTab with
      | none => pure []
      | some (.error e) => .error (.file (.io e))
      | some (.ok file) => (readFsTab file).mapError .file
    ({ args with fsTab := tabs }.app vars).mapError .app

/-! What an entry looks like. -/

/-- The line has the fields of the entry, with white space between them. -/
def FsTab.Line (tab : FsTab) (line : String) : Prop :=
  ∃ freq passno : String,
    Laid isWhitespace ([tab.spec, tab.file, tab.vfstype, tab.mntops, freq, passno].map String.toList)
      line.toList ∧
    Numeral freq.toList tab.freq.toInt ∧ Numeral passno.toList tab.passno.toInt

/-- Lines with these entries between comments. -/
inductive Lists : List (List UInt8) → List FsTab → Prop
  | nil : Lists [] []
  | comment {line : String} {rest : List (List UInt8)} {tabs : List FsTab}
      (h : line.toList.head? = some '#') (hrest : Lists rest tabs) :
      Lists (strBytes line :: rest) tabs
  | entry {line : String} {rest : List (List UInt8)} {tab : FsTab} {tabs : List FsTab}
      (h : line.toList.head? ≠ some '#') (hline : tab.Line line) (hrest : Lists rest tabs) :
      Lists (strBytes line :: rest) (tab :: tabs)

/-- A file with these entries. -/
def Describes (bytes : List UInt8) (tabs : List FsTab) : Prop :=
  ∃ ended rest, Lined 0x0a 0x0d bytes ended rest ∧
    Lists (ended ++ if rest = [] then [] else [rest]) tabs

/-- The line is no comment and has no entry. -/
inductive Refused : List UInt8 → FileError → Prop
  | text {bytes : List UInt8} {e : FileError} (h : decodeLine bytes = .error e) : Refused bytes e
  | entry {line : String} {e : FsTabError} (h : line.toList.head? ≠ some '#')
      (hline : FsTab.tryFrom line = .error e) : Refused (strBytes line) (.fsTab e)

/-- A file with an error behind entries: in the first line that is refused, or in what is read
behind the last newline. -/
inductive Spoiled : Incoming IoError → FileError → Prop
  | line {file : Incoming IoError} {ended before behind : List (List UInt8)}
      {rest line : List UInt8} {tabs : List FsTab} {e : FileError}
      (hfile : Lined 0x0a 0x0d file.bytes ended rest)
      (hls : (ended ++ if file.error = none ∧ rest ≠ [] then [rest] else []) =
        before ++ line :: behind)
      (hbefore : Lists before tabs) (hline : Refused line e) : Spoiled file e
  | read {file : Incoming IoError} {ended : List (List UInt8)} {rest : List UInt8}
      {tabs : List FsTab} {e : IoError} (hfile : Lined 0x0a 0x0d file.bytes ended rest)
      (hended : Lists ended tabs) (he : file.error = some e) : Spoiled file (.io e)

theorem parseI32_eq_ok_iff {s : String} {n : Int32} :
    parseI32 s = .ok n ↔ Numeral s.toList n.toInt := by
  have hmin := n.le_toInt
  have hmax := n.toInt_lt
  unfold parseI32
  rw [map_eq_ok_iff]
  constructor
  · rintro ⟨m, hread, rfl⟩
    obtain ⟨hnumeral, hle, hge⟩ := readInt_eq_ok_iff.mp hread
    rwa [Int32.toInt_ofInt_of_le (by omega) (by omega)]
  · intro h
    refine ⟨n.toInt, readInt_eq_ok_iff.mpr ⟨h, by omega, by omega⟩, Int32.ofInt_toInt n⟩

theorem mapError_eq_ok_iff {ε ε' α : Type} {f : ε → ε'} {x : Except ε α} {a : α} :
    x.mapError f = .ok a ↔ x = .ok a := by
  cases x with
  | error e => simp [Except.mapError]
  | ok a => simp [Except.mapError]

theorem parseNumber_eq_ok_iff {field s : String} {n : Int32} :
    parseNumber field s = .ok n ↔ Numeral s.toList n.toInt :=
  mapError_eq_ok_iff.trans parseI32_eq_ok_iff

/-- The fields of a line. -/
theorem splitWhitespace_eq_iff {line : String} {ws : List String} :
    splitWhitespace line = ws ↔ Laid isWhitespace (ws.map String.toList) line.toList := by
  have hinverse : ∀ l : List (List Char), (l.map String.ofList).map String.toList = l := by
    intro l
    simp [List.map_map, Function.comp_def]
  rw [← fields_eq_iff]
  unfold splitWhitespace
  constructor
  · rintro rfl
    exact (hinverse _).symm
  · intro h
    simp [h, List.map_map, Function.comp_def]

/-- A line is accepted when it is the line of an entry, and read as this entry. -/
theorem tryFrom_eq_ok_iff {line : String} {tab : FsTab} :
    FsTab.tryFrom line = .ok tab ↔ tab.Line line := by
  constructor
  · intro h
    unfold FsTab.tryFrom at h
    split at h
    · rename_i spec file vfstype mntops freq it hfields
      obtain ⟨m, hfreq, h⟩ := bind_eq_ok.mp h
      cases it with
      | nil => cases h
      | cons passno it =>
        obtain ⟨k, hpassno, h⟩ := bind_eq_ok.mp h
        split_ifs at h with hit
        cases h
        rw [hit] at hfields
        exact ⟨freq, passno, splitWhitespace_eq_iff.mp hfields,
          parseNumber_eq_ok_iff.mp hfreq, parseNumber_eq_ok_iff.mp hpassno⟩
    · cases h
  · rintro ⟨freq, passno, hlaid, hfreq, hpassno⟩
    have hfields : splitWhitespace line =
        [tab.spec, tab.file, tab.vfstype, tab.mntops, freq, passno] :=
      splitWhitespace_eq_iff.mpr hlaid
    have hread : parseNumber "freq" freq = .ok tab.freq := parseNumber_eq_ok_iff.mpr hfreq
    have hread' : parseNumber "passno" passno = .ok tab.passno := parseNumber_eq_ok_iff.mpr hpassno
    unfold FsTab.tryFrom
    rw [hfields]
    simp [hread, hread']
    rfl

theorem decodeLine_strBytes (line : String) : decodeLine (strBytes line) = .ok line := by
  have hbytes : (⟨(strBytes line).toArray⟩ : ByteArray) = line.toByteArray := by
    simp only [strBytes, Array.toArray_toList]
  unfold decodeLine
  simp only [hbytes, String.fromUTF8?, dif_pos line.isValidUTF8]
  rfl

theorem strBytes_of_decodeLine {bytes : List UInt8} {line : String}
    (h : decodeLine bytes = .ok line) : bytes = strBytes line := by
  unfold decodeLine String.fromUTF8? at h
  split_ifs at h with hvalid
  cases h
  simp [strBytes, String.fromUTF8]

theorem readLines_eq_ok_iff {ls : List (List UInt8)} {tabs : List FsTab} :
    readLines ls = .ok tabs ↔ Lists ls tabs := by
  constructor
  · intro h
    induction ls generalizing tabs with
    | nil =>
      cases h
      exact .nil
    | cons bytes rest ih =>
      obtain ⟨line, hline, hread⟩ := bind_eq_ok.mp h
      rw [strBytes_of_decodeLine hline]
      split_ifs at hread with hcomment
      · exact .comment hcomment (ih hread)
      · obtain ⟨tab, htab, hread⟩ := bind_eq_ok.mp hread
        obtain ⟨tabs', hrest, hread⟩ := bind_eq_ok.mp hread
        cases hread
        have hentry := tryFrom_eq_ok_iff.mp (mapError_eq_ok_iff.mp htab)
        exact .entry hcomment hentry (ih hrest)
  · intro h
    induction h with
    | nil => rfl
    | comment hcomment _ ih =>
      rw [readLines, decodeLine_strBytes]
      exact (if_pos hcomment).trans ih
    | entry hcomment hline _ ih =>
      rw [readLines, decodeLine_strBytes]
      refine (if_neg hcomment).trans ?_
      rw [tryFrom_eq_ok_iff.mpr hline, ih]
      rfl

theorem readLines_append (ls ms : List (List UInt8)) : readLines (ls ++ ms) = do
    let tabs ← readLines ls
    return tabs ++ (← readLines ms) := by
  induction ls with
  | nil =>
    change readLines ms = readLines ms >>= fun us => pure us
    exact (bind_pure _).symm
  | cons bytes ls ih =>
    rw [List.cons_append, readLines, readLines, bind_assoc]
    congr 1
    funext line
    split_ifs with hcomment
    · exact ih
    · simp only [ih, bind_assoc, pure_bind, List.cons_append]

theorem readLines_cons_of_comment {line : String} (h : line.toList.head? = some '#')
    (rest : List (List UInt8)) : readLines (strBytes line :: rest) = readLines rest := by
  rw [readLines, decodeLine_strBytes]
  exact if_pos h

theorem readLines_cons_of_entry {line : String} (h : line.toList.head? ≠ some '#')
    (rest : List (List UInt8)) : readLines (strBytes line :: rest) = do
      let tab ← (FsTab.tryFrom line).mapError .fsTab
      return tab :: (← readLines rest) := by
  rw [readLines, decodeLine_strBytes]
  exact if_neg h

theorem readLines_of_refused {bytes : List UInt8} {e : FileError} (h : Refused bytes e)
    (rest : List (List UInt8)) : readLines (bytes :: rest) = .error e := by
  cases h with
  | text h =>
    rw [readLines, h]
    rfl
  | entry h hline =>
    rw [readLines_cons_of_entry h, hline]
    rfl

/-- The lines fail with the first of them that is refused. -/
theorem readLines_eq_error_iff {ls : List (List UInt8)} {e : FileError} :
    readLines ls = .error e ↔ ∃ before line behind tabs, ls = before ++ line :: behind ∧
      Lists before tabs ∧ Refused line e := by
  constructor
  · intro h
    induction ls with
    | nil => cases h
    | cons bytes rest ih =>
      cases hline : decodeLine bytes with
      | error e' =>
        rw [readLines_of_refused (.text hline)] at h
        cases h
        exact ⟨[], bytes, rest, [], rfl, .nil, .text hline⟩
      | ok line =>
        rw [strBytes_of_decodeLine hline] at h ⊢
        by_cases hcomment : line.toList.head? = some '#'
        · rw [readLines_cons_of_comment hcomment] at h
          obtain ⟨before, bad, behind, tabs, rfl, hbefore, hbad⟩ := ih h
          exact ⟨strBytes line :: before, bad, behind, tabs, rfl, .comment hcomment hbefore, hbad⟩
        · rw [readLines_cons_of_entry hcomment] at h
          cases htab : FsTab.tryFrom line with
          | error e' =>
            rw [htab] at h
            cases h
            exact ⟨[], strBytes line, rest, [], rfl, .nil, .entry hcomment htab⟩
          | ok tab =>
            rw [htab] at h
            cases hrest : readLines rest with
            | ok tabs =>
              rw [hrest] at h
              cases h
            | error e' =>
              rw [hrest] at h
              cases h
              obtain ⟨before, bad, behind, tabs, rfl, hbefore, hbad⟩ := ih hrest
              exact ⟨strBytes line :: before, bad, behind, tab :: tabs, rfl,
                .entry hcomment (tryFrom_eq_ok_iff.mp htab) hbefore, hbad⟩
  · rintro ⟨before, line, behind, tabs, rfl, hbefore, hline⟩
    rw [readLines_append, readLines_eq_ok_iff.mpr hbefore, readLines_of_refused hline]
    rfl

/-! The file. -/

theorem newline_ne : (0x0d : UInt8) ≠ 0x0a := by decide

/-- The lines of a file are read one after the other, also the one behind the last newline. -/
theorem readFsTab_eq {file : Incoming IoError} {ended : List (List UInt8)} {rest : List UInt8}
    (h : Lined 0x0a 0x0d file.bytes ended rest) : readFsTab file = do
      let tabs ← readLines (ended ++ if file.error = none ∧ rest ≠ [] then [rest] else [])
      match file.error with
      | some e => .error (.io e)
      | none => return tabs := by
  unfold readFsTab
  rw [(lines_eq_iff newline_ne).mpr h]
  cases file.error with
  | some e => simp
  | none =>
    by_cases hrest : rest = []
    · simp [hrest]
    · simp [hrest, readLines_append]

theorem exists_lined (bytes : List UInt8) : ∃ ended rest, Lined 0x0a 0x0d bytes ended rest :=
  ⟨_, _, (lines_eq_iff newline_ne).mp rfl⟩

theorem readFsTab_eq_ok_iff {file : Incoming IoError} {tabs : List FsTab} :
    readFsTab file = .ok tabs ↔ file.error = none ∧ Describes file.bytes tabs := by
  constructor
  · intro h
    obtain ⟨ended, rest, hlined⟩ := exists_lined file.bytes
    rw [readFsTab_eq hlined] at h
    obtain ⟨tabs', hread, h⟩ := bind_eq_ok.mp h
    cases herror : file.error with
    | some e =>
      rw [herror] at h
      cases h
    | none =>
      rw [herror] at h hread
      cases h
      have hlists := readLines_eq_ok_iff.mp hread
      simp only [true_and, ite_not] at hlists
      exact ⟨rfl, ended, rest, hlined, hlists⟩
  · rintro ⟨herror, ended, rest, hlined, hlists⟩
    have hread := readLines_eq_ok_iff.mpr hlists
    rw [readFsTab_eq hlined, herror]
    simp only [true_and, ne_eq, ite_not, hread]
    rfl

theorem readFsTab_eq_error_iff {file : Incoming IoError} {e : FileError} :
    readFsTab file = .error e ↔ Spoiled file e := by
  constructor
  · intro h
    obtain ⟨ended, rest, hlined⟩ := exists_lined file.bytes
    rw [readFsTab_eq hlined] at h
    cases hread : readLines (ended ++ if file.error = none ∧ rest ≠ [] then [rest] else []) with
    | error e' =>
      rw [hread] at h
      cases h
      obtain ⟨before, line, behind, tabs, hls, hbefore, hline⟩ := readLines_eq_error_iff.mp hread
      exact .line hlined hls hbefore hline
    | ok tabs =>
      rw [hread] at h
      cases herror : file.error with
      | none =>
        rw [herror] at h
        cases h
      | some e' =>
        rw [herror] at h hread
        cases h
        simp only [reduceCtorEq, false_and, if_false, List.append_nil] at hread
        exact .read hlined (readLines_eq_ok_iff.mp hread) herror
  · intro h
    cases h with
    | line hlined hls hbefore hline =>
      have hread := readLines_eq_error_iff.mpr ⟨_, _, _, _, hls, hbefore, hline⟩
      rw [readFsTab_eq hlined, hread]
      rfl
    | read hlined hended he =>
      have hread := readLines_eq_ok_iff.mpr hended
      rw [readFsTab_eq hlined, he]
      simp only [reduceCtorEq, false_and, if_false, List.append_nil, hread]
      rfl

/-! What is written. -/

/-- A field that can be read back. -/
def PlainField (s : String) : Prop := s ≠ "" ∧ ∀ c ∈ s.toList, isWhitespace c = false

/-- An entry that can be read back; a line that starts with `#` is a comment. -/
structure FsTab.Plain (tab : FsTab) : Prop where
  spec : PlainField tab.spec
  file : PlainField tab.file
  vfstype : PlainField tab.vfstype
  mntops : PlainField tab.mntops
  comment : tab.spec.toList.head? ≠ some '#'

def FsTab.render (tab : FsTab) : String :=
  " ".intercalate [tab.spec, tab.file, tab.vfstype, tab.mntops, toString tab.freq.toInt,
    toString tab.passno.toInt]

def renderFsTab (tabs : List FsTab) : List UInt8 :=
  tabs.flatMap fun tab => strBytes tab.render ++ [0x0a]

theorem toNat_of_mem_utf8EncodeChar {b : UInt8} (hb : b < 0x80) {c : Char}
    (h : b ∈ String.utf8EncodeChar c) : c.toNat = b.toNat := by
  have hlt : b.toNat < 128 := hb
  unfold String.utf8EncodeChar at h
  dsimp only at h
  change c.val.toNat = _
  split_ifs at h
  all_goals
    simp only [List.mem_cons, List.not_mem_nil, or_false, ← UInt8.toNat_inj,
      UInt8.toNat_ofNat'] at h
    omega

/-- An ASCII byte is a character of its own. -/
theorem mem_of_mem_strBytes {b : UInt8} (hb : b < 0x80) {s : String} (h : b ∈ strBytes s) :
    Char.ofNat b.toNat ∈ s.toList := by
  have hbytes : strBytes s = s.toList.flatMap String.utf8EncodeChar := by
    unfold strBytes
    rw [← String.utf8Encode_toList]
    simp [List.utf8Encode]
  rw [hbytes] at h
  obtain ⟨c, hc, hbc⟩ := List.mem_flatMap.mp h
  rw [← toNat_of_mem_utf8EncodeChar hb hbc, Char.ofNat_toNat]
  exact hc

theorem plainField_toString (n : ℤ) : PlainField (toString n) := by
  have hnumeral := numeral_toString n
  constructor
  · intro hempty
    exact hnumeral.ne_nil (String.toList_eq_nil_iff.mpr hempty)
  · intro c hc
    rcases hnumeral.mem hc with hdigit | rfl | rfl
    · have hrange : 48 ≤ c.toNat ∧ c.toNat ≤ 57 := by
        simpa [Char.isDigit, UInt32.le_iff_toNat_le] using hdigit
      simp only [isWhitespace, Bool.or_eq_false_iff, Bool.and_eq_false_iff, decide_eq_false_iff_not,
        List.mem_cons, List.not_mem_nil, or_false]
      omega
    · decide
    · decide

theorem FsTab.Plain.fields {tab : FsTab} (h : tab.Plain) :
    ∀ s ∈ [tab.spec, tab.file, tab.vfstype, tab.mntops, toString tab.freq.toInt,
      toString tab.passno.toInt], PlainField s := by
  simp only [List.forall_mem_cons]
  exact ⟨h.spec, h.file, h.vfstype, h.mntops, plainField_toString _, plainField_toString _,
    List.forall_mem_nil _⟩

theorem toList_render (tab : FsTab) : tab.render.toList =
    [' '].intercalate ([tab.spec, tab.file, tab.vfstype, tab.mntops, toString tab.freq.toInt,
      toString tab.passno.toInt].map String.toList) := by
  unfold FsTab.render
  rw [String.toList_intercalate]
  rfl

theorem line_render {tab : FsTab} (h : tab.Plain) : tab.Line tab.render := by
  refine ⟨_, _, ?_, numeral_toString _, numeral_toString _⟩
  rw [toList_render]
  apply laid_intercalate (by decide)
  intro w hw
  obtain ⟨s, hs, rfl⟩ := List.mem_map.mp hw
  obtain ⟨hne, hspace⟩ := h.fields s hs
  exact ⟨fun hnil => hne (String.toList_eq_nil_iff.mp hnil), hspace⟩

/-- The line has no other white space than the space. -/
theorem not_mem_render {tab : FsTab} (h : tab.Plain) {b : UInt8} (hb : b < 0x80)
    (hspace : Char.ofNat b.toNat ≠ ' ') (hwhite : isWhitespace (Char.ofNat b.toNat) = true) :
    b ∉ strBytes tab.render := by
  intro hmem
  have hchar := mem_of_mem_strBytes hb hmem
  rw [toList_render] at hchar
  rcases mem_intercalate hchar with heq | ⟨w, hw, hcw⟩
  · exact hspace heq
  · obtain ⟨s, hs, rfl⟩ := List.mem_map.mp hw
    have hplain := (h.fields s hs).2 _ hcw
    rw [hwhite] at hplain
    cases hplain

theorem head?_render {tab : FsTab} (h : tab.Plain) : tab.render.toList.head? ≠ some '#' := by
  have hne : tab.spec.toList ≠ [] := fun hnil => h.spec.1 (String.toList_eq_nil_iff.mp hnil)
  rw [toList_render, List.map_cons, List.map_cons, List.intercalate_cons_cons, List.append_assoc,
    List.head?_append_of_ne_nil _ hne]
  exact h.comment

/-- What is written describes the entries. -/
theorem describes_render {tabs : List FsTab} (h : ∀ tab ∈ tabs, tab.Plain) :
    Describes (renderFsTab tabs) tabs := by
  have hboth : Lined 0x0a 0x0d (renderFsTab tabs) (tabs.map fun tab => strBytes tab.render) [] ∧
      Lists (tabs.map fun tab => strBytes tab.render) tabs := by
    induction tabs with
    | nil => exact ⟨.rest List.not_mem_nil, .nil⟩
    | cons tab tabs ih =>
      rw [List.forall_mem_cons] at h
      obtain ⟨hlined, hlists⟩ := ih h.2
      have hnl : (0x0a : UInt8) ∉ strBytes tab.render :=
        not_mem_render h.1 (by decide) (by decide) (by decide)
      have hcr : (0x0d : UInt8) ∉ strBytes tab.render :=
        not_mem_render h.1 (by decide) (by decide) (by decide)
      have hend : (strBytes tab.render).getLast? ≠ some 0x0d :=
        fun hlast => hcr (List.mem_of_getLast? hlast)
      have htext : renderFsTab (tab :: tabs) = strBytes tab.render ++ 0x0a :: renderFsTab tabs := by
        simp [renderFsTab]
      rw [htext]
      exact ⟨.line hnl hend hlined, .entry (head?_render h.1) (line_render h.1) hlists⟩
  refine ⟨_, _, hboth.1, ?_⟩
  rw [if_pos rfl, List.append_nil]
  exact hboth.2

/-- With its directory, `app` reads the file and then looks for the program. -/
theorem appWithFile_of_ne {args : Args} (h : args.tmpMnt ≠ "") (file : Incoming IoError)
    (vars : List EnvVar) : args.appWithFile (some (.ok file)) vars =
      (readFsTab file).mapError .file >>= fun tabs =>
        (({ args with fsTab := tabs } : Args).app vars).mapError .app := by
  have hempty : ¬ args.tmpMnt.isEmpty = true := by simpa using h
  exact if_neg hempty

theorem appWithFile_of_eq {args : Args} (h : args.tmpMnt = "")
    (fsTab : Option (Except IoError (Incoming IoError))) (vars : List EnvVar) :
    args.appWithFile fsTab vars = .error (.app .emptyTmpMnt) := by
  have hempty : args.tmpMnt.isEmpty = true := by simpa using h
  exact if_pos hempty

theorem app_eq_ok_iff {args : Args} (h : args.tmpMnt ≠ "") {vars : List EnvVar} {cmd : Cmd} :
    args.app vars = .ok cmd ↔ ∃ program rest, args.args = program :: rest ∧
      cmd = args.command program rest vars := by
  have hempty : ¬ args.tmpMnt.isEmpty = true := by simpa using h
  unfold Args.app
  rw [if_neg hempty]
  cases args.args with
  | nil => simp
  | cons program rest => simp [eq_comm]

/-- With a file `app` makes a command exactly when the file has been read to its end and describes
entries, and these are the last lines of the fstab of the command. Otherwise it reports the first
line that is refused, or what went wrong in reading. Entries that were written are read back. -/
theorem app_reads_fsTab (args : Args) (file : Incoming IoError) (vars : List EnvVar) :
    (∀ cmd, args.appWithFile (some (.ok file)) vars = .ok cmd ↔
      args.tmpMnt ≠ "" ∧ file.error = none ∧ ∃ tabs program rest, Describes file.bytes tabs ∧
        args.args = program :: rest ∧
        cmd = { args with fsTab := tabs }.command program rest vars) ∧
    (∀ e, args.appWithFile (some (.ok file)) vars = .error (.file e) ↔
      args.tmpMnt ≠ "" ∧ Spoiled file e) ∧
    ∀ tabs, (∀ tab ∈ tabs, tab.Plain) → file.error = none → file.bytes = renderFsTab tabs →
      readFsTab file = .ok tabs := by
  refine ⟨fun cmd => ?_, fun e => ?_, fun tabs htabs herror hbytes => ?_⟩
  · by_cases htmp : args.tmpMnt = ""
    · simp [appWithFile_of_eq htmp, htmp]
    · rw [appWithFile_of_ne htmp, bind_eq_ok]
      constructor
      · rintro ⟨tabs, hread, happ⟩
        obtain ⟨herror, hdescribes⟩ := readFsTab_eq_ok_iff.mp (mapError_eq_ok_iff.mp hread)
        have hargs : ({ args with fsTab := tabs } : Args).tmpMnt ≠ "" := htmp
        obtain ⟨program, rest, hlist, hcmd⟩ :=
          (app_eq_ok_iff hargs).mp (mapError_eq_ok_iff.mp happ)
        exact ⟨htmp, herror, tabs, program, rest, hdescribes, hlist, hcmd⟩
      · rintro ⟨-, herror, tabs, program, rest, hdescribes, hlist, hcmd⟩
        have hargs : ({ args with fsTab := tabs } : Args).tmpMnt ≠ "" := htmp
        exact ⟨tabs, mapError_eq_ok_iff.mpr (readFsTab_eq_ok_iff.mpr ⟨herror, hdescribes⟩),
          mapError_eq_ok_iff.mpr ((app_eq_ok_iff hargs).mpr ⟨program, rest, hlist, hcmd⟩)⟩
  · by_cases htmp : args.tmpMnt = ""
    · simp [appWithFile_of_eq htmp, htmp]
    · rw [appWithFile_of_ne htmp, ← readFsTab_eq_error_iff]
      cases hread : readFsTab file with
      | error e' => simp [Except.mapError, htmp, bind, Except.bind]
      | ok tabs =>
        cases happ : ({ args with fsTab := tabs } : Args).app vars with
        | error e' => simp [Except.mapError, bind, Except.bind, happ]
        | ok cmd => simp [Except.mapError, bind, Except.bind, happ]
  · exact readFsTab_eq_ok_iff.mpr ⟨herror, hbytes ▸ describes_render htabs⟩

example : FsTab.tryFrom "/a\t/b none  bind +0 -1" = .ok ⟨"/a", "/b", "none", "bind", 0, -1⟩ := by
  decide

end P9cpu.Cpu
