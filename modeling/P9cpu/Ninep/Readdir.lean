import P9cpu.Ninep.Replies

/-! What a `Treaddir` lists: the entries from its offset on, as long as they fit. -/
namespace P9cpu.Ninep
open Core Prog

/-- The bytes of a page on the wire. -/
def pageLen (page : List HostDirEntry) : ℕ := (page.map HostDirEntry.len).sum

@[simp] theorem pageLen_nil : pageLen [] = 0 := rfl

@[simp] theorem pageLen_cons (entry : HostDirEntry) (page : List HostDirEntry) :
    pageLen (entry :: page) = entry.len + pageLen page := rfl

/-- The entries of a page in a listing, with cookies from `2 + i` on. -/
inductive Shows (C : (o : UnpfsOp) → UnpfsRes o → Prop) :
    ℕ → List HostDirEntry → List DirEntry → Prop
  | nil (i : ℕ) : Shows C i [] []
  | cons {i : ℕ} {entry : HostDirEntry} {attr : Metadata} {page : List HostDirEntry}
      {shown : List DirEntry} (h : C (.host (.entryMetadata entry)) (.ok attr))
      (rest : Shows C (i + 1) page shown) :
      Shows C i (entry :: page)
        (⟨qidFromAttr attr, UInt64.ofNat (2 + i), 0, fromUtf8Lossy entry.fileName⟩ :: shown)

/-- The page that the loop takes from the entries after `len` bytes; its sums are of 32 bits. -/
inductive Cut (count : UInt32) :
    ℕ → List (Except IoError HostDirEntry) → List HostDirEntry → Prop
  | done (len : ℕ) : Cut count len [] []
  | full {len : ℕ} {entry : HostDirEntry} {entries : List (Except IoError HostDirEntry)}
      (h : count.toNat < (len + entry.len) % 2 ^ 32) : Cut count len (.ok entry :: entries) []
  | more {len : ℕ} {entry : HostDirEntry} {entries : List (Except IoError HostDirEntry)}
      {page : List HostDirEntry} (h : (len + entry.len) % 2 ^ 32 ≤ count.toNat)
      (rest : Cut count (len + entry.len) entries page) :
      Cut count len (.ok entry :: entries) (entry :: page)

/-- The two entries with which a listing from the offset 0 starts. -/
def Dots (C : (o : UnpfsOp) → UnpfsRes o → Prop) (off : UInt64) (dots : List DirEntry) : Prop :=
  if off = 0 then ∃ self up,
    C (.host (.symlinkMetadata (.ofString "."))) (.ok self) ∧
    C (.host (.symlinkMetadata (.ofString ".."))) (.ok up) ∧
    dots = [⟨qidFromAttr self, 0, 0, "."⟩, ⟨qidFromAttr up, 1, 0, ".."⟩]
  else dots = []

/-- The reply lists a page of the entries that the directory has from the offset on. -/
structure Listed (C : (o : UnpfsOp) → UnpfsRes o → Prop) (off : UInt64) (count : UInt32)
    (entries : List (Except IoError HostDirEntry)) (dots : List DirEntry)
    (page : List HostDirEntry) (shown : List DirEntry) (d : DirEntryData) : Prop where
  starts : Dots C off dots
  cut : Cut count (dotsLen off) (entries.drop (skipped off)) page
  shows : Shows C (skipped off) page shown
  data : d.data = dots ++ shown

section
variable {P : UnpfsOp → Prop} {C : (o : UnpfsOp) → UnpfsRes o → Prop} {F : Prop} {α : Type}
  {Q : α → Prop}

theorem achieves_liftIo {p : UnpfsProg (Except IoError α)}
    (h : p.Performs P C (fun r => (∀ a, r = .ok a → Q a) ∧ ∀ e, r = .error e → F)) :
    Achieves P C F Q (liftIo p) := by
  unfold Achieves liftIo
  rw [ExceptT.run_mk, performs_map]
  refine h.mono fun r hr => ?_
  cases r with
  | ok a => simpa [Except.mapError] using hr.1
  | error e => simpa [Except.mapError] using hr.2

theorem achieves_withRealpath {fid : Fid} {body : PathBuf → UnpfsHandler α}
    (hread : P (.realpathRead fid.aux)) (hunread : P (.realpathUnread fid.aux))
    (h : ∀ path, C (.realpathRead fid.aux) path → Achieves P C F Q (body path)) :
    Achieves P C F Q (withRealpath fid body) := by
  simp only [Achieves, withRealpath, ExceptT.run_mk, performs_bind]
  refine ⟨hread, fun path hpath => ?_⟩
  rw [performs_ret]
  exact Performs.mono (h path hpath) fun r hr => ⟨hunread, fun _ _ => hr⟩

theorem achieves_getDirent {entry : HostDirEntry} (hP : P (.host (.entryMetadata entry)))
    (hF : ∀ e, C (.host (.entryMetadata entry)) (.error e) → F) (offset : UInt64) :
    Achieves P C F (fun d => ∃ attr, C (.host (.entryMetadata entry)) (.ok attr) ∧
      d = ⟨qidFromAttr attr, offset, 0, fromUtf8Lossy entry.fileName⟩)
      (getDirent entry offset) := by
  unfold getDirent
  have hmeta : Achieves P C F (fun attr => C (.host (.entryMetadata entry)) (.ok attr))
      (liftIo (op (.host (.entryMetadata entry)))) := by
    refine achieves_liftIo ⟨hP, fun r hr => ⟨?_, ?_⟩⟩
    · rintro attr rfl
      exact hr
    · rintro e rfl
      exact hF e hr
  refine achieves_bind hmeta fun attr hattr => ?_
  rw [achieves_pure]
  exact ⟨attr, hattr, rfl⟩

/-- The sum that the loop compares with the count. -/
theorem size_add_size (dirents : DirEntryData) (dirent : DirEntry) :
    (dirents.size + dirent.size).toNat = (dirents.len + direntLen dirent.name) % 2 ^ 32 := by
  rw [DirEntryData.size_eq, DirEntry.size_eq, ← UInt32.ofNat_add, UInt32.toNat_ofNat']

theorem achieves_readdirLoop {count : UInt32} {entries : List (Except IoError HostDirEntry)}
    (hP : ∀ entry, .ok entry ∈ entries → P (.host (.entryMetadata entry)))
    (hF : ∀ entry, .ok entry ∈ entries → ∀ e, C (.host (.entryMetadata entry)) (.error e) → F)
    (herror : ∀ e, .error e ∈ entries → F) (i : ℕ) (dirents : DirEntryData) :
    Achieves P C F (fun d => ∃ page shown, Cut count dirents.len entries page ∧
      Shows C i page shown ∧ d.data = dirents.data ++ shown)
      (Unpfs.readdirLoop count entries i dirents) := by
  induction entries generalizing i dirents with
  | nil =>
    rw [Unpfs.readdirLoop, achieves_pure]
    exact ⟨[], [], .done _, .nil i, (List.append_nil _).symm⟩
  | cons entry entries ih =>
    rw [Unpfs.readdirLoop]
    have hentry : Achieves P C F (fun e => entry = .ok e) (liftIo (pure entry)) := by
      refine achieves_liftIo ⟨fun e he => he, fun e he => ?_⟩
      exact herror e (by simp [he])
    refine achieves_bind hentry fun e he => ?_
    subst he
    refine achieves_bind (achieves_getDirent (hP e (by simp)) (hF e (by simp)) _) ?_
    rintro dirent ⟨attr, hattr, rfl⟩
    split_ifs with hcount
    · rw [achieves_pure]
      rw [UInt32.lt_iff_toNat_lt, size_add_size] at hcount
      exact ⟨[], [], .full hcount, .nil i, (List.append_nil _).symm⟩
    · rw [UInt32.lt_iff_toNat_lt, size_add_size, not_lt] at hcount
      refine (ih (fun e h => hP e (by simp [h])) (fun e h => hF e (by simp [h]))
        (fun e h => herror e (by simp [h])) (i + 1) _).mono ?_
      rintro d ⟨page, shown, hcut, hshows, hd⟩
      rw [DirEntryData.len_push] at hcut
      refine ⟨e :: page, _ :: shown, .more hcount hcut, .cons hattr hshows, ?_⟩
      rw [hd, DirEntryData.push, List.append_assoc]
      rfl

theorem achieves_getDirentFrom {path : PathBuf} (hP : P (.host (.symlinkMetadata path)))
    (hF : ∀ e, C (.host (.symlinkMetadata path)) (.error e) → F) (offset : UInt64) :
    Achieves P C F (fun d => ∃ attr, C (.host (.symlinkMetadata path)) (.ok attr) ∧
      d = ⟨qidFromAttr attr, offset, 0, path.toStringLossy⟩) (getDirentFrom path offset) := by
  unfold getDirentFrom getQid
  have hmeta : Achieves P C F (fun attr => C (.host (.symlinkMetadata path)) (.ok attr))
      (liftIo (op (.host (.symlinkMetadata path)))) := by
    refine achieves_liftIo ⟨hP, fun r hr => ⟨?_, ?_⟩⟩
    · rintro attr rfl
      exact hr
    · rintro e rfl
      exact hF e hr
  have hqid : Achieves P C F
      (fun qid => ∃ attr, C (.host (.symlinkMetadata path)) (.ok attr) ∧ qid = qidFromAttr attr)
      (do let attr ← liftIo (op (.host (.symlinkMetadata path))); return qidFromAttr attr) := by
    refine achieves_bind hmeta fun attr hattr => ?_
    rw [achieves_pure]
    exact ⟨attr, hattr, rfl⟩
  refine achieves_bind hqid ?_
  rintro qid ⟨attr, hattr, rfl⟩
  rw [achieves_pure]
  exact ⟨attr, hattr, rfl⟩

theorem achieves_readdirStart {off : UInt64}
    (hP : ∀ path ∈ [PathBuf.ofString ".", .ofString ".."], P (.host (.symlinkMetadata path)))
    (hF : ∀ path ∈ [PathBuf.ofString ".", .ofString ".."], ∀ e,
      C (.host (.symlinkMetadata path)) (.error e) → F) :
    Achieves P C F (fun x => ∃ dots, Dots C off dots ∧ x.1.data = dots ∧
      x.1.len = dotsLen off ∧ x.2 = skipped off) (Unpfs.readdirStart off) := by
  have hdot : (PathBuf.ofString ".").toStringLossy = "." := by decide
  have hdots : (PathBuf.ofString "..").toStringLossy = ".." := by decide
  unfold Unpfs.readdirStart Dots dotsLen skipped
  by_cases hoff : off = 0
  · simp only [hoff, if_true]
    refine achieves_bind (achieves_getDirentFrom (hP _ (by simp)) (hF _ (by simp)) 0) ?_
    rintro x ⟨self, hself, rfl⟩
    refine achieves_bind (achieves_getDirentFrom (hP _ (by simp)) (hF _ (by simp)) 1) ?_
    rintro y ⟨up, hup, rfl⟩
    rw [achieves_pure, hdot, hdots]
    exact ⟨_, ⟨self, up, hself, hup, rfl⟩, rfl, rfl, rfl⟩
  · simp only [hoff, if_false]
    rw [achieves_pure]
    exact ⟨[], rfl, rfl, rfl, rfl⟩

/-- The spec of `Treaddir`. `P` are the operations that it may perform, `C` are the answers that it
may get, and `F` holds where one of them is an error. -/
theorem achieves_rreaddir {fid : Fid} {off : UInt64} {count : UInt32}
    (hread : P (.realpathRead fid.aux)) (hunread : P (.realpathUnread fid.aux))
    (hP : ∀ path ∈ [PathBuf.ofString ".", .ofString ".."], P (.host (.symlinkMetadata path)))
    (hF : ∀ path ∈ [PathBuf.ofString ".", .ofString ".."], ∀ e,
      C (.host (.symlinkMetadata path)) (.error e) → F)
    (hdir : ∀ path, C (.realpathRead fid.aux) path → P (.host (.readDir path)) ∧
      (∀ e, C (.host (.readDir path)) (.error e) → F) ∧
      ∀ entries, C (.host (.readDir path)) (.ok entries) → (∀ e, .error e ∈ entries → F) ∧
        ∀ entry, .ok entry ∈ entries → P (.host (.entryMetadata entry)) ∧
          ∀ e, C (.host (.entryMetadata entry)) (.error e) → F) :
    Achieves P C F (fun reply => ∃ d path entries dots page shown, reply = .rreaddir d ∧
      C (.realpathRead fid.aux) path ∧ C (.host (.readDir path)) (.ok entries) ∧
      Listed C off count entries dots page shown d) (Unpfs.rreaddir fid off count) := by
  unfold Unpfs.rreaddir
  refine achieves_bind (achieves_readdirStart hP hF) ?_
  rintro ⟨dirents, skip⟩ ⟨dots, hdots, hdata, hlen, rfl⟩
  dsimp only at hdata hlen
  have hentries : Achieves P C F (fun entries => ∃ path, C (.realpathRead fid.aux) path ∧
      C (.host (.readDir path)) (.ok entries))
      (withRealpath fid (fun path => liftIo (op (.host (.readDir path))))) := by
    refine achieves_withRealpath hread hunread fun path hpath => ?_
    obtain ⟨hPdir, hFdir, -⟩ := hdir path hpath
    refine achieves_liftIo ⟨hPdir, fun r hr => ⟨?_, ?_⟩⟩
    · rintro entries rfl
      exact ⟨path, hpath, hr⟩
    · rintro e rfl
      exact hFdir e hr
  refine achieves_bind hentries ?_
  rintro entries ⟨path, hpath, hentries⟩
  obtain ⟨herror, hentry⟩ := (hdir path hpath).2.2 entries hentries
  have hloop : Achieves P C F _
      (Unpfs.readdirLoop count (entries.drop (skipped off)) (skipped off) dirents) :=
    achieves_readdirLoop (fun e he => (hentry e (List.mem_of_mem_drop he)).1)
      (fun e he => (hentry e (List.mem_of_mem_drop he)).2)
      (fun e he => herror e (List.mem_of_mem_drop he)) _ _
  refine achieves_bind hloop ?_
  rintro d ⟨page, shown, hcut, hshows, hd⟩
  rw [achieves_pure]
  refine ⟨d, path, entries, dots, page, shown, rfl, hpath, hentries, hdots, ?_, hshows, ?_⟩
  · rw [← hlen]
    exact hcut
  · rw [hd, hdata]

end

/-! The size that a client asks for. -/

/-- A page that fits is never followed by an entry with which the sum needs more than 32 bits. -/
def NoWrap (count : UInt32) (len : ℕ) (entries : List (Except IoError HostDirEntry)) : Prop :=
  ∀ page entry rest, entries = page.map .ok ++ .ok entry :: rest →
    len + pageLen page ≤ count.toNat → len + pageLen page + entry.len < 2 ^ 32

section
variable {count : UInt32} {len : ℕ} {entries : List (Except IoError HostDirEntry)}
  {page : List HostDirEntry}

theorem NoWrap.tail {entry : HostDirEntry} (h : NoWrap count len (.ok entry :: entries))  :
    NoWrap count (len + entry.len) entries := by
  intro page next rest hentries hfits
  have hnext := h (entry :: page) next rest (by simp [hentries])
  simp only [pageLen_cons] at hnext
  have hsum := hnext (by omega)
  omega

/-- A loop that starts within the count stays within it. -/
theorem Cut.le (h : Cut count len entries page) (hlen : len ≤ count.toNat)
    (hwrap : NoWrap count len entries) : len + pageLen page ≤ count.toNat := by
  induction h with
  | done | full => exact hlen
  | more hfits _ ih =>
    have hsum := hwrap [] _ _ rfl hlen
    rw [pageLen_nil, Nat.add_zero] at hsum
    rw [Nat.mod_eq_of_lt hsum] at hfits
    have hpage := ih hfits hwrap.tail
    rw [pageLen_cons]
    omega

/-- What the loop has taken starts with every shorter page. -/
theorem Cut.pageLen_le (h : Cut count len entries page) {shorter : List HostDirEntry}
    {rest : List (Except IoError HostDirEntry)} (hentries : entries = shorter.map .ok ++ rest)
    (hshorter : shorter.length ≤ page.length) : pageLen shorter ≤ pageLen page := by
  induction h generalizing shorter with
  | done | full =>
    have hnil := List.eq_nil_of_length_eq_zero (Nat.le_zero.mp hshorter)
    rw [hnil]
  | more _ _ ih =>
    cases shorter with
    | nil => exact Nat.zero_le _
    | cons e shorter =>
      cases hentries
      have hle := ih rfl (by simpa using hshorter)
      rw [pageLen_cons, pageLen_cons]
      omega

/-- Where the loop has stopped within the count, no longer page fits. -/
theorem Cut.lt_of_longer (h : Cut count len entries page) {longer : List HostDirEntry}
    {rest : List (Except IoError HostDirEntry)} (hentries : entries = longer.map .ok ++ rest)
    (hlonger : page.length < longer.length) : count.toNat < len + pageLen longer := by
  induction h generalizing longer with
  | done =>
    cases longer with
    | nil => simp at hlonger
    | cons e longer => simp at hentries
  | @full len entry _ hover =>
    cases longer with
    | nil => simp at hlonger
    | cons e longer =>
      cases hentries
      have hmod := Nat.mod_le (len + entry.len) (2 ^ 32)
      rw [pageLen_cons]
      omega
  | more _ _ ih =>
    cases longer with
    | nil => simp at hlonger
    | cons e longer =>
      cases hentries
      have hlt := ih rfl (by simpa using hlonger)
      rw [pageLen_cons]
      omega

end

def dotsNum (off : UInt64) : ℕ := if off = 0 then 2 else 0

/-- The entries of a reply fit into `count` bytes, the field in front of them says how many bytes
they are, and no sum that was compared with `count` is too large for 32 bits. -/
structure Respects (off : UInt64) (count : UInt32) (entries : List (Except IoError HostDirEntry))
    (d : DirEntryData) : Prop where
  bytes : (wire d).length ≤ 4 + count.toNat
  field : 4 + d.size.toNat = (wire d).length
  sums : ∀ page entry rest, entries.drop (skipped off) = page.map .ok ++ .ok entry :: rest →
    dotsNum off + page.length ≤ d.data.length →
    dotsLen off + pageLen page + entry.len < 2 ^ 32

section
variable {C : (o : UnpfsOp) → UnpfsRes o → Prop} {off : UInt64} {count : UInt32}
  {entries : List (Except IoError HostDirEntry)} {dots : List DirEntry} {page : List HostDirEntry}
  {shown : List DirEntry} {d : DirEntryData} {i : ℕ}

theorem Shows.length (h : Shows C i page shown) : shown.length = page.length := by
  induction h with
  | nil => rfl
  | cons _ _ ih => rw [List.length_cons, List.length_cons, ih]

theorem Shows.names (h : Shows C i page shown) :
    shown.map DirEntry.name = page.map (fun e => fromUtf8Lossy e.fileName) := by
  induction h with
  | nil => rfl
  | cons _ _ ih => rw [List.map_cons, List.map_cons, ih]

theorem Dots.names (h : Dots C off dots) :
    dots.map DirEntry.name = if off = 0 then [".", ".."] else [] := by
  unfold Dots at h
  split_ifs at h ⊢
  · obtain ⟨self, up, -, -, rfl⟩ := h
    rfl
  · rw [h]
    rfl

theorem Dots.length (h : Dots C off dots) : dots.length = dotsNum off := by
  have hnames := congrArg List.length h.names
  rw [List.length_map] at hnames
  rw [hnames]
  unfold dotsNum
  split_ifs <;> rfl

/-- The bytes of a listing are those of its names. -/
theorem Listed.len (h : Listed C off count entries dots page shown d) :
    d.len = dotsLen off + pageLen page := by
  have hshown : (shown.map fun e => direntLen e.name).sum = pageLen page := by
    have hnames := congrArg (List.map direntLen) h.shows.names
    rw [List.map_map, List.map_map] at hnames
    exact congrArg List.sum hnames
  have hdots : (dots.map fun e => direntLen e.name).sum = dotsLen off := by
    have hnames := congrArg (List.map direntLen) h.starts.names
    rw [List.map_map] at hnames
    rw [show (dots.map fun e => direntLen e.name) = _ from hnames]
    unfold dotsLen
    split_ifs <;> rfl
  rw [DirEntryData.len, h.data, List.map_append, List.sum_append, hdots, hshown]

theorem Listed.length (h : Listed C off count entries dots page shown d) :
    d.data.length = dotsNum off + page.length := by
  rw [h.data, List.length_append, h.starts.length, h.shows.length]

theorem Listed.respects_iff (h : Listed C off count entries dots page shown d) :
    Respects off count entries d ↔ (off = 0 → 51 ≤ count.toNat) ∧
      NoWrap count (dotsLen off) (entries.drop (skipped off)) := by
  have hstart : dotsLen off ≤ count.toNat ↔ (off = 0 → 51 ≤ count.toNat) := by
    unfold dotsLen
    split_ifs with hoff
    · have hlen : direntLen "." + direntLen ".." = 51 := by decide
      simp [hoff, hlen]
    · simp [hoff]
  have hlen := h.len
  have hnum := h.length
  rw [← hstart]
  constructor
  · intro hrespects
    have hle := hrespects.bytes
    rw [length_wire_dirents] at hle
    refine ⟨by omega, fun longer entry rest hentries hfits => ?_⟩
    -- a page that fits is one that the loop has come to
    have hcame : longer.length ≤ page.length := by
      by_contra hlonger
      have hlt := h.cut.lt_of_longer hentries (by omega)
      omega
    exact hrespects.sums longer entry rest hentries (by omega)
  · rintro ⟨hdots, hwrap⟩
    have hfits := h.cut.le hdots hwrap
    have hle : d.len ≤ count.toNat := by omega
    refine ⟨by rw [length_wire_dirents]; omega, ?_, fun shorter entry rest hentries hshorter => ?_⟩
    · have hcount := count.toNat_lt
      rw [DirEntryData.size_eq, UInt32.toNat_ofNat', length_wire_dirents,
        Nat.mod_eq_of_lt (by omega)]
    · have hpage := h.cut.pageLen_le hentries (by omega)
      exact hwrap shorter entry rest hentries (by omega)

end

/-- The host reads the directory as `entries`, and answers every other call in any way. -/
def ReadsAs (entries : List (Except IoError HostDirEntry)) :
    (o : UnpfsOp) → UnpfsRes o → Prop
  | .host (.readDir _), r => r = .ok entries
  | _, _ => True

/-- A reply to `Treaddir` takes no more than `count` bytes exactly when there is room for the two
entries that are always there, and no sum wraps around before the count is reached. -/
theorem rreaddir_respects_iff (realroot : PathBuf) (fid : Fid) (off : UInt64) (count : UInt32)
    (entries : List (Except IoError HostDirEntry)) :
    Returns (ReadsAs entries)
      (fun reply => ∃ d, reply = .rreaddir d ∧ (Respects off count entries d ↔
        (off = 0 → 51 ≤ count.toNat) ∧
          NoWrap count (dotsLen off) (entries.drop (skipped off))))
      ((Unpfs realroot).rreaddir fid off count) := by
  have hlisted : Achieves (fun _ => True) (ReadsAs entries) True _
      (Unpfs.rreaddir fid off count) :=
    achieves_rreaddir True.intro True.intro (fun _ _ => True.intro) (fun _ _ _ _ => True.intro)
      fun path _ => ⟨True.intro, fun _ _ => True.intro, fun es _ =>
        ⟨fun _ _ => True.intro, fun _ _ => ⟨True.intro, fun _ _ => True.intro⟩⟩⟩
  refine hlisted.returns.mono ?_
  rintro reply ⟨d, path, es, dots, page, shown, rfl, -, hes, hlist⟩
  have hsame : es = entries := Except.ok.inj hes
  subst hsame
  exact ⟨d, rfl, hlist.respects_iff⟩

/-- A client that asks for no bytes gets the 51 bytes of `.` and `..`. -/
theorem not_rreaddir_respects : ¬ ∀ (fid : Fid) (off : UInt64) (count : UInt32)
    (entries : List (Except IoError HostDirEntry)),
    Returns (ReadsAs entries) (fun reply => ∃ d, reply = .rreaddir d ∧
      (wire d).length ≤ 4 + count.toNat) ((Unpfs (.ofString "/")).rreaddir fid off count) := by
  intro h
  let attr : Metadata := ⟨1, 2, .dir, 0o755, 0, 0, 1, 0, 0, 4096, 0, 0, 0, 0, 0, 0, 0⟩
  obtain ⟨d, hd, hle⟩ := h ⟨1, 0⟩ 0 0 [] (.ok attr) True.intro (.ok attr) True.intro
    (.ofString "/") True.intro (.ok []) rfl () True.intro _ rfl
  cases hd
  exact absurd hle (by decide)

end P9cpu.Ninep
