import P9cpu.Ninep.Listing

/-! The cookie of each entry, and where a listing goes on from it. -/
namespace P9cpu.Ninep
open Core Prog

/-- `.` and `..`, and the entries in the order of the directory. -/
def listing (names : List (List UInt8)) : List String := "." :: ".." :: listedNames names

/-- Where the entry `j` of a reply stands in the listing. -/
def position (off : UInt64) (j : ℕ) : ℕ := if off = 0 then j else off.toNat + 1 + j

theorem length_listing (names : List (List UInt8)) :
    (listing names).length = names.length + 2 := by
  simp [listing, listedNames]

theorem position_eq (off : UInt64) (j : ℕ) : position off j = position off 0 + j := by
  unfold position
  split_ifs
  · exact (Nat.zero_add j).symm
  · rfl

/-- The entries behind the two that are always there. -/
theorem position_of_ne {off : UInt64} (hoff : off ≠ 0) (j : ℕ) :
    position off j = 2 + (skipped off + j) := by
  have hpos : 1 ≤ off.toNat := by
    rw [Nat.one_le_iff_ne_zero]
    exact fun h => hoff (UInt64.toNat_inj.mp h)
  have hone : (1 : UInt64) ≤ off := UInt64.le_iff_toNat_le.mpr hpos
  rw [position, if_neg hoff, skipped, if_neg hoff, UInt64.toNat_sub_of_le _ _ hone,
    UInt64.toNat_one]
  omega

section
variable {C : (o : UnpfsOp) → UnpfsRes o → Prop} {names : List (List UInt8)}
  {entries : List HostDirEntry} {off : UInt64} {count : UInt32} {dots : List DirEntry}
  {page : List HostDirEntry} {shown : List DirEntry} {d : DirEntryData} {i j : ℕ} {e : DirEntry}

theorem Shows.offset (h : Shows C i page shown) (he : shown[j]? = some e) :
    e.offset = UInt64.ofNat (2 + (i + j)) := by
  induction h generalizing j with
  | nil => simp at he
  | cons _ rest ih =>
    cases j with
    | zero =>
      cases he
      rfl
    | succ j =>
      rw [ih he]
      congr 1
      omega

/-- The cookie of an entry is its position. -/
theorem Listed.offset (h : Listed C off count (entries.map .ok) dots page shown d)
    (he : d.data[j]? = some e) : e.offset = UInt64.ofNat (position off j) := by
  have hstarts := h.starts
  rw [h.data] at he
  unfold Dots at hstarts
  by_cases hoff : off = 0
  · rw [if_pos hoff] at hstarts
    obtain ⟨self, up, -, -, rfl⟩ := hstarts
    rw [position, if_pos hoff]
    match j with
    | 0 | 1 =>
      cases he
      rfl
    | j + 2 =>
      have hshown : shown[j]? = some e := he
      have hskip : skipped off = 0 := by rw [skipped, if_pos hoff]
      rw [h.shows.offset hshown, hskip]
      congr 1
      omega
  · rw [if_neg hoff] at hstarts
    rw [hstarts, List.nil_append] at he
    rw [h.shows.offset he, position_of_ne hoff]

/-- A reply is a part of the listing. -/
theorem Listed.map_name_listing (h : Listed C off count (entries.map .ok) dots page shown d)
    (hnames : entries.map HostDirEntry.fileName = names) :
    d.data.map DirEntry.name =
      ((listing names).drop (position off 0)).take d.data.length := by
  rw [h.map_name hnames, h.length, dotsNum]
  by_cases hoff : off = 0
  · have hskip : skipped off = 0 := by rw [skipped, if_pos hoff]
    rw [if_pos hoff, if_pos hoff, hskip, position, if_pos hoff, Nat.add_comm 2]
    rfl
  · rw [if_neg hoff, if_neg hoff, position_of_ne hoff, List.nil_append, Nat.zero_add,
      Nat.add_zero, Nat.add_comm 2, listing, List.drop_succ_cons, List.drop_succ_cons]

theorem Listed.getElem_listing (h : Listed C off count (entries.map .ok) dots page shown d)
    (hnames : entries.map HostDirEntry.fileName = names) (he : d.data[j]? = some e) :
    (listing names)[position off j]? = some e.name := by
  have hmap := h.map_name_listing hnames
  have hj : j < d.data.length := by
    by_contra hge
    rw [List.getElem?_eq_none (by omega)] at he
    cases he
  have hname : (d.data.map DirEntry.name)[j]? = some e.name := by rw [List.getElem?_map, he]; rfl
  rw [hmap, List.getElem?_take_of_lt hj, List.getElem?_drop, ← position_eq] at hname
  exact hname

/-- From the cookie of an entry but the first one, a reply goes on right behind it. -/
theorem Listed.goes_on (h : Listed C off count (entries.map .ok) dots page shown d)
    (hnames : entries.map HostDirEntry.fileName = names) {p : ℕ} (hp : off.toNat = p)
    (hpos : p ≠ 0)
    (hfits : ∀ name, (listing names)[p + 1]? = some name → direntLen name ≤ count.toNat) :
    d.data.map DirEntry.name <+: (listing names).drop (p + 1) ∧
      (p + 1 < (listing names).length → d.data ≠ []) := by
  have hoff : off ≠ 0 := by
    rintro rfl
    exact hpos hp.symm
  have hstart : position off 0 = p + 1 := by rw [position, if_neg hoff, hp, Nat.add_zero]
  constructor
  · rw [h.map_name_listing hnames, hstart]
    exact List.take_prefix _ _
  · intro hlt hnil
    have hskip : 2 + skipped off = p + 1 := by rw [← hstart, position_of_ne hoff, Nat.add_zero]
    have hlen : (listing names).length = entries.length + 2 := by
      rw [length_listing, ← hnames, List.length_map]
    have hcut := h.cut
    rw [dotsLen, if_neg hoff, ← List.map_drop,
      List.drop_eq_getElem_cons (by omega : skipped off < entries.length)] at hcut
    have hpage : page = [] := by
      have hlength := h.length
      rw [hnil, List.length_nil] at hlength
      exact List.eq_nil_of_length_eq_zero (by omega)
    refine hcut.ne_nil_of_le (hfits _ ?_) hpage
    have hnext : listing names = "." :: ".." :: entries.map (fun e => fromUtf8Lossy e.fileName) := by
      rw [listing, listedNames, ← hnames, List.map_map]
      rfl
    rw [hnext, ← hskip, Nat.add_comm, List.getElem?_cons_succ, List.getElem?_cons_succ,
      List.getElem?_map, List.getElem?_eq_getElem (by omega)]
    rfl

end

/-- From `cookie` on, every reply with room for an entry is what follows the position `p`. -/
def Host.ResumesAfter (h : Host) (realroot : PathBuf) (I : h.State → Prop) (path : PathBuf)
    (names : List (List UInt8)) (cookie : UInt64) (p : ℕ) : Prop :=
  ∀ (s : Server (Host.Objs h.State)) (tag : UInt16) (fid : UInt32) (b : Fid) (count : UInt32),
    s.fids.get fid = some b → (s.world.objs b.aux).realpath = path → I s.world.host →
    (∀ name, (listing names)[p + 1]? = some name → direntLen name ≤ count.toNat) →
    ∃ d t, dispatchOnce (Unpfs realroot) h.backend ⟨tag, .treaddir fid cookie count⟩ s =
        (.ok (.rreaddir d), t) ∧
      d.data.map DirEntry.name <+: (listing names).drop (p + 1) ∧
      (p + 1 < (listing names).length → d.data ≠ [])

section
variable {h : Host} {I : h.State → Prop} {E : HostDirEntry → Prop} {path : PathBuf}
  {names : List (List UInt8)} {fid : UInt32} {b : Fid} {s : Server (Host.Objs h.State)}

theorem Host.Lists.resumesAfter (hlists : h.Lists I E path names) (realroot : PathBuf)
    {cookie : UInt64} {p : ℕ} (hp : cookie.toNat = p) (hpos : p ≠ 0) :
    h.ResumesAfter realroot I path names cookie p := by
  intro s tag fid b count hb hpath hI hfits
  obtain ⟨d, t, hrun, -, -, -, entries, dots, page, shown, hnames, hlisted⟩ :=
    hlists.treaddir realroot tag cookie count hb hpath hI
  exact ⟨d, t, hrun, hlisted.goes_on hnames hp hpos hfits⟩

/-- The cookie of `.` is that of the start. -/
theorem Host.Lists.not_resumesAfter (hlists : h.Lists I E path names) (realroot : PathBuf)
    (hb : s.fids.get fid = some b) (hpath : (s.world.objs b.aux).realpath = path)
    (hI : I s.world.host) : ¬ h.ResumesAfter realroot I path names 0 0 := by
  intro hresumes
  obtain ⟨d, t, hrun, hprefix, -⟩ := hresumes s 1 fid b 26 hb hpath hI (by
    intro name hname
    cases hname
    decide)
  obtain ⟨d', t', hrun', -, -, -, entries, dots, page, shown, hnames, hlisted⟩ :=
    hlists.treaddir realroot 1 0 26 hb hpath hI
  rw [hrun] at hrun'
  cases hrun'
  rw [hlisted.map_name hnames, if_pos rfl] at hprefix
  have hhead := List.cons_prefix_cons.mp hprefix
  exact absurd hhead.1 (by decide)

/-- Every cookie is the position of its entry, and a listing is resumed behind the entry from all
of them but the one of `.`. -/
theorem cookie_resumes_iff (hlists : h.Lists I E path names) (hlen : names.length + 2 ≤ 2 ^ 64)
    (realroot : PathBuf) (hb : s.fids.get fid = some b)
    (hpath : (s.world.objs b.aux).realpath = path) (hI : I s.world.host) {tag : UInt16}
    {off : UInt64} {count : UInt32} {d : DirEntryData} {t : Server (Host.Objs h.State)}
    (hreply : dispatchOnce (Unpfs realroot) h.backend ⟨tag, .treaddir fid off count⟩ s =
      (.ok (.rreaddir d), t)) {j : ℕ} {e : DirEntry} (he : d.data[j]? = some e) :
    (listing names)[position off j]? = some e.name ∧ e.offset.toNat = position off j ∧
      (h.ResumesAfter realroot I path names e.offset (position off j) ↔ off ≠ 0 ∨ j ≠ 0) := by
  obtain ⟨d', t', hrun, -, -, -, entries, dots, page, shown, hnames, hlisted⟩ :=
    hlists.treaddir realroot tag off count hb hpath hI
  rw [hreply] at hrun
  cases hrun
  have hname := hlisted.getElem_listing hnames he
  have hoffset : e.offset.toNat = position off j := by
    have hlt : position off j < (listing names).length := by
      by_contra hge
      rw [List.getElem?_eq_none (by omega)] at hname
      cases hname
    rw [length_listing] at hlt
    rw [hlisted.offset he, UInt64.toNat_ofNat']
    exact Nat.mod_eq_of_lt (by omega)
  have hfirst : position off j ≠ 0 ↔ off ≠ 0 ∨ j ≠ 0 := by
    unfold position
    split_ifs with hoff
    · simp [hoff]
    · simp [hoff]
  refine ⟨hname, hoffset, ?_⟩
  rw [← hfirst]
  constructor
  · intro hresumes hzero
    have hcookie : e.offset = 0 := UInt64.toNat_inj.mp (hoffset.trans hzero)
    rw [hzero, hcookie] at hresumes
    exact hlists.not_resumesAfter realroot hb hpath hI hresumes
  · exact hlists.resumesAfter realroot hoffset

end
def twoFiles : List (List UInt8) := [[0x61], [0x62]]

def twoFilesReply (off : UInt64) (count : UInt32) :
    Except Abort Fcall × Server (Host.Objs (constHost (listingHost twoFiles)).State) :=
  dispatchOnce (Unpfs (.ofString "/")) (constHost (listingHost twoFiles)).backend
    ⟨7, .treaddir 1 off count⟩ (rootServer [])

/-- The listing is resumed behind the file `a`. -/
theorem cookie_resumes_iff_twoFiles : ∃ d t, twoFilesReply 0 76 = (.ok (.rreaddir d), t) ∧
    (constHost (listingHost twoFiles)).ResumesAfter (.ofString "/") (fun _ => True)
      (.ofString "/") twoFiles 2 2 := by
  have hreply : twoFilesReply 0 76 = (.ok (.rreaddir _), _) := rfl
  have hresumes := cookie_resumes_iff (b := ⟨1, 0⟩) (j := 2)
    (lists_listingHost (.ofString "/") twoFiles) (by decide) (.ofString "/") rfl rfl
    True.intro hreply rfl
  exact ⟨_, _, hreply, hresumes.2.2.mpr (.inr (by decide))⟩

/-- The listing is not resumed behind `.`, but from the start. -/
theorem not_cookie_resumes : ¬ ∀ (h : Host) (I : h.State → Prop) (E : HostDirEntry → Prop)
    (path : PathBuf) (names : List (List UInt8)) (fid : UInt32) (b : Fid)
    (s : Server (Host.Objs h.State)) (tag : UInt16) (off : UInt64) (count : UInt32)
    (d : DirEntryData) (t : Server (Host.Objs h.State)) (j : ℕ) (e : DirEntry),
    h.Lists I E path names → names.length + 2 ≤ 2 ^ 64 → s.fids.get fid = some b →
    (s.world.objs b.aux).realpath = path → I s.world.host →
    dispatchOnce (Unpfs (.ofString "/")) h.backend ⟨tag, .treaddir fid off count⟩ s =
      (.ok (.rreaddir d), t) → d.data[j]? = some e →
    h.ResumesAfter (.ofString "/") I path names e.offset (position off j) := by
  intro hclaim
  have hreply : twoFilesReply 0 76 = (.ok (.rreaddir _), _) := rfl
  have hlists := lists_listingHost (.ofString "/") twoFiles
  have hresumes := hclaim (constHost (listingHost twoFiles)) _ _ _ twoFiles 1 ⟨1, 0⟩
    (rootServer []) 7 0 76 _ _ 0 _ hlists (by decide) rfl rfl True.intro hreply rfl
  have hbound : (rootServer []).fids.get 1 = some ⟨1, 0⟩ := rfl
  exact Host.Lists.not_resumesAfter (h := constHost (listingHost twoFiles)) (s := rootServer [])
    hlists (.ofString "/") hbound rfl True.intro hresumes

end P9cpu.Ninep
