import P9cpu.Ninep.OneReply
import P9cpu.Ninep.Readdir
import P9cpu.Ninep.Walk

/-! How a client reads a directory: page after page, each from the cookie of the last entry. -/
namespace P9cpu.Ninep
open Core Prog

/-- In the states `I` the directory at `path` has the entries `names`, in the order in which its
streams give them. `E` are the entries of its streams. -/
structure Host.Lists (h : Host) (I : h.State → Prop) (E : HostDirEntry → Prop) (path : PathBuf)
    (names : List (List UInt8)) : Prop where
  dots : ∀ s, I s → ∀ p ∈ [PathBuf.ofString ".", .ofString ".."], ∃ attr, h.lstat s p = .ok attr
  readDir : ∀ s, I s → I (h.exec (.readDir path) s).2 ∧ ∃ entries : List HostDirEntry,
    (h.exec (.readDir path) s).1 = .ok (entries.map .ok) ∧
      entries.map HostDirEntry.fileName = names ∧ ∀ e ∈ entries, E e
  entry : ∀ s e, I s → E e → I (h.exec (.entryMetadata e) s).2 ∧
    ∃ attr, (h.exec (.entryMetadata e) s).1 = .ok attr

/-- One `Treaddir` for each tag and count, up to a reply without entries. Each but the first one
has the cookie of the last entry before it. -/
def readDirectory (realroot : PathBuf) (h : Host) (fid : UInt32) :
    List (UInt16 × UInt32) → UInt64 → Server (Host.Objs h.State) →
      Option (List DirEntry × Server (Host.Objs h.State))
  | [], _, _ => none
  | (tag, count) :: requests, offset, s =>
    match dispatchOnce (Unpfs realroot) h.backend ⟨tag, .treaddir fid offset count⟩ s with
    | (.ok (.rreaddir d), t) =>
      match d.data.getLast? with
      | none => some ([], t)
      | some last => (readDirectory realroot h fid requests last.offset t).map
          fun (entries, u) => (d.data ++ entries, u)
    | _ => none

/-! Pages of a directory that has no bad entries. -/

section
variable {C : (o : UnpfsOp) → UnpfsRes o → Prop} {count : UInt32} {len i : ℕ}
  {entries page : List HostDirEntry} {shown : List DirEntry}

theorem Cut.take (h : Cut count len (entries.map .ok) page) :
    page = entries.take page.length := by
  generalize hes : entries.map Except.ok = es at h
  induction h generalizing entries with
  | done | full => rfl
  | more _ _ ih =>
    cases entries with
    | nil => cases hes
    | cons e entries =>
      cases hes
      rw [List.length_cons, List.take_succ_cons, ← ih rfl]

theorem Cut.length_le (h : Cut count len (entries.map .ok) page) :
    page.length ≤ entries.length := by
  have hpage := congrArg List.length h.take
  rw [List.length_take] at hpage
  omega

/-- A page from an offset that is not 0 has the entry after it, if there is room for that. -/
theorem Cut.ne_nil_of_le {entry : HostDirEntry}
    (h : Cut count 0 ((entry :: entries).map .ok) page) (hfits : entry.len ≤ count.toNat) :
    page ≠ [] := by
  cases h with
  | full hover =>
    have hmod := Nat.mod_le (0 + entry.len) (2 ^ 32)
    omega
  | more => exact List.cons_ne_nil _ _

theorem Cut.ne_nil (h : Cut count 0 (entries.map .ok) page) (hne : entries ≠ [])
    (hfits : ∀ e ∈ entries, e.len ≤ count.toNat) : page ≠ [] := by
  cases entries with
  | nil => contradiction
  | cons e entries => exact h.ne_nil_of_le (hfits e (by simp))

theorem Shows.getLast (h : Shows C i page shown) {last : DirEntry}
    (hlast : shown.getLast? = some last) :
    last.offset = UInt64.ofNat (1 + (i + shown.length)) := by
  induction h with
  | nil => cases hlast
  | @cons i entry attr page shown _ rest ih =>
    cases shown with
    | nil =>
      cases hlast
      change UInt64.ofNat (2 + i) = UInt64.ofNat (1 + (i + 1))
      congr 1
      omega
    | cons e es =>
      rw [List.getLast?_cons_cons] at hlast
      rw [ih hlast]
      simp only [List.length_cons]
      congr 1
      omega

end

/-! One request. -/

section
variable {h : Host} {realroot : PathBuf} {fid : UInt32} {b : Fid}
  {s : Server (Host.Objs h.State)} {tag : UInt16} {off : UInt64} {count : UInt32}

/-- A `Treaddir` for a bound fid is answered as its handler runs. -/
theorem dispatchOnce_treaddir {P : UnpfsOp → Prop} {C : (o : UnpfsOp) → UnpfsRes o → Prop}
    {F : Prop} {Q : Fcall → Prop} {I : Host.Objs h.State → Prop} {msg : Msg}
    (realroot : PathBuf) (hmsg : msg.body = .treaddir fid off count)
    (hb : s.fids.get fid = some b) (hhandler : Achieves P C F Q (Unpfs.rreaddir b off count))
    (hexec : ∀ o w, I w → P o → C o (h.objsExec o w).1 ∧ I (h.objsExec o w).2) (hI : I s.world) :
    ∃ r t, dispatchOnce (Unpfs realroot) h.backend msg s = (r, t) ∧
      (∀ reply, r = .ok reply → Q reply) ∧ (∀ e, r = .error e → F) ∧
      t.fids = s.fids ∧ I t.world := by
  have hroute : route (Unpfs realroot) s.fids (newFid msg.body s.nextAux) msg.body =
      .ok (Unpfs.rreaddir b off count) := by
    rw [hmsg]
    simp only [route, getFid, hb]
    rfl
  have hcreated : s.created h.backend msg.body = s.world := by
    rw [hmsg]
    rfl
  have hsame : updateFids s.fids msg.body (newFid msg.body s.nextAux) = s.fids := by
    rw [hmsg]
    rfl
  obtain ⟨hresult, hworld⟩ := Performs.run_preserves (s := s.world) hhandler hexec hI
  cases hrun : (Unpfs.rreaddir b off count).run.run h.objsExec s.world with
  | mk r w =>
    rw [hrun] at hresult hworld
    rw [← hcreated] at hrun
    cases hd : dispatchOnce (Unpfs realroot) h.backend msg s with
    | mk answer t =>
      cases r with
      | ok reply =>
        have hrouted := dispatchOnce_ok (b := h.backend) hroute hrun
        rw [hd, hsame] at hrouted
        obtain ⟨hok, hfids, hw⟩ := hrouted
        dsimp only at hok hfids hw
        subst hok hw
        refine ⟨_, t, rfl, ?_, ?_, hfids, hworld⟩
        · intro reply' hreply
          cases hreply
          exact hresult.1 reply rfl
        · intro e he
          cases he
      | error e =>
        have hrouted := dispatchOnce_error (b := h.backend) hroute hrun
        rw [hd] at hrouted
        obtain ⟨herror, hfids, hw⟩ := hrouted
        dsimp only at herror hfids hw
        subst herror hw
        refine ⟨_, t, rfl, ?_, ?_, hfids, hworld⟩
        · intro reply hreply
          cases hreply
        · exact fun _ _ => hresult.2 e rfl

/-- The answers of a directory with the entries `names`. -/
def Host.ListAnswers (E : HostDirEntry → Prop) (path : PathBuf)
    (names : List (List UInt8)) : (o : UnpfsOp) → UnpfsRes o → Prop
  | .realpathRead _, r => r = path
  | .host (.symlinkMetadata _), r | .host (.entryMetadata _), r => ∃ attr, r = .ok attr
  | .host (.readDir _), r => ∃ entries : List HostDirEntry, r = .ok (entries.map .ok) ∧
      entries.map HostDirEntry.fileName = names ∧ ∀ e ∈ entries, E e
  | _, _ => True

/-- The operations of a `Treaddir` for the object `a`. -/
def Host.ListOps (E : HostDirEntry → Prop) (a : ObjId) (path : PathBuf) : UnpfsOp → Prop
  | .realpathRead obj | .realpathUnread obj => obj = a
  | .host (.symlinkMetadata p) => p ∈ [PathBuf.ofString ".", .ofString ".."]
  | .host (.readDir p) => p = path
  | .host (.entryMetadata e) => E e
  | _ => False

section
variable {I : h.State → Prop} {E : HostDirEntry → Prop} {path : PathBuf}
  {names : List (List UInt8)}

theorem Host.ListAnswers.entries {es : List (Except IoError HostDirEntry)}
    (hes : Host.ListAnswers E path names (.host (.readDir path)) (.ok es)) :
    (∀ e, .error e ∉ es) ∧ ∀ entry, .ok entry ∈ es → E entry := by
  obtain ⟨entries, heq, -, hE⟩ := hes
  cases heq
  constructor
  · intro e he
    simp at he
  · intro entry hentry
    exact hE entry (by simpa using hentry)

/-- An operation of a listing gets its answer, and changes no object. -/
theorem Host.Lists.exec (hlists : h.Lists I E path names) {a : ObjId} {objs : ObjId → UnpfsFid}
    (hpath : (objs a).realpath = path) (o : UnpfsOp) (w : Host.Objs h.State)
    (hw : w.objs = objs ∧ I w.host) (ho : Host.ListOps E a path o) :
    Host.ListAnswers E path names o (h.objsExec o w).1 ∧
      (h.objsExec o w).2.objs = objs ∧ I (h.objsExec o w).2.host := by
  obtain ⟨hobjs, hI⟩ := hw
  cases o with
  | realpathRead obj =>
    change obj = a at ho
    subst ho
    refine ⟨?_, hobjs, hI⟩
    change (w.objs obj).realpath = path
    rw [hobjs, hpath]
  | realpathUnread obj => exact ⟨True.intro, hobjs, hI⟩
  | host o =>
    cases o with
    | symlinkMetadata p =>
      have hstate : (h.exec (.symlinkMetadata p) w.host).2 = w.host := h.lstat_state p w.host
      refine ⟨hlists.dots w.host hI p ho, hobjs, ?_⟩
      change I (h.exec (.symlinkMetadata p) w.host).2
      rw [hstate]
      exact hI
    | readDir p =>
      change p = path at ho
      subst ho
      obtain ⟨hnext, hentries⟩ := hlists.readDir w.host hI
      exact ⟨hentries, hobjs, hnext⟩
    | entryMetadata e =>
      obtain ⟨hnext, hattr⟩ := hlists.entry w.host e hI ho
      exact ⟨hattr, hobjs, hnext⟩
    | _ => exact absurd ho id
  | _ => exact absurd ho id

/-- Every `Treaddir` for a directory without bad entries is answered, and changes nothing. -/
theorem Host.Lists.treaddir (hlists : h.Lists I E path names) (realroot : PathBuf)
    (tag : UInt16) (off : UInt64) (count : UInt32) (hb : s.fids.get fid = some b)
    (hpath : (s.world.objs b.aux).realpath = path) (hI : I s.world.host) :
    ∃ d t, dispatchOnce (Unpfs realroot) h.backend ⟨tag, .treaddir fid off count⟩ s =
        (.ok (.rreaddir d), t) ∧
      t.fids = s.fids ∧ t.world.objs = s.world.objs ∧ I t.world.host ∧
      ∃ (entries : List HostDirEntry) (dots : List DirEntry) (page : List HostDirEntry)
        (shown : List DirEntry), entries.map HostDirEntry.fileName = names ∧
        Listed (Host.ListAnswers E path names) off count (entries.map .ok) dots page shown d := by
  have hhandler : Achieves (Host.ListOps E b.aux path) (Host.ListAnswers E path names) False _
      (Unpfs.rreaddir b off count) :=
    achieves_rreaddir rfl rfl (fun _ hp => hp) (fun _ _ _ he => nomatch he) fun p hp => by
      change p = path at hp
      subst hp
      refine ⟨rfl, fun _ he => (nomatch he), fun es hes => ?_⟩
      obtain ⟨herror, hentry⟩ := Host.ListAnswers.entries hes
      exact ⟨herror, fun entry h => ⟨hentry entry h, fun _ he => (nomatch he)⟩⟩
  have hmsg : (⟨tag, .treaddir fid off count⟩ : Msg).body = .treaddir fid off count := rfl
  obtain ⟨r, t, hrun, hok, hfail, hfids, hobjs, hhost⟩ :=
    dispatchOnce_treaddir realroot hmsg hb hhandler (hlists.exec hpath) ⟨rfl, hI⟩
  cases r with
  | error e => exact (hfail e rfl).elim
  | ok reply =>
    obtain ⟨d, p, es, dots, page, shown, rfl, -, ⟨entries, hes, hnames, -⟩, hlisted⟩ :=
      hok reply rfl
    cases hes
    exact ⟨d, t, hrun, hfids, hobjs, hhost, entries, dots, page, shown, hnames, hlisted⟩

end
end

/-! The whole directory. -/

/-- The cookie after which the entries from the `k`-th one on follow. -/
theorem skipped_cookie {k : ℕ} (hk : 1 + k < 2 ^ 64) :
    UInt64.ofNat (1 + k) ≠ 0 ∧ skipped (UInt64.ofNat (1 + k)) = k := by
  have hval : (UInt64.ofNat (1 + k)).toNat = 1 + k := by
    rw [UInt64.toNat_ofNat']
    exact Nat.mod_eq_of_lt hk
  have hne : UInt64.ofNat (1 + k) ≠ 0 := by
    intro h
    rw [h, UInt64.toNat_zero] at hval
    omega
  refine ⟨hne, ?_⟩
  have hone : 1 ≤ UInt64.ofNat (1 + k) := by
    rw [UInt64.le_iff_toNat_le, hval]
    exact Nat.le_add_right 1 k
  rw [skipped, if_neg hne, UInt64.toNat_sub_of_le _ _ hone, hval]
  exact Nat.add_sub_cancel_left 1 k

/-- The names of a listing. -/
def listedNames (names : List (List UInt8)) : List String := names.map fromUtf8Lossy

section
variable {C : (o : UnpfsOp) → UnpfsRes o → Prop} {names : List (List UInt8)}
  {entries : List HostDirEntry} {off : UInt64} {count : UInt32} {dots : List DirEntry}
  {page : List HostDirEntry} {shown : List DirEntry} {d : DirEntryData}

/-- A reply has the names from its offset on. -/
theorem Listed.map_name (h : Listed C off count (entries.map .ok) dots page shown d)
    (hnames : entries.map HostDirEntry.fileName = names) :
    d.data.map DirEntry.name = (if off = 0 then [".", ".."] else []) ++
      ((listedNames names).drop (skipped off)).take page.length := by
  have hcut := h.cut
  rw [← List.map_drop] at hcut
  have hpage : page.map (fun e => fromUtf8Lossy e.fileName) =
      ((listedNames names).drop (skipped off)).take page.length := by
    have hall : listedNames names = entries.map (fun e => fromUtf8Lossy e.fileName) := by
      rw [listedNames, ← hnames, List.map_map]
      rfl
    rw [hall, ← List.map_drop, ← List.map_take, ← hcut.take]
  rw [h.data, List.map_append, h.starts.names, h.shows.names, hpage]

/-- The cookie of the last entry of a reply. -/
theorem Listed.last (h : Listed C off count (entries.map .ok) dots page shown d)
    {last : DirEntry} (hlast : d.data.getLast? = some last) :
    last.offset = UInt64.ofNat (1 + (skipped off + page.length)) := by
  rw [h.data] at hlast
  have hlen := h.shows.length
  cases hshown : shown.getLast? with
  | some x =>
    rw [List.getLast?_append, hshown] at hlast
    cases hlast
    rw [h.shows.getLast hshown, hlen]
  | none =>
    have hnil : shown = [] := List.getLast?_eq_none_iff.mp hshown
    have hpage : page.length = 0 := by rw [← hlen, hnil, List.length_nil]
    rw [hnil, List.append_nil] at hlast
    have hstarts := h.starts
    unfold Dots at hstarts
    split_ifs at hstarts with hoff
    · obtain ⟨self, up, -, -, rfl⟩ := hstarts
      cases hlast
      rw [hpage, skipped, if_pos hoff]
      rfl
    · rw [hstarts] at hlast
      cases hlast

theorem Listed.page_le (h : Listed C off count (entries.map .ok) dots page shown d)
    (hskip : skipped off ≤ entries.length) : skipped off + page.length ≤ entries.length := by
  have hcut := h.cut
  rw [← List.map_drop] at hcut
  have hle := hcut.length_le
  rw [List.length_drop] at hle
  omega

theorem Listed.page_pos (h : Listed C off count (entries.map .ok) dots page shown d)
    (hoff : off ≠ 0) (hdata : d.data ≠ []) : 0 < page.length := by
  have hlength := h.length
  have hpos := List.length_pos_of_ne_nil hdata
  rw [dotsNum, if_neg hoff] at hlength
  omega

/-- When a page is empty, though there is room for any entry, there are no entries left. -/
theorem Listed.ends (h : Listed C off count (entries.map .ok) dots page shown d) (hoff : off ≠ 0)
    (hfits : ∀ e ∈ entries, e.len ≤ count.toNat) (hdata : d.data = []) :
    entries.length ≤ skipped off := by
  have hpage : page = [] := by
    have hlength := h.length
    rw [hdata, List.length_nil] at hlength
    exact List.eq_nil_of_length_eq_zero (by omega)
  have hcut := h.cut
  rw [dotsLen, if_neg hoff, ← List.map_drop] at hcut
  have hend : entries.drop (skipped off) = [] := by
    by_contra hmore
    exact hcut.ne_nil hmore (fun e he => hfits e (List.mem_of_mem_drop he)) hpage
  exact List.drop_eq_nil_iff.mp hend

end

section
variable {h : Host} {I : h.State → Prop} {E : HostDirEntry → Prop} {path : PathBuf}
  {names : List (List UInt8)} {realroot : PathBuf} {fid : UInt32} {b : Fid}

/-- From the `k`-th entry on, every request gets on until one has an empty reply. -/
theorem readDirectory_from (hlists : h.Lists I E path names) (hnames : names.length < 2 ^ 63)
    (realroot : PathBuf) {requests : List (UInt16 × UInt32)}
    (hfits : ∀ request ∈ requests, ∀ name ∈ listedNames names,
      direntLen name ≤ request.2.toNat) {k : ℕ} (hk : k ≤ names.length)
    (henough : names.length < k + requests.length) {s : Server (Host.Objs h.State)}
    (hb : s.fids.get fid = some b) (hpath : (s.world.objs b.aux).realpath = path)
    (hI : I s.world.host) :
    ∃ entries t, readDirectory realroot h fid requests (UInt64.ofNat (1 + k)) s =
        some (entries, t) ∧ entries.map DirEntry.name = (listedNames names).drop k := by
  induction requests generalizing k s with
  | nil =>
    rw [List.length_nil] at henough
    omega
  | cons request requests ih =>
    obtain ⟨tag, count⟩ := request
    obtain ⟨hne, hskip⟩ := skipped_cookie (k := k) (by omega)
    obtain ⟨d, t, hrun, hfids, hobjs, hhost, es, dots, page, shown, hes, hlisted⟩ :=
      hlists.treaddir realroot tag (UInt64.ofNat (1 + k)) count hb hpath hI
    have hlen : es.length = names.length := by rw [← hes, List.length_map]
    have hd := hlisted.map_name hes
    rw [if_neg hne, List.nil_append, hskip] at hd
    rw [readDirectory, hrun]
    dsimp only
    cases hlast : d.data.getLast? with
    | none =>
      have hroom : ∀ e ∈ es, e.len ≤ count.toNat := by
        intro e he
        apply hfits (tag, count) (by simp)
        rw [listedNames, ← hes, List.map_map]
        exact List.mem_map_of_mem he
      have hover := hlisted.ends hne hroom (List.getLast?_eq_none_iff.mp hlast)
      rw [hskip, hlen] at hover
      refine ⟨[], t, rfl, ?_⟩
      rw [List.drop_eq_nil_of_le (by rw [listedNames, List.length_map]; exact hover)]
      rfl
    | some last =>
      dsimp only
      have hoffset := hlisted.last hlast
      rw [hskip] at hoffset
      have hpos : 0 < page.length := by
        apply hlisted.page_pos hne
        intro hnil
        rw [hnil] at hlast
        cases hlast
      have hbound := hlisted.page_le (by rw [hskip, hlen]; exact hk)
      rw [hskip, hlen] at hbound
      rw [List.length_cons] at henough
      obtain ⟨entries, u, hrest, hentries⟩ := ih
        (fun request hr => hfits request (by simp [hr])) hbound (by omega)
        (s := t) (by rw [hfids]; exact hb) (by rw [hobjs]; exact hpath) hhost
      rw [hoffset, hrest]
      refine ⟨d.data ++ entries, u, rfl, ?_⟩
      rw [List.map_append, hd, hentries, ← List.drop_drop, List.take_append_drop]

/-- The bytes of the whole listing. -/
def listingLen (names : List (List UInt8)) : ℕ :=
  direntLen "." + direntLen ".." + ((listedNames names).map direntLen).sum

theorem length_le_listingLen (names : List (List UInt8)) : names.length ≤ listingLen names := by
  have hsum : ∀ ns : List String, ns.length ≤ (ns.map direntLen).sum := by
    intro ns
    induction ns with
    | nil => exact le_rfl
    | cons n ns ih =>
      have hpos : 24 ≤ direntLen n := Nat.le_add_right 24 _
      rw [List.length_cons, List.map_cons, List.sum_cons]
      omega
  have hnames := hsum (listedNames names)
  rw [listedNames, List.length_map] at hnames
  unfold listingLen
  rw [listedNames]
  omega

/-- A client that has room for the longest name in every request reads a directory with `n`
entries in at most `n + 2` requests, and each entry once and in the order of the directory. -/
theorem readDirectory_complete (hlists : h.Lists I E path names)
    (hlen : listingLen names < 2 ^ 32) {s : Server (Host.Objs h.State)}
    (hb : s.fids.get fid = some b) (hpath : (s.world.objs b.aux).realpath = path)
    (hI : I s.world.host) (requests : List (UInt16 × UInt32))
    (hfits : ∀ request ∈ requests, ∀ name ∈ listedNames names,
      direntLen name ≤ request.2.toNat) (henough : requests.length = names.length + 2) :
    ∃ entries t, readDirectory realroot h fid requests 0 s = some (entries, t) ∧
      entries.map DirEntry.name = "." :: ".." :: listedNames names := by
  have hnames := length_le_listingLen names
  cases requests with
  | nil => cases henough
  | cons request requests =>
    obtain ⟨tag, count⟩ := request
    obtain ⟨d, t, hrun, hfids, hobjs, hhost, es, dots, page, shown, hes, hlisted⟩ :=
      hlists.treaddir realroot tag 0 count hb hpath hI
    have hd := hlisted.map_name hes
    have hskip : skipped 0 = 0 := rfl
    rw [hskip, List.drop_zero, if_pos rfl] at hd
    have hcount : es.length = names.length := by rw [← hes, List.length_map]
    have hbound := hlisted.page_le (Nat.zero_le _)
    rw [hskip, Nat.zero_add, hcount] at hbound
    rw [readDirectory, hrun]
    dsimp only
    cases hlast : d.data.getLast? with
    | none =>
      rw [List.getLast?_eq_none_iff.mp hlast] at hd
      cases hd
    | some last =>
      have hoffset := hlisted.last hlast
      rw [hskip, Nat.zero_add] at hoffset
      rw [List.length_cons] at henough
      have hrests : ∀ request ∈ requests, ∀ name ∈ listedNames names,
          direntLen name ≤ request.2.toNat :=
        fun request hr => hfits request (List.mem_cons_of_mem _ hr)
      obtain ⟨entries, u, hrest, hentries⟩ := readDirectory_from hlists (by omega) realroot hrests
        hbound (by omega) (s := t) (by rw [hfids]; exact hb) (by rw [hobjs]; exact hpath) hhost
      dsimp only
      rw [hoffset, hrest]
      refine ⟨d.data ++ entries, u, rfl, ?_⟩
      rw [List.map_append, hd, hentries]
      simp [List.take_append_drop]

end

/-- A host that always gives the same answers. -/
def constHost (answer : (o : HostOp) → HostRes o) : Host where
  State := Unit
  exec o s := (answer o, s)
  lstat_state _ _ := rfl

theorem lists_listingHost (path : PathBuf) (names : List (List UInt8)) :
    (constHost (listingHost names)).Lists (fun _ => True) (fun _ => True) path names where
  dots _ _ _ _ := ⟨_, rfl⟩
  readDir _ _ := by
    refine ⟨True.intro, names.map (fun name => ⟨0, name⟩), ?_, ?_, fun _ _ => True.intro⟩
    · rw [List.map_map]
      rfl
    · rw [List.map_map]
      exact List.map_id names
  entry _ _ _ _ := ⟨True.intro, _, rfl⟩

/-- The files `a` and `b`, with room for one of them in a reply. -/
theorem readDirectory_complete_twoFiles :
    ∃ entries t, readDirectory (.ofString "/") (constHost (listingHost [[0x61], [0x62]])) 1
        [(7, 25), (7, 25), (7, 25), (7, 25)] 0 (rootServer []) = some (entries, t) ∧
      entries.map DirEntry.name = "." :: ".." :: listedNames [[0x61], [0x62]] := by
  have hfits : ∀ name ∈ listedNames [[0x61], [0x62]], direntLen name ≤ 25 := by decide
  apply readDirectory_complete (b := ⟨1, 0⟩)
    (lists_listingHost (.ofString "/") [[0x61], [0x62]]) (by decide) rfl rfl True.intro
  · intro request hrequest
    have heq : request = (7, 25) := by simpa using hrequest
    rw [heq]
    exact hfits
  · rfl

end P9cpu.Ninep
