import P9cpu.Cpu.Namespace
import Mathlib.Data.List.TakeWhile

/-! What a namespace means: the pairs that it lists, and where their sources are looked up. -/
namespace P9cpu.Cpu

/-- The target and the source of a part: what comes before its first `=` and what comes after,
or the target once more. -/
def readPart (part : String) : String × String :=
  let target := part.toList.takeWhile (· ≠ '=')
  match part.toList.dropWhile (· ≠ '=') with
  | [] => (String.ofList target, String.ofList target)
  | _ :: source => (String.ofList target, String.ofList source)

/-- The pairs of the parts with at most one `=`. -/
def pairs (nmspace : String) : List (String × String) :=
  ((split nmspace ':').filter (fun part => part.toList.count '=' ≤ 1)).map readPart

/-- The first pair for each target. -/
def bindings (nmspace : String) : List (String × String) :=
  (pairs nmspace).eraseDupsBy (fun later earlier => later.1 == earlier.1)

/-- A namespace with these pairs. -/
def render (ps : List (String × String)) : String :=
  String.intercalate ":" (ps.map (fun p => p.1 ++ "=" ++ p.2))

/-! One part. -/

theorem splitOn_target {l : List Char} (h : l.dropWhile (· ≠ '=') = []) :
    l.splitOn '=' = [l] ∧ l.count '=' = 0 := by
  have hnot : '=' ∉ l := by
    intro hmem
    have hne := List.dropWhile_eq_nil_iff.mp h '=' hmem
    simp at hne
  exact ⟨List.splitOn_eq_singleton hnot, List.count_eq_zero.mpr hnot⟩

/-- The list before and after its first `=`. -/
theorem splitOn_source {l source : List Char} {c : Char}
    (h : l.dropWhile (· ≠ '=') = c :: source) :
    l.splitOn '=' = l.takeWhile (· ≠ '=') :: source.splitOn '=' ∧
      l.count '=' = source.count '=' + 1 := by
  have hc : c = '=' := by
    have hhead := List.head?_dropWhile_not (fun x : Char => decide (x ≠ '=')) l
    rw [h] at hhead
    simpa using hhead
  subst hc
  have hl : l.takeWhile (· ≠ '=') ++ '=' :: source = l := by
    rw [← h, List.takeWhile_append_dropWhile]
  have hnot : '=' ∉ l.takeWhile (· ≠ '=') := by
    intro hmem
    have hne := List.mem_takeWhile_imp hmem
    simp at hne
  constructor
  · conv_lhs => rw [← hl]
    exact List.splitOn_append_cons_self_of_not_mem hnot source
  · conv_lhs => rw [← hl]
    rw [List.count_append, List.count_eq_zero.mpr hnot, List.count_cons_self, Nat.zero_add]

/-- A part is invalid when it has a second `=`. -/
theorem parsePart_eq (part : String) :
    parsePart part = if part.toList.count '=' ≤ 1 then some (readPart part) else none := by
  unfold parsePart readPart split
  cases hdrop : part.toList.dropWhile (· ≠ '=') with
  | nil =>
    obtain ⟨hsplit, hcount⟩ := splitOn_target hdrop
    have htake : part.toList.takeWhile (· ≠ '=') = part.toList := by
      have happend := List.takeWhile_append_dropWhile (p := (· ≠ '=')) (l := part.toList)
      rwa [hdrop, List.append_nil] at happend
    rw [htake, hsplit, hcount]
    simp
  | cons c source =>
    obtain ⟨hsplit, hcount⟩ := splitOn_source hdrop
    rw [hsplit, hcount]
    cases hmore : source.dropWhile (· ≠ '=') with
    | nil =>
      obtain ⟨hone, hzero⟩ := splitOn_target hmore
      rw [hone, hzero]
      simp
    | cons c' more =>
      obtain ⟨hmany, hpos⟩ := splitOn_source hmore
      obtain ⟨last, parts, hparts⟩ := List.exists_cons_of_ne_nil (List.splitOn_ne_nil '=' more)
      rw [hmany, hpos, hparts, if_neg (by omega)]
      rfl

/-! The loop. -/

theorem filterMap_parsePart (parts : List String) :
    parts.filterMap parsePart =
      (parts.filter (fun part => part.toList.count '=' ≤ 1)).map readPart := by
  induction parts with
  | nil => rfl
  | cons part parts ih =>
    rw [List.filterMap_cons, parsePart_eq, List.filter_cons]
    by_cases hvalid : part.toList.count '=' ≤ 1
    · simp [hvalid, ih]
    · simp [hvalid, ih]

/-- The set of targets takes out the pairs whose target has come before. -/
theorem bindEntries_eq (tmpMnt : String) (targets parts : List String) :
    bindEntries tmpMnt targets parts =
      (((parts.filterMap parsePart).filter (fun p => p.1 ∉ targets)).eraseDupsBy
        (fun later earlier => later.1 == earlier.1)).map
          (fun p => bindEntry tmpMnt p.1 p.2) := by
  induction parts generalizing targets with
  | nil => rfl
  | cons part parts ih =>
    rw [bindEntries, List.filterMap_cons]
    cases hpart : parsePart part with
    | none => exact ih targets
    | some p =>
      obtain ⟨target, source⟩ := p
      dsimp only
      by_cases hmem : target ∈ targets
      · rw [if_pos hmem, ih targets, List.filter_cons_of_neg (by simpa using hmem)]
      · rw [if_neg hmem, ih (target :: targets), List.filter_cons_of_pos (by simpa using hmem),
          List.eraseDupsBy_cons, List.map_cons, List.filter_filter]
        congr 3
        refine List.filter_congr fun p _ => ?_
        by_cases heq : p.1 = target
        · simp [heq]
        · simp [heq]

theorem bindEntries_nil (tmpMnt nmspace : String) :
    bindEntries tmpMnt [] (split nmspace ':') =
      (bindings nmspace).map (fun p => bindEntry tmpMnt p.1 p.2) := by
  rw [bindEntries_eq, filterMap_parsePart]
  simp [bindings, pairs]

/-- `parse_namespace` by the pairs that the namespace lists. -/
theorem parseNamespace_eq (nmspace tmpMnt : String) :
    parseNamespace nmspace tmpMnt =
      if nmspace = "" ∨ bindings nmspace = [] then []
      else ninepEntry tmpMnt :: (bindings nmspace).map (fun p => bindEntry tmpMnt p.1 p.2) := by
  unfold parseNamespace
  rw [bindEntries_nil]
  by_cases hempty : nmspace = ""
  · simp [hempty]
  · by_cases hnone : bindings nmspace = []
    · simp [hnone]
    · simp [hempty, hnone]

/-! From pairs to a namespace and back. -/

section
variable {ps : List (String × String)}

/-- The target and the source of a pair do not have the separators of a namespace. -/
def Plain (p : String × String) : Prop :=
  ∀ c ∈ p.1.toList ++ p.2.toList, c ≠ ':' ∧ c ≠ '='

theorem toList_rendered (p : String × String) :
    (p.1 ++ "=" ++ p.2).toList = p.1.toList ++ '=' :: p.2.toList := by
  rw [String.toList_append, String.toList_append, List.append_assoc]
  rfl

theorem readPart_rendered {p : String × String} (h : Plain p) :
    (p.1 ++ "=" ++ p.2).toList.count '=' ≤ 1 ∧ readPart (p.1 ++ "=" ++ p.2) = p := by
  have htarget : ∀ c ∈ p.1.toList, c ≠ '=' := fun c hc => (h c (by simp [hc])).2
  have hsource : '=' ∉ p.2.toList := fun hc => (h '=' (by simp [hc])).2 rfl
  have hnot : '=' ∉ p.1.toList := fun hc => htarget '=' hc rfl
  have htake : (p.1.toList ++ '=' :: p.2.toList).takeWhile (· ≠ '=') = p.1.toList := by
    rw [List.takeWhile_append_of_pos (by simpa using htarget)]
    simp
  have hdrop : (p.1.toList ++ '=' :: p.2.toList).dropWhile (· ≠ '=') = '=' :: p.2.toList := by
    rw [List.dropWhile_append_of_pos (by simpa using htarget)]
    simp
  constructor
  · rw [toList_rendered, List.count_append, List.count_cons_self, List.count_eq_zero.mpr hnot,
      List.count_eq_zero.mpr hsource]
  · unfold readPart
    rw [toList_rendered, htake, hdrop]
    simp

theorem split_render (hne : ps ≠ []) (h : ∀ p ∈ ps, Plain p) :
    split (render ps) ':' = ps.map (fun p => p.1 ++ "=" ++ p.2) := by
  have hclean : ∀ l ∈ ps.map (fun p => (p.1 ++ "=" ++ p.2).toList), ':' ∉ l := by
    intro l hl hmem
    obtain ⟨p, hp, rfl⟩ := List.mem_map.mp hl
    rw [toList_rendered, List.mem_append, List.mem_cons] at hmem
    rcases hmem with hmem | hmem | hmem
    · exact (h p hp ':' (by simp [hmem])).1 rfl
    · cases hmem
    · exact (h p hp ':' (by simp [hmem])).1 rfl
  unfold split render
  rw [String.toList_intercalate, List.map_map]
  have hsplit := List.splitOn_intercalate ':' hclean (by simpa using hne)
  change ((List.intercalate [':'] (ps.map (fun p => (p.1 ++ "=" ++ p.2).toList))).splitOn ':').map
    String.ofList = _
  rw [hsplit, List.map_map]
  exact List.map_congr_left fun p _ => String.ofList_toList

theorem bindings_render (hne : ps ≠ []) (hnodup : (ps.map Prod.fst).Nodup)
    (h : ∀ p ∈ ps, Plain p) : bindings (render ps) = ps := by
  have hpairs : pairs (render ps) = ps := by
    unfold pairs
    rw [split_render hne h, List.filter_eq_self.mpr, List.map_map]
    · refine (List.map_congr_left fun p hp => ?_).trans (List.map_id ps)
      exact (readPart_rendered (h p hp)).2
    · intro part hpart
      obtain ⟨p, hp, rfl⟩ := List.mem_map.mp hpart
      exact decide_eq_true (readPart_rendered (h p hp)).1
  unfold bindings
  rw [hpairs]
  clear hne h hpairs
  induction ps with
  | nil => rfl
  | cons p ps ih =>
    rw [List.map_cons, List.nodup_cons] at hnodup
    have hkept : ps.filter (fun later => (later.1 == p.1) = false) = ps := by
      refine List.filter_eq_self.mpr fun later hlater => ?_
      have hne : later.1 ≠ p.1 := fun heq => hnodup.1 (heq ▸ List.mem_map_of_mem hlater)
      simpa using hne
    rw [List.eraseDupsBy_cons, hkept, ih hnodup.2]

theorem render_ne_empty (hne : ps ≠ []) (h : ∀ p ∈ ps, Plain p) : render ps ≠ "" := by
  intro hempty
  have hsplit := split_render hne h
  rw [hempty] at hsplit
  have hmem : "" ∈ ps.map (fun p => p.1 ++ "=" ++ p.2) := by
    rw [← hsplit]
    exact List.mem_singleton.mpr rfl
  obtain ⟨p, -, hp⟩ := List.mem_map.mp hmem
  have hlist := congrArg String.toList hp
  rw [toList_rendered] at hlist
  simp at hlist

end

/-- `parse_namespace` returns the entry of the 9p file system and one bind for each target, from
its first pair, or nothing where there is no pair. Pairs that were rendered are read back. -/
theorem parseNamespace_spec (nmspace tmpMnt : String) :
    parseNamespace nmspace tmpMnt =
      (if nmspace = "" ∨ bindings nmspace = [] then []
       else ninepEntry tmpMnt :: (bindings nmspace).map (fun p => bindEntry tmpMnt p.1 p.2)) ∧
    ∀ ps : List (String × String), ps ≠ [] → (ps.map Prod.fst).Nodup → (∀ p ∈ ps, Plain p) →
      parseNamespace (render ps) tmpMnt =
        ninepEntry tmpMnt :: ps.map (fun p => bindEntry tmpMnt p.1 p.2) := by
  refine ⟨parseNamespace_eq nmspace tmpMnt, fun ps hne hnodup hplain => ?_⟩
  have hread : bindings (render ps) = ps := bindings_render hne hnodup hplain
  have hsome : ¬ (render ps = "" ∨ bindings (render ps) = []) := by
    rw [hread, not_or]
    exact ⟨render_ne_empty hne hplain, hne⟩
  rw [parseNamespace_eq, if_neg hsome, hread]

/-- Two pairs, one of them with an empty source. -/
theorem parseNamespace_spec_twoPairs :
    parseNamespace (render [("/lib", "/usr/lib"), ("/bin", "")]) "/tmp" =
      ninepEntry "/tmp" :: [("/lib", "/usr/lib"), ("/bin", "")].map
        (fun p => bindEntry "/tmp" p.1 p.2) := by
  refine (parseNamespace_spec "" "/tmp").2 _ (by simp) (by decide) ?_
  simp only [Plain, ← List.forall_iff_forall_mem]
  decide

/-! Where the sources are. -/

/-- The source of a mount is the mount point of the 9p file system or a path below it. -/
def FsTab.Inside (tmpMnt : String) (tab : FsTab) : Prop :=
  tab.spec = ninepMount tmpMnt ∨ ∃ rest, tab.spec = ninepMount tmpMnt ++ "/" ++ rest

/-- Nothing stands between the mount point and the source of a bind. -/
theorem inside_bindEntry (tmpMnt target source : String) :
    (bindEntry tmpMnt target source).Inside tmpMnt ↔
      source = "" ∨ source.toList.head? = some '/' := by
  have hspec : (bindEntry tmpMnt target source).spec = ninepMount tmpMnt ++ source := rfl
  unfold FsTab.Inside
  rw [hspec]
  constructor
  · rintro (hsame | ⟨rest, hbelow⟩)
    · left
      have hlist := congrArg String.toList hsame
      rw [String.toList_append, List.append_right_eq_self] at hlist
      exact String.toList_eq_nil_iff.mp hlist
    · right
      have hlist := congrArg String.toList hbelow
      rw [String.append_assoc, String.toList_append, String.toList_append,
        List.append_cancel_left_eq, String.toList_append] at hlist
      rw [hlist]
      rfl
  · rintro (rfl | hhead)
    · left
      exact String.append_empty
    · right
      obtain ⟨rest, hrest⟩ := List.head?_eq_some_iff.mp hhead
      refine ⟨String.ofList rest, ?_⟩
      have hsource : source = "/" ++ String.ofList rest := by
        rw [← String.toList_inj, String.toList_append, hrest]
        simp
      rw [hsource, String.append_assoc]

/-- The binds of a namespace come from below the mount point exactly when every source that is
used is empty or starts with a slash. -/
theorem binds_inside_iff (nmspace tmpMnt : String) :
    (∀ tab ∈ parseNamespace nmspace tmpMnt, tab.mntops = "defaults,bind" → tab.Inside tmpMnt) ↔
      ∀ p ∈ bindings nmspace, p.2 = "" ∨ p.2.toList.head? = some '/' := by
  have hbinds : (∀ p ∈ bindings nmspace, (bindEntry tmpMnt p.1 p.2).Inside tmpMnt) ↔
      ∀ p ∈ bindings nmspace, p.2 = "" ∨ p.2.toList.head? = some '/' :=
    forall₂_congr fun p _ => inside_bindEntry tmpMnt p.1 p.2
  rw [← hbinds, parseNamespace_eq]
  split_ifs with hnone
  · refine iff_of_true (by simp) fun p hp => ?_
    rcases hnone with rfl | hnil
    · have hpair : p = ("", "") := List.mem_singleton.mp hp
      rw [hpair, inside_bindEntry]
      exact .inl rfl
    · rw [hnil] at hp
      cases hp
  · constructor
    · intro h p hp
      exact h _ (List.mem_cons_of_mem _ (List.mem_map_of_mem hp)) rfl
    · intro h tab htab hbind
      rcases List.mem_cons.mp htab with rfl | hmem
      · have hnone : (ninepEntry tmpMnt).mntops = "" := rfl
        rw [hnone] at hbind
        exact absurd hbind (by decide)
      · obtain ⟨p, hp, rfl⟩ := List.mem_map.mp hmem
        exact h p hp

/-- The source `lib` is looked up in `/tmp/mnt9plib`. -/
theorem not_binds_inside : ¬ ∀ nmspace tmpMnt : String,
    ∀ tab ∈ parseNamespace nmspace tmpMnt, tab.mntops = "defaults,bind" → tab.Inside tmpMnt := by
  intro h
  have htab : bindEntry "/tmp" "lib" "lib" ∈ parseNamespace "lib" "/tmp" := by decide
  have hinside := (inside_bindEntry "/tmp" "lib" "lib").mp (h "lib" "/tmp" _ htab rfl)
  revert hinside
  decide

end P9cpu.Cpu
