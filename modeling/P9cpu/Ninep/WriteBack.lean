import P9cpu.Ninep.Files

/-! Whether the bytes of a write are seen by the reads that come after it. -/
namespace P9cpu.Ninep
open Core

/-! Bytes of files. -/

section
variable {e : Extent} {content : List UInt8} {x : ℕ} {b : UInt8}

theorem get_lt {e : Extent} (h : e.get x = some b) :
    e.offset ≤ x ∧ x < e.offset + e.bytes.length := by
  unfold Extent.get at h
  split_ifs at h with hle
  have hlt := (List.getElem?_eq_some_iff.mp h).1
  omega

theorem get_ne_none {e : Extent} :
    e.get x ≠ none ↔ e.offset ≤ x ∧ x < e.offset + e.bytes.length := by
  constructor
  · intro h
    obtain ⟨b, hb⟩ := Option.ne_none_iff_exists'.mp h
    exact get_lt hb
  · rintro ⟨hle, hlt⟩
    unfold Extent.get
    rw [if_pos hle, Ne, List.getElem?_eq_none_iff]
    omega

/-- What is written is there. -/
theorem writeTo_get (h : e.get x = some b) : (e.writeTo content)[x]? = some b := by
  obtain ⟨hle, hlt⟩ := get_lt h
  have hne : e.bytes ≠ [] := by
    intro hnil
    simp only [hnil, List.length_nil] at hlt
    omega
  have hlen : (content.take e.offset ++ List.replicate (e.offset - content.length) 0).length =
      e.offset := by
    simp only [List.length_append, List.length_take, List.length_replicate]
    omega
  unfold Extent.writeTo
  rw [if_neg hne, List.getElem?_append_left, List.getElem?_append_right, hlen]
  · unfold Extent.get at h
    rwa [if_pos hle] at h
  · omega
  · rw [List.length_append, hlen]
    omega

/-- What is not written stays. -/
theorem writeTo_of_get_none (h : e.get x = none) (hb : content[x]? = some b) :
    (e.writeTo content)[x]? = some b := by
  have hx := (List.getElem?_eq_some_iff.mp hb).1
  unfold Extent.writeTo
  split_ifs with hnil
  · exact hb
  · have hout : ¬ (e.offset ≤ x ∧ x < e.offset + e.bytes.length) := by
      rw [← get_ne_none, not_not]
      exact h
    by_cases hlt : x < e.offset
    · have htake : (content.take e.offset)[x]? = some b := by
        rw [List.getElem?_take_of_lt hlt, hb]
      have hx' := (List.getElem?_eq_some_iff.mp htake).1
      rw [List.append_assoc, List.append_assoc, List.getElem?_append_left hx', htake]
    · have hlen : (content.take e.offset ++ List.replicate (e.offset - content.length) 0 ++
          e.bytes).length = e.offset + e.bytes.length := by
        simp only [List.length_append, List.length_take, List.length_replicate]
        omega
      rw [List.getElem?_append_right (by omega), hlen, List.getElem?_drop]
      rw [← hb]
      congr 1
      omega

theorem setLen_of_lt {size : ℕ} (hx : x < size) (hb : content[x]? = some b) :
    (setLen content size)[x]? = some b := by
  have htake : (content.take size)[x]? = some b := by
    rw [List.getElem?_take_of_lt hx, hb]
  have hx' := (List.getElem?_eq_some_iff.mp htake).1
  unfold setLen
  rw [List.getElem?_append_left hx', htake]

end

section
variable {σ : Type} {s t : Files σ} {f g : FileId} {n x i cap : ℕ} {e : Extent} {b : UInt8}

theorem mem_underway {node : ℕ} : e ∈ s.underway f node ↔
    ∃ (g : FileId) (file : OpenFile), g ≠ f ∧ s.files[g]? = some file ∧ file.node = node ∧
      file.pending = some e := by
  unfold Files.underway
  simp only [List.mem_filterMap, List.mem_filter, List.mem_eraseIdx_iff_getElem?,
    decide_eq_true_eq]
  constructor
  · rintro ⟨file, ⟨⟨g, hg, hfile⟩, hnode⟩, hpending⟩
    exact ⟨g, file, hg, hfile, hnode, hpending⟩
  · rintro ⟨g, file, hg, hfile, hnode, hpending⟩
    exact ⟨file, ⟨⟨g, hg, hfile⟩, hnode⟩, hpending⟩

/-- Every step of the host, as far as open files go. -/
inductive FileStep (cap i : ℕ) (s : Files σ) : Option Access → Files σ → Prop
  | other (names : σ) : FileStep cap i s none { s with names := names }
  | opened (names : σ) (node : ℕ) : FileStep cap i s none ({ s with names := names }.add node)
  | emptied (names : σ) (node : ℕ) : FileStep cap i s (some (.truncate i node 0))
      (({ s with names := names }.setContent node []).add node)
  | resized (node size : ℕ) : FileStep cap i s (some (.truncate i node size))
      (s.setContent node (setLen (s.content node) size))
  | sought (f : FileId) (node pos offset : ℕ) (h : s.files[f]? = some ⟨node, pos, none⟩) :
      FileStep cap i s none (s.setFile f ⟨node, offset, none⟩)
  | read (f : FileId) (node pos count : ℕ) (bytes : List UInt8)
      (h : s.files[f]? = some ⟨node, pos, none⟩)
      (hbytes : bytes = ((s.content node).drop pos).take (min count cap)) :
      FileStep cap i s (some (.read i f node count ⟨pos, bytes⟩ (s.underway f node)))
        (s.setFile f ⟨node, pos + bytes.length, none⟩)
  | wrote (f : FileId) (node pos n : ℕ) (e : Extent) (h : s.files[f]? = some ⟨node, pos, none⟩) :
      FileStep cap i s (some (.write i f node e (s.underway f node)))
        (s.setFile f ⟨node, n, some e⟩)

theorem access_read {file : OpenFile} (h : s.files[f]? = some file) (count : ℕ)
    (bytes : { bytes : List UInt8 // bytes.length ≤ count }) :
    Files.access i s t (.read f count) (.ok bytes) =
      some (.read i f file.node count ⟨file.pos, bytes.val⟩ (s.underway f file.node)) := by
  simp only [Files.access, h, Option.map_some]

theorem access_write {file : OpenFile} (h : s.files[f]? = some file) (data : List UInt8)
    (n : { n : ℕ // n ≤ data.length }) :
    Files.access i s t (.write f data) (.ok n) =
      some (.write i f file.node ⟨file.pos, data.take n.val⟩ (s.underway f file.node)) := by
  simp only [Files.access, h, Option.map_some]

theorem fileStep_of_exec {N : Names} {s t : Files N.State} {o : HostOp} {r : HostRes o}
    (h : Executes N cap s o r t) : FileStep cap i s (Files.access i s t o r) t := by
  cases h with
  | opened path oflags omode node names htrunc =>
    have haccess : Files.access i s ({ s with names := names }.add node)
        (.open path oflags omode) (.ok s.files.length) = none := by
      simp [Files.access, htrunc]
    rw [haccess]
    exact .opened names node
  | emptied path oflags omode node names htrunc =>
    have haccess : Files.access i s (({ s with names := names }.setContent node []).add node)
        (.open path oflags omode) (.ok s.files.length) = some (.truncate i node 0) := by
      simp [Files.access, htrunc, Files.add, Files.setContent]
    rw [haccess]
    exact .emptied names node
  | openedWrite path node names => exact .opened names node
  | resized f size node pos hfile =>
    have haccess : Files.access i s (s.setContent node (setLen (s.content node) size.toNat))
        (.setLen f size) (.ok ()) = some (.truncate i node size.toNat) := by
      simp [Files.access, hfile]
    rw [haccess]
    exact .resized node size.toNat
  | sought f offset node pos hfile => exact .sought f node pos offset.toNat hfile
  | read f count node pos bytes hfile hbytes =>
    rw [access_read hfile]
    exact .read f node pos count bytes.val hfile hbytes
  | wrote f data node pos n hfile hn =>
    rw [access_write hfile]
    exact .wrote f node pos _ _ hfile
  | notOpened path oflags omode e names => exact .other names
  | notOpenedWrite path e names => exact .other names
  | notResized | notSought | notRead | notWritten | synced => exact .other s.names
  | other _ _ names ho =>
    have haccess : Files.access i s { s with names := names } o r = none := by
      cases o with
      | «open» | setLen | read | write => exact ho.2.elim
      | _ => rfl
    rw [haccess]
    exact .other names

/-- No write through the object `g` to the byte is under way. -/
def Files.Clear (s : Files σ) (node x : ℕ) (g : FileId) : Prop :=
  ∀ file e, s.files[g]? = some file → file.node = node → file.pending = some e → e.get x = none

/-- The byte `b` of the write `e` through `f` is in the file or still on its way to it, and nothing
else is. -/
def Files.Shows (s : Files σ) (f : FileId) (node : ℕ) (e : Extent) (x : ℕ) (b : UInt8) : Prop :=
  (∀ g, g ≠ f → s.Clear node x g) ∧
    ((∃ file, s.files[f]? = some file ∧ file.node = node ∧ file.pending = some e) ∨
      s.Clear node x f ∧ (s.content node)[x]? = some b)

theorem clear_add {s : Files σ} {node x : ℕ} (h : s.Clear node x g) (new : ℕ) :
    (s.add new).Clear node x g := by
  intro file e hfile hnode hpending
  change (s.files ++ [⟨new, 0, none⟩])[g]? = some file at hfile
  rcases getElem?_concat_cases hfile with hold | ⟨-, rfl⟩
  · exact h file e hold hnode hpending
  · cases hpending

theorem clear_setFile {s : Files σ} {node x : ℕ} {file : OpenFile} (h : s.Clear node x g)
    (hfile : file.node = node → ∀ e, file.pending = some e → e.get x = none) :
    (s.setFile f file).Clear node x g := by
  intro file' e hg hnode hpending
  change (s.files.set f file)[g]? = some file' at hg
  rw [List.getElem?_set] at hg
  split_ifs at hg with hfg hlt
  · cases hg
    exact hfile hnode e hpending
  · exact h file' e hg hnode hpending

theorem add_file {s : Files σ} {file : OpenFile} (h : s.files[f]? = some file) (node : ℕ) :
    (s.add node).files[f]? = some file := by
  change (s.files ++ [⟨node, 0, none⟩])[f]? = some file
  rw [List.getElem?_append_left (List.getElem?_eq_some_iff.mp h).1, h]

theorem setFile_of_ne {s : Files σ} (file : OpenFile) (h : g ≠ f) :
    (s.setFile f file).files[g]? = s.files[g]? := by
  change (s.files.set f file)[g]? = s.files[g]?
  rw [List.getElem?_set, if_neg (Ne.symm h)]

theorem setContent_of_ne {s : Files σ} {node m : ℕ} (content : List UInt8) (h : m ≠ node) :
    (s.setContent node content).content m = s.content m :=
  Function.update_of_ne h ..

theorem setContent_self {s : Files σ} (node : ℕ) (content : List UInt8) :
    (s.setContent node content).content node = content :=
  Function.update_self ..

/-- A file without a write under way moves on, maybe to one that does not write the byte. -/
theorem Files.Shows.setFile (h : s.Shows f n e x b) {f' : FileId} {node pos : ℕ}
    (hfile' : s.files[f']? = some ⟨node, pos, none⟩) {file' : OpenFile}
    (hmiss : file'.node = n → ∀ e', file'.pending = some e' → e'.get x = none) :
    (s.setFile f' file').Shows f n e x b := by
  obtain ⟨hothers, hours⟩ := h
  refine ⟨fun g hg => clear_setFile (hothers g hg) hmiss, ?_⟩
  rcases hours with ⟨file, hfile, hnode, hpending⟩ | ⟨hf, hb⟩
  · have hne : f ≠ f' := by
      rintro rfl
      rw [hfile'] at hfile
      cases hfile
      cases hpending
    exact .inl ⟨file, (setFile_of_ne _ hne).trans hfile, hnode, hpending⟩
  · exact .inr ⟨clear_setFile hf hmiss, hb⟩

/-- An access that does not hit the byte leaves it shown. -/
theorem Files.Shows.step {a : Option Access} (h : s.Shows f n e x b) (hstep : FileStep cap i s a t)
    (hits : ∀ a', a = some a' → ¬ a'.Hits n x) : t.Shows f n e x b := by
  have ⟨hothers, hours⟩ := h
  cases hstep with
  | other names => exact ⟨hothers, hours⟩
  | opened names node =>
    refine ⟨fun g hg => clear_add (hothers g hg) node, ?_⟩
    rcases hours with ⟨file, hfile, hnode, hpending⟩ | ⟨hclear, hb⟩
    · exact .inl ⟨file, add_file hfile node, hnode, hpending⟩
    · exact .inr ⟨clear_add hclear node, hb⟩
  | emptied names node =>
    have hne : n ≠ node := by
      rintro rfl
      exact hits _ rfl ⟨rfl, Nat.zero_le x⟩
    have hclear : ∀ g, s.Clear n x g →
        (({ s with names := names }.setContent node []).add node).Clear n x g :=
      fun g hg => clear_add (s := { s with names := names }.setContent node []) hg node
    refine ⟨fun g hg => hclear g (hothers g hg), ?_⟩
    rcases hours with ⟨file, hfile, hnode, hpending⟩ | ⟨hf, hb⟩
    · refine .inl ⟨file, ?_, hnode, hpending⟩
      exact add_file (s := { s with names := names }.setContent node []) hfile node
    · refine .inr ⟨hclear f hf, ?_⟩
      change (({ s with names := names }.setContent node []).content n)[x]? = some b
      rw [setContent_of_ne [] hne]
      exact hb
  | resized node size =>
    refine ⟨hothers, hours.imp_right fun ⟨hf, hb⟩ => ⟨hf, ?_⟩⟩
    by_cases hnode : n = node
    · subst hnode
      rw [setContent_self]
      refine setLen_of_lt ?_ hb
      by_contra hle
      exact hits _ rfl ⟨rfl, not_lt.mp hle⟩
    · rw [setContent_of_ne _ hnode]
      exact hb
  | sought f' node pos offset hfile' => exact h.setFile hfile' (by simp)
  | read f' node pos count bytes hfile' hbytes => exact h.setFile hfile' (by simp)
  | wrote f' node pos m e' hfile' =>
    have he' : node = n → ∀ e'', some e' = some e'' → e''.get x = none := by
      intro hnode e'' heq
      cases heq
      by_contra hne
      exact hits _ rfl ⟨hnode, hne⟩
    exact h.setFile hfile' he'

/-- Work in the background leaves the byte shown. -/
theorem Files.Shows.finish (h : s.Shows f n e x b) (he : e.get x = some b)
    (hfinish : s.finish g = some t) : t.Shows f n e x b := by
  obtain ⟨hothers, hours⟩ := h
  unfold Files.finish at hfinish
  split at hfinish
  next node pos e' hg =>
    cases hfinish
    have hclear : ∀ k, s.Clear n x k → ((s.setContent node (e'.writeTo (s.content node))).setFile g
        ⟨node, pos, none⟩).Clear n x k :=
      fun k hk => clear_setFile (s := s.setContent node _) hk (by simp)
    have hcontent : (s.content n)[x]? = some b → s.Clear n x g →
        ((s.setContent node (e'.writeTo (s.content node))).content n)[x]? = some b := by
      intro hb hg'
      by_cases hnode : n = node
      · subst hnode
        rw [setContent_self]
        exact writeTo_of_get_none (hg' _ e' hg rfl rfl) hb
      · rw [setContent_of_ne _ hnode]
        exact hb
    refine ⟨fun k hk => hclear k (hothers k hk), ?_⟩
    by_cases hgf : g = f
    · subst hgf
      right
      refine ⟨?_, ?_⟩
      · intro file e'' hfile hnode hpending
        change (s.files.set g ⟨node, pos, none⟩)[g]? = some file at hfile
        rw [List.getElem?_set_self (List.getElem?_eq_some_iff.mp hg).1] at hfile
        cases hfile
        cases hpending
      · rcases hours with ⟨file, hfile, hnode, hpending⟩ | ⟨hf, hb⟩
        · rw [hg] at hfile
          cases hfile
          cases hpending
          subst hnode
          change ((s.setContent node (e.writeTo (s.content node))).content node)[x]? = some b
          rw [setContent_self]
          exact writeTo_get he
        · exact hcontent hb hf
    · rcases hours with ⟨file, hfile, hnode, hpending⟩ | ⟨hf, hb⟩
      · refine .inl ⟨file, ?_, hnode, hpending⟩
        exact (setFile_of_ne (s := s.setContent node _) _ (Ne.symm hgf)).trans hfile
      · exact .inr ⟨hclear f hf, hcontent hb (hothers g hgf)⟩
  · cases hfinish

/-- A read of the byte gets it, unless its write is still under way through another object. -/
theorem Files.Shows.read {pos count : ℕ} (h : s.Shows f n e x b) (he : e.get x = some b)
    (hg : s.files[g]? = some ⟨n, pos, none⟩) (hclear : ∀ e' ∈ s.underway g n, e'.get x = none)
    (hpos : pos ≤ x) (hcount : x < pos + min count cap) :
    (⟨pos, ((s.content n).drop pos).take (min count cap)⟩ : Extent).get x = some b := by
  have hb : (s.content n)[x]? = some b := by
    rcases h.2 with ⟨file, hfile, hnode, hpending⟩ | ⟨-, hb⟩
    · have hgf : f ≠ g := by
        rintro rfl
        rw [hg] at hfile
        cases hfile
        cases hpending
      have hnone := hclear e (mem_underway.mpr ⟨f, file, hgf, hfile, hnode, hpending⟩)
      simp [he] at hnone
    · exact hb
  have hsum : pos + (x - pos) = x := by omega
  unfold Extent.get
  dsimp only
  rw [if_pos hpos, List.getElem?_take_of_lt (by omega), List.getElem?_drop, hsum, hb]

/-- A write is shown from the start, unless another one to the byte is still under way. -/
theorem shows_wrote {pos m : ℕ} (h : s.files[f]? = some ⟨n, pos, none⟩)
    (hclear : ∀ e' ∈ s.underway f n, e'.get x = none) :
    (s.setFile f ⟨n, m, some e⟩).Shows f n e x b := by
  refine ⟨fun g hg file e' hfile hnode hpending => ?_, .inl ⟨⟨n, m, some e⟩, ?_, rfl, rfl⟩⟩
  · rw [setFile_of_ne _ hg] at hfile
    exact hclear e' (mem_underway.mpr ⟨g, file, hg, hfile, hnode, hpending⟩)
  · change (s.files.set f ⟨n, m, some e⟩)[f]? = _
    rw [List.getElem?_set_self (List.getElem?_eq_some_iff.mp h).1]

/-! The accesses of a run. -/

/-- In the list of all accesses, number `k` is the write `e` through `f`, which no other access
after it and before number `l` hits at the byte `x`, and nothing was on its way there. -/
structure Kept (log : List Access) (k l : ℕ) (f : FileId) (n : ℕ) (e : Extent) (x : ℕ) (b : UInt8) :
    Prop where
  lt : k < l
  write : ∃ i underway, log[k]? = some (.write i f n e underway) ∧
    ∀ e' ∈ underway, e'.get x = none
  get : e.get x = some b
  quiet : ∀ m a, k < m → m < l → log[m]? = some a → ¬ a.Hits n x

/-- What was written is shown, and was seen by every read. -/
structure Logged (cap : ℕ) (log : List Access) (s : Files σ) : Prop where
  shows : ∀ k f n e x b, Kept log k log.length f n e x b → s.Shows f n e x b
  seen : ∀ k l f n e x b j g count data underway, Kept log k l f n e x b →
    log[l]? = some (.read j g n count data underway) → (∀ e' ∈ underway, e'.get x = none) →
      data.offset ≤ x → x < data.offset + min count cap → data.get x = some b

theorem Kept.take {log more : List Access} {k l : ℕ} (h : Kept (log ++ more) k l f n e x b)
    (hk : k < log.length) (hl : l ≤ log.length) : Kept log k l f n e x b := by
  obtain ⟨hlt, ⟨i, underway, hwrite, hclear⟩, hget, hquiet⟩ := h
  refine ⟨hlt, ⟨i, underway, ?_, hclear⟩, hget, fun m a hkm hml ha => hquiet m a hkm hml ?_⟩
  · rwa [List.getElem?_append_left hk] at hwrite
  · rw [List.getElem?_append_left (by omega), ha]

theorem logged_finish {log : List Access} (h : Logged cap log s) (hfinish : s.finish g = some t) :
    Logged cap log t :=
  ⟨fun k f n e x b hkept => (h.shows k f n e x b hkept).finish hkept.get hfinish, h.seen⟩

theorem logged_step {log : List Access} {a : Option Access} (h : Logged cap log s)
    (hstep : FileStep cap i s a t) : Logged cap (log ++ a.toList) t := by
  cases a with
  | none =>
    rw [Option.toList_none, List.append_nil]
    exact ⟨fun k f n e x b hkept => (h.shows k f n e x b hkept).step hstep (by simp), h.seen⟩
  | some a =>
    rw [Option.toList_some]
    have hlast : (log ++ [a])[log.length]? = some a := by simp
    refine ⟨fun k f n e x b hkept => ?_, ?_⟩
    · rw [List.length_append, List.length_singleton] at hkept
      have hk := hkept.lt
      by_cases hold : k < log.length
      · have hearlier : Kept log k log.length f n e x b := by
          have hkept' : Kept (log ++ [a]) k log.length f n e x b :=
            ⟨hold, hkept.write, hkept.get, fun m a' hkm hm => hkept.quiet m a' hkm (by omega)⟩
          exact hkept'.take hold le_rfl
        refine (h.shows k f n e x b hearlier).step hstep fun a' ha' => ?_
        cases ha'
        exact hkept.quiet log.length a hold (by omega) hlast
      · obtain rfl : k = log.length := by omega
        obtain ⟨j, underway, hwrite, hclear⟩ := hkept.write
        rw [hlast] at hwrite
        cases hwrite
        cases hstep with
        | wrote f node pos m e hfile => exact shows_wrote hfile hclear
    · intro k l f n e x b j g count data underway hkept hread hclear hpos hcount
      by_cases hold : l < log.length
      · rw [List.getElem?_append_left hold] at hread
        have hk := hkept.lt
        exact h.seen k l f n e x b j g count data underway
          (hkept.take (by omega) (by omega)) hread hclear hpos hcount
      · have hl := (List.getElem?_eq_some_iff.mp hread).1
        rw [List.length_append, List.length_singleton] at hl
        obtain rfl : l = log.length := by omega
        rw [hlast] at hread
        cases hread
        cases hstep with
        | read f' node pos count bytes hfile hbytes =>
          subst hbytes
          have hshows := h.shows k f _ e x b (hkept.take hkept.lt le_rfl)
          exact hshows.read hkept.get hfile hclear hpos hcount

end

end P9cpu.Ninep
