import P9cpu.Ninep.Held
import P9cpu.Ninep.Turns
import P9cpu.Ninep.WriteBack

/-! Requests that read and write one open file at the same time, each at its own offset. -/
namespace P9cpu.Ninep
open Core Prog

/-! One request after the other. -/

/-- `pread` and `pwrite`: a request and its response, and what they make of the bytes of the file.
One transfer may move any prefix. -/
inductive Positioned : Fcall → Fcall → List UInt8 → List UInt8 → Prop
  | read (fid : UInt32) (offset : UInt64) (count : UInt32) (bytes content : List UInt8)
      (hoffset : offset.toNat < 2 ^ 63)
      (hbytes : bytes <+: (content.drop offset.toNat).take count.toNat) :
      Positioned (.tread fid offset count) (.rread ⟨bytes⟩) content content
  | write (fid : UInt32) (offset : UInt64) (data : Data) (n : ℕ) (content : List UInt8)
      (hoffset : offset.toNat < 2 ^ 63) (hn : n ≤ data.bytes.length) :
      Positioned (.twrite fid offset data) (.rwrite (.ofNat n)) content
        (Extent.writeTo ⟨offset.toNat, data.bytes.take n⟩ content)
  | refused (request : Fcall) (offset : UInt64) (content : List UInt8)
      (hrequest : request.position = some offset) (hoffset : 2 ^ 63 ≤ offset.toNat) :
      Positioned request (.rlerror Errno.EINVAL.code) content content

/-- What is done to the bytes of a file other than through one open file. -/
inductive Change
  | write (e : Extent)
  | resize (size : ℕ)
deriving DecidableEq

def Change.apply : Change → List UInt8 → List UInt8
  | .write e, content => e.writeTo content
  | .resize size, content => setLen content size

/-- One thing that happens to the bytes of a file. -/
inductive Turn
  /-- by task `i` -/
  | call (i : ℕ) (request response : Fcall)
  | change (c : Change)

def Turn.Does : Turn → List UInt8 → List UInt8 → Prop
  | .call _ request response, content, after => Positioned request response content after
  | .change c, content, after => after = c.apply content

def Turn.task : Turn → Option ℕ
  | .call i _ _ => some i
  | .change _ => none

def Turn.changed : Turn → Option Change
  | .call .. => none
  | .change c => some c

/-! A host that may move less. -/

/-- The room for a transfer depends on the rest of the host, which may change at any time. -/
def shortHost (N : Names) (room : N.State → ℕ) : SharedHost where
  State := Files N.State
  Event := FileId ⊕ N.State
  exec o s := Files.exec N (room s.names) o s
  tick
    | .inl f, s => s.finish f
    | .inr names, s => some { s with names := names }

section
variable {σ : Type}

/-- The write of an open file that is still under way. -/
def Files.pendingOf (s : Files σ) (f : FileId) : Option Extent :=
  s.files[f]?.bind OpenFile.pending

/-- The bytes of a file once the last write through `f` has ended. -/
def Files.settled (s : Files σ) (f : FileId) (node : ℕ) : List UInt8 :=
  match s.pendingOf f with
  | some e => e.writeTo (s.content node)
  | none => s.content node

/-- If the file is open, then on this node. -/
def Files.On {σ : Type} (s : Files σ) (f : FileId) (node : ℕ) : Prop :=
  ∀ file, s.files[f]? = some file → file.node = node

/-- What an access does other than through an open file. -/
def Access.resizes (node : ℕ) : Access → Option Change
  | .truncate _ n size => if n = node then some (.resize size) else none
  | _ => none

end

/-! Operations on one open file. -/

section
variable {σ : Type} {s t : Files σ} {f g : FileId} {file : OpenFile} {cap : ℕ}

theorem pendingOf_of_file (h : s.files[f]? = some file) : s.pendingOf f = file.pending := by
  simp only [Files.pendingOf, h, Option.bind_some]

theorem file_setFile (h : s.files[f]? = some file) (new : OpenFile) :
    (s.setFile f new).files[f]? = some new :=
  List.getElem?_set_self (List.getElem?_eq_some_iff.mp h).1

theorem pendingOf_setFile_of_ne (new : OpenFile) (h : g ≠ f) :
    (s.setFile g new).pendingOf f = s.pendingOf f := by
  unfold Files.pendingOf
  rw [setFile_of_ne new (Ne.symm h)]

theorem pendingOf_setFile (h : s.files[g]? = some file) {new : OpenFile}
    (hnew : new.pending = file.pending) : (s.setFile g new).pendingOf f = s.pendingOf f := by
  by_cases hgf : g = f
  · subst hgf
    rw [pendingOf_of_file (file_setFile h new), pendingOf_of_file h, hnew]
  · exact pendingOf_setFile_of_ne new hgf

/-- Only changes of length are seen in the bytes at once. -/
theorem content_of_fileStep {i : ℕ} {a : Option Access} (h : FileStep cap i s a t) (node : ℕ) :
    t.content node = match a.bind (Access.resizes node) with
      | some c => c.apply (s.content node)
      | none => s.content node := by
  cases h with
  | other | opened | sought | read | wrote => rfl
  | emptied names m =>
    by_cases hm : m = node
    · subst hm
      simp [Access.resizes, Files.add, Files.setContent, Change.apply, setLen]
    · simp [Access.resizes, Files.add, Files.setContent, hm, Ne.symm hm]
  | resized m size =>
    by_cases hm : m = node
    · subst hm
      simp [Access.resizes, Files.setContent, Change.apply]
    · simp [Access.resizes, Files.setContent, hm, Ne.symm hm]

theorem finish_cases (h : s.finish g = some t) : ∃ node pos e,
    s.files[g]? = some ⟨node, pos, some e⟩ ∧
      t = (s.setContent node (e.writeTo (s.content node))).setFile g ⟨node, pos, none⟩ := by
  unfold Files.finish at h
  split at h
  next node pos e hg =>
    cases h
    exact ⟨node, pos, e, hg, rfl⟩
  next => cases h

end

section
variable {N : Names} {cap : ℕ} {s t : Files N.State} {f : FileId} {file : OpenFile}

theorem exec_seek {offset : UInt64} {r : Except IoError UInt64} (hfile : s.files[f]? = some file)
    (h : Files.exec N cap (.seek f offset) s = some (r, t)) : file.pending = none ∧
      (offset.toNat < 2 ^ 63 ∧ r = .ok offset ∧
          t = s.setFile f ⟨file.node, offset.toNat, none⟩ ∨
        2 ^ 63 ≤ offset.toNat ∧ r = .error EINVAL ∧ t = s) := by
  obtain ⟨node, pos, pending⟩ := file
  cases pending with
  | none =>
    simp only [Files.exec, hfile] at h
    split_ifs at h with hoffset
    · cases h
      exact ⟨rfl, .inl ⟨hoffset, rfl, rfl⟩⟩
    · cases h
      exact ⟨rfl, .inr ⟨not_lt.mp hoffset, rfl, rfl⟩⟩
  | some e => simp [Files.exec, hfile] at h

theorem exec_read {count : ℕ} {r : Except IoError { bytes : List UInt8 // bytes.length ≤ count }}
    (hfile : s.files[f]? = some file) (h : Files.exec N cap (.read f count) s = some (r, t)) :
    file.pending = none ∧ ∃ bytes, r = .ok bytes ∧
      bytes.val = ((s.content file.node).drop file.pos).take (min count cap) ∧
        t = s.setFile f ⟨file.node, file.pos + bytes.val.length, none⟩ := by
  obtain ⟨node, pos, pending⟩ := file
  cases pending with
  | none =>
    simp only [Files.exec, hfile] at h
    cases h
    exact ⟨rfl, _, rfl, rfl, rfl⟩
  | some e => simp [Files.exec, hfile] at h

theorem exec_write {data : List UInt8} {r : Except IoError { n : ℕ // n ≤ data.length }}
    (hfile : s.files[f]? = some file) (h : Files.exec N cap (.write f data) s = some (r, t)) :
    file.pending = none ∧ ∃ n, r = .ok n ∧
      t = s.setFile f ⟨file.node, file.pos + n.val, some ⟨file.pos, data.take n.val⟩⟩ := by
  obtain ⟨node, pos, pending⟩ := file
  cases pending with
  | none =>
    simp only [Files.exec, hfile] at h
    cases h
    exact ⟨rfl, _, rfl, rfl⟩
  | some e => simp [Files.exec, hfile] at h

/-- An operation that does not move the open file leaves the write under way. -/
theorem pendingOf_of_executes {o : HostOp} {r : HostRes o} (h : Executes N cap s o r t)
    (hmoves : o.moves ≠ some f) : t.pendingOf f = s.pendingOf f := by
  cases hfile : s.files[f]? with
  | some file =>
    rw [pendingOf_of_file hfile, pendingOf_of_file (file_of_executes h hfile hmoves)]
  | none =>
    have hnone : s.pendingOf f = none := by simp [Files.pendingOf, hfile]
    have hadd : ∀ node : ℕ, (s.files ++ [⟨node, 0, none⟩])[f]?.bind OpenFile.pending = none := by
      intro node
      rw [List.getElem?_append_right (List.getElem?_eq_none_iff.mp hfile)]
      cases f - s.files.length <;> simp
    have hset : ∀ (g : FileId) (new : OpenFile), (s.files.set g new)[f]? = none := by
      intro g new
      rw [List.getElem?_eq_none_iff, List.length_set]
      exact List.getElem?_eq_none_iff.mp hfile
    rw [hnone]
    cases h with
    | opened | emptied | openedWrite => exact hadd _
    | sought | read | wrote =>
      unfold Files.pendingOf Files.setFile
      rw [hset, Option.bind_none]
    | _ => exact hnone

/-- An open file stays open on the same file. -/
theorem node_of_executes {o : HostOp} {r : HostRes o} (h : Executes N cap s o r t)
    (hfile : s.files[f]? = some file) :
    ∃ file', t.files[f]? = some file' ∧ file'.node = file.node := by
  by_cases hmoves : o.moves = some f
  · cases h with
    | sought g offset node pos hf =>
      cases hmoves
      rw [hfile] at hf
      cases hf
      exact ⟨_, file_setFile hfile _, rfl⟩
    | read g count node pos bytes hf hbytes =>
      cases hmoves
      rw [hfile] at hf
      cases hf
      exact ⟨_, file_setFile hfile _, rfl⟩
    | wrote g data node pos n hf hn =>
      cases hmoves
      rw [hfile] at hf
      cases hf
      exact ⟨_, file_setFile hfile _, rfl⟩
    | notSought | notRead | notWritten => exact ⟨file, hfile, rfl⟩
    | other _ _ _ ho =>
      rw [ho.1] at hmoves
      cases hmoves
    | _ => cases hmoves
  · exact ⟨file, file_of_executes h hfile hmoves, rfl⟩

end

/-! The turns so far. -/

/-- A task has locked the file and has not had its turn. -/
def Course.Waits (f : FileId) : Course → Prop
  | .locked _ g | .sought _ g _ => g = f
  | _ => False

def Course.file : Course → Option FileId
  | .locked _ f | .sought _ f _ | .served _ f _ | .finished f _ => some f
  | _ => none

/-- What a task that had its turn at the file responds. -/
def Course.answer (f : FileId) : Course → Option Fcall
  | .served _ g outcome | .finished g outcome =>
    if g = f then some (responseOf (outcome.map Transfer.response)) else none
  | _ => none

/-- The turn of a write that may still be under way. -/
def Late : Option Extent → List Turn → Prop
  | none, late => late = []
  | some e, late => ∃ i request response, late = [.call i request response] ∧
      ∀ content, Positioned request response content (e.writeTo content)

/-- The turns from which the bytes of a file come, and the turn of the write through `f` that is
still under way. -/
structure Turns {σ : Type} (f : FileId) (node : ℕ) (content : List UInt8) (locks : List ℕ)
    (changes : List Change) (bodies : List Fcall) (st : ℕ → Course) (s : Files σ)
    (turns late : List Turn) : Prop where
  bytes : Serially Turn.Does turns content (s.content node)
  underway : Late (s.pendingOf f) late
  others : turns.filterMap Turn.changed = changes
  order : ∃ waiting : Option ℕ, (turns ++ late).filterMap Turn.task ++ waiting.toList = locks ∧
    ∀ i, waiting = some i ↔ (st i).Waits f
  asked : ∀ i request response, .call i request response ∈ turns ++ late →
    bodies[i]? = some request
  answered : ∀ i response, (st i).answer f = some response →
    ∃ request, .call i request response ∈ turns ++ late

theorem update_of_eq {α : Type} {st : ℕ → Course} {i : ℕ} {v : Course} (P : Course → α)
    (h : P v = P (st i)) (k : ℕ) : P (Function.update st i v k) = P (st k) := by
  by_cases hki : k = i
  · subst hki
    rw [Function.update_self, h]
  · rw [Function.update_of_ne hki]

/-- There are such turns. -/
def HasTurns {σ : Type} (f : FileId) (node : ℕ) (content : List UInt8) (locks : List ℕ)
    (changes : List Change) (bodies : List Fcall) (st : ℕ → Course) (s : Files σ) : Prop :=
  ∃ turns late, Turns f node content locks changes bodies st s turns late

section
variable {σ : Type} {f : FileId} {node : ℕ} {content : List UInt8} {locks : List ℕ}
  {changes : List Change} {bodies bodies' : List Fcall} {st st' : ℕ → Course} {s t : Files σ}
  {turns late : List Turn} {i : ℕ} {request response : Fcall}

theorem Turns.late_eq_nil (h : Turns f node content locks changes bodies st s turns late)
    (hpending : s.pendingOf f = none) : late = [] := by
  have hlate := h.underway
  rwa [hpending] at hlate

/-- A step that has nothing to do with the file. -/
theorem Turns.goesOn (h : Turns f node content locks changes bodies st s turns late)
    (hcontent : t.content node = s.content node) (hpending : t.pendingOf f = s.pendingOf f)
    (hbodies : ∀ (i : ℕ) (body : Fcall), bodies[i]? = some body → bodies'[i]? = some body)
    (hwaits : ∀ i, (st' i).Waits f = (st i).Waits f)
    (hanswer : ∀ i, (st' i).answer f = (st i).answer f) :
    Turns f node content locks changes bodies' st' t turns late := by
  obtain ⟨waiting, horder, hwaiting⟩ := h.order
  refine ⟨hcontent ▸ h.bytes, hpending ▸ h.underway, h.others, ⟨waiting, horder, fun i => ?_⟩,
    fun i request response hmem => ?_, fun i response hi => ?_⟩
  · rw [hwaits i]
    exact hwaiting i
  · exact hbodies i request (h.asked i request response hmem)
  · exact h.answered i response (hanswer i ▸ hi)

/-- Others change the bytes: a write that is under way comes after it. -/
theorem Turns.change (h : Turns f node content locks changes bodies st s turns late) {c : Change}
    (hcontent : t.content node = c.apply (s.content node))
    (hpending : t.pendingOf f = s.pendingOf f) :
    Turns f node content locks (changes ++ [c]) bodies st t (turns ++ [.change c]) late := by
  have hmem : ∀ i request response,
      Turn.call i request response ∈ (turns ++ [.change c]) ++ late ↔
        .call i request response ∈ turns ++ late := by
    intro i request response
    simp
  obtain ⟨waiting, horder, hwaiting⟩ := h.order
  refine ⟨h.bytes.concat hcontent, hpending ▸ h.underway, ?_, ⟨waiting, ?_, hwaiting⟩,
    fun i request response hi => ?_, fun i response hi => ?_⟩
  · simp [h.others, Turn.changed]
  · rw [← horder]
    simp [List.filterMap_cons, Turn.task]
  · exact h.asked i request response ((hmem i request response).mp hi)
  · obtain ⟨request, hi⟩ := h.answered i response hi
    exact ⟨request, (hmem i request response).mpr hi⟩

/-- The write that was under way ends. -/
theorem Turns.finish (h : Turns f node content locks changes bodies st s turns late) {e : Extent}
    (he : s.pendingOf f = some e) (hcontent : t.content node = e.writeTo (s.content node))
    (hpending : t.pendingOf f = none) :
    Turns f node content locks changes bodies st t (turns ++ late) [] := by
  have hlate := h.underway
  rw [he] at hlate
  obtain ⟨i, request, response, rfl, hdoes⟩ := hlate
  refine ⟨h.bytes.concat ?_, by rw [hpending]; exact rfl, ?_, ?_, ?_, ?_⟩
  · change Positioned request response (s.content node) (t.content node)
    rw [hcontent]
    exact hdoes _
  · simp [h.others, Turn.changed]
  · rw [List.append_nil]
    exact h.order
  · rw [List.append_nil]
    exact h.asked
  · rw [List.append_nil]
    exact h.answered

/-- A task takes the lock. -/
theorem Turns.lock (h : Turns f node content locks changes bodies st s turns late)
    (hfree : ∀ k, ¬ (st k).Waits f) (hi : (st' i).Waits f) (hne : ∀ k, k ≠ i → st' k = st k)
    (hanswer : (st' i).answer f = (st i).answer f) :
    Turns f node content (locks ++ [i]) changes bodies st' s turns late := by
  obtain ⟨waiting, horder, hwaiting⟩ := h.order
  have hnone : waiting = none := by
    refine Option.eq_none_iff_forall_not_mem.mpr fun k hk => hfree k ?_
    exact (hwaiting k).mp hk
  refine ⟨h.bytes, h.underway, h.others, ⟨some i, ?_, fun k => ?_⟩, h.asked,
    fun k response hk => ?_⟩
  · rw [← horder, hnone]
    simp
  · by_cases hki : k = i
    · subst hki
      exact iff_of_true rfl hi
    · rw [hne k hki]
      refine iff_of_false (fun heq => hki (Option.some.inj heq).symm) (hfree k)
  · refine h.answered k response ?_
    by_cases hki : k = i
    · subst hki
      exact hanswer ▸ hk
    · exact hne k hki ▸ hk

/-- The task that waits has its turn, at once or when its write ends. -/
theorem Turns.serve (h : Turns f node content locks changes bodies st s turns [])
    (hi : (st i).Waits f) (hi' : ¬ (st' i).Waits f) (hne : ∀ k, k ≠ i → st' k = st k)
    (hanswer : (st' i).answer f = some response) (hbody : bodies[i]? = some request)
    {turns' late' : List Turn} (hturns : turns' ++ late' = turns ++ [.call i request response])
    (hbytes : Serially Turn.Does turns' content (t.content node))
    (hlate : Late (t.pendingOf f) late')
    (hothers : turns'.filterMap Turn.changed = changes) :
    Turns f node content locks changes bodies st' t turns' late' := by
  obtain ⟨waiting, horder, hwaiting⟩ := h.order
  obtain rfl : waiting = some i := (hwaiting i).mpr hi
  refine ⟨hbytes, hlate, hothers, ⟨none, ?_, fun k => ?_⟩, fun k body resp hk => ?_,
    fun k resp hk => ?_⟩
  · rw [hturns, ← horder]
    simp [Turn.task]
  · refine iff_of_false (by simp) fun hk => ?_
    by_cases hki : k = i
    · subst hki
      exact hi' hk
    · rw [hne k hki] at hk
      exact hki (Option.some.inj ((hwaiting k).mpr hk)).symm
  · rw [hturns, List.mem_append, List.mem_singleton] at hk
    rcases hk with hold | hnew
    · exact h.asked k body resp (List.mem_append_left _ hold)
    · cases hnew
      exact hbody
  · rw [hturns]
    by_cases hki : k = i
    · subst hki
      rw [hanswer] at hk
      cases hk
      exact ⟨request, List.mem_append_right _ (List.mem_singleton.mpr rfl)⟩
    · rw [hne k hki] at hk
      obtain ⟨body, hold⟩ := h.answered k resp hk
      rw [List.append_nil] at hold
      exact ⟨body, List.mem_append_left _ hold⟩

theorem Turns.serveNow (h : Turns f node content locks changes bodies st s turns [])
    (hi : (st i).Waits f) (hi' : ¬ (st' i).Waits f) (hne : ∀ k, k ≠ i → st' k = st k)
    (hanswer : (st' i).answer f = some response) (hbody : bodies[i]? = some request)
    (hdoes : Positioned request response (s.content node) (t.content node))
    (hpending : t.pendingOf f = none) :
    Turns f node content locks changes bodies st' t (turns ++ [.call i request response]) [] := by
  refine h.serve hi hi' hne hanswer hbody (List.append_nil _) (h.bytes.concat hdoes) ?_ ?_
  · rw [hpending]
    exact rfl
  · simp [h.others, Turn.changed]

theorem Turns.serveLate (h : Turns f node content locks changes bodies st s turns [])
    (hi : (st i).Waits f) (hi' : ¬ (st' i).Waits f) (hne : ∀ k, k ≠ i → st' k = st k)
    (hanswer : (st' i).answer f = some response) (hbody : bodies[i]? = some request) {e : Extent}
    (hcontent : t.content node = s.content node) (hpending : t.pendingOf f = some e)
    (hdoes : ∀ content, Positioned request response content (e.writeTo content)) :
    Turns f node content locks changes bodies st' t turns [.call i request response] := by
  refine h.serve hi hi' hne hanswer hbody rfl (hcontent ▸ h.bytes) ?_ h.others
  rw [hpending]
  exact ⟨i, request, response, rfl, hdoes⟩

/-! The turn of one task. -/

variable {v : Course} {a : ObjId} {g : FileId} {file : OpenFile} {offset : UInt64}

theorem Turns.kept (h : Turns f node content locks changes bodies st s turns late)
    (hcontent : t.content node = s.content node) (hpending : t.pendingOf f = s.pendingOf f)
    (hwaits : v.Waits f = (st i).Waits f) (hanswer : v.answer f = (st i).answer f) :
    HasTurns f node content locks changes bodies (Function.update st i v) t :=
  ⟨turns, late, h.goesOn hcontent hpending (fun _ _ hb => hb)
    (update_of_eq (Course.Waits f) hwaits) (update_of_eq (Course.answer f) hanswer)⟩

/-- The task is at another open file. -/
theorem Turns.elsewhere (h : Turns f node content locks changes bodies st s turns late)
    (hcontent : t.content node = s.content node) (hpending : t.pendingOf f = s.pendingOf f)
    (hi : (st i).file = some g) (hv : v.file = some g) (hgf : g ≠ f) :
    HasTurns f node content locks changes bodies (Function.update st i v) t := by
  have hnone : ∀ {v : Course}, v.file = some g → v.Waits f = False ∧ v.answer f = none := by
    intro v hv
    cases v with
    | locked a g' | sought a g' offset =>
      cases hv
      exact ⟨eq_false hgf, rfl⟩
    | served a g' outcome | finished g' outcome =>
      cases hv
      exact ⟨rfl, if_neg hgf⟩
    | _ => cases hv
  refine h.kept hcontent hpending ?_ ?_
  · rw [(hnone hi).1, (hnone hv).1]
  · rw [(hnone hi).2, (hnone hv).2]

theorem Turns.refused (h : Turns f node content locks changes bodies st s turns late)
    (hi : st i = .locked a g) (hfile : s.files[g]? = some file) (hpending : file.pending = none)
    (hbody : bodies[i]? = some request) (hrequest : request.position = some offset)
    (hoffset : 2 ^ 63 ≤ offset.toNat) :
    HasTurns f node content locks changes bodies
      (Function.update st i (.served a g (.error (.io EINVAL)))) s := by
  by_cases hgf : g = f
  · subst hgf
    have hnone := (pendingOf_of_file hfile).trans hpending
    obtain rfl := h.late_eq_nil hnone
    refine ⟨_, _, h.serveNow (i := i) (by rw [hi]; exact rfl)
      (by rw [Function.update_self]; exact id) (fun k hk => Function.update_of_ne hk ..) ?_ hbody
      (.refused request offset _ hrequest hoffset) hnone⟩
    rw [Function.update_self]
    exact if_pos rfl
  · exact h.elsewhere rfl rfl (by rw [hi]; rfl) rfl hgf

theorem Turns.read {cap : ℕ} {fid : UInt32} {count : UInt32} {bytes : List UInt8}
    (h : Turns f node content locks changes bodies st s turns late) (hon : s.On f node)
    (hi : st i = .sought a g offset) (hfile : s.files[g]? = some file)
    (hpos : file.pos = offset.toNat) (hpending : file.pending = none)
    (hbody : bodies[i]? = some (.tread fid offset count)) (hoffset : offset.toNat < 2 ^ 63)
    (hbytes : bytes = ((s.content file.node).drop file.pos).take (min count.toNat cap)) :
    HasTurns f node content locks changes bodies
      (Function.update st i (.served a g (.ok (.read g offset count.toNat bytes))))
      (s.setFile g ⟨file.node, file.pos + bytes.length, none⟩) := by
  by_cases hgf : g = f
  · subst hgf
    obtain rfl := h.late_eq_nil ((pendingOf_of_file hfile).trans hpending)
    have hdoes : Positioned (.tread fid offset count) (.rread ⟨bytes⟩) (s.content node)
        (s.content node) := by
      refine .read fid offset count bytes _ hoffset ?_
      rw [hbytes, hon file hfile, hpos, Nat.min_comm, ← List.take_take]
      exact List.take_prefix ..
    refine ⟨_, _, h.serveNow (i := i) (by rw [hi]; exact rfl)
      (by rw [Function.update_self]; exact id) (fun k hk => Function.update_of_ne hk ..) ?_ hbody
      hdoes (pendingOf_of_file (file_setFile hfile _))⟩
    rw [Function.update_self]
    exact if_pos rfl
  · exact h.elsewhere rfl (pendingOf_setFile_of_ne _ hgf) (by rw [hi]; rfl) rfl hgf

theorem Turns.write {fid : UInt32} {data : Data} {m : ℕ}
    (h : Turns f node content locks changes bodies st s turns late)
    (hi : st i = .sought a g offset) (hfile : s.files[g]? = some file)
    (hpos : file.pos = offset.toNat) (hpending : file.pending = none)
    (hbody : bodies[i]? = some (.twrite fid offset data)) (hoffset : offset.toNat < 2 ^ 63)
    (hm : m ≤ data.bytes.length) :
    HasTurns f node content locks changes bodies
      (Function.update st i (.served a g (.ok (.write g offset data.bytes m))))
      (s.setFile g ⟨file.node, file.pos + m, some ⟨file.pos, data.bytes.take m⟩⟩) := by
  by_cases hgf : g = f
  · subst hgf
    obtain rfl := h.late_eq_nil ((pendingOf_of_file hfile).trans hpending)
    have hdoes : ∀ content, Positioned (.twrite fid offset data) (.rwrite (.ofNat m)) content
        (Extent.writeTo ⟨file.pos, data.bytes.take m⟩ content) := by
      intro content
      rw [hpos]
      exact .write fid offset data m content hoffset hm
    refine ⟨_, _, h.serveLate (i := i) (by rw [hi]; exact rfl)
      (by rw [Function.update_self]; exact id) (fun k hk => Function.update_of_ne hk ..) ?_ hbody
      rfl (pendingOf_of_file (file_setFile hfile _)) hdoes⟩
    rw [Function.update_self]
    exact if_pos rfl
  · exact h.elsewhere rfl (pendingOf_setFile_of_ne _ hgf) (by rw [hi]; rfl) rfl hgf

/-- The write that is still under way comes last. -/
theorem Turns.settles (h : Turns f node content locks changes bodies st s turns late) :
    Serially Turn.Does (turns ++ late) content (s.settled f node) ∧
      late.filterMap Turn.changed = [] := by
  have hlate := h.underway
  unfold Files.settled
  cases hpending : s.pendingOf f with
  | none =>
    rw [hpending] at hlate
    obtain rfl : late = [] := hlate
    rw [List.append_nil]
    exact ⟨h.bytes, rfl⟩
  | some e =>
    rw [hpending] at hlate
    obtain ⟨i, request, response, rfl, hdoes⟩ := hlate
    exact ⟨h.bytes.concat (hdoes _), rfl⟩

end

end P9cpu.Ninep
