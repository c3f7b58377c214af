import Mathlib.Data.List.Infix
import P9cpu.Core.Framed

/-! Readers that are polled, and a reader of length-delimited frames over one of them. -/
namespace P9cpu.Core

/-- The bytes that an answer of `poll_read` hands out. -/
def Poll.taken {ε : Type} : Poll (Except ε (List UInt8)) → List UInt8
  | .ready (.ok bytes) => bytes
  | _ => []

/-- An `AsyncRead`, which hands out no byte at its end only. -/
structure AsyncRead (ε : Type) where
  State : Type
  /-- what happens at its other end -/
  Event : Type
  /-- a read into a buffer with this much room -/
  pollRead : State → ℕ → Poll (Except ε (List UInt8)) × State
  tick : Event → State → Option State
  /-- all bytes that were handed out -/
  input : State → List UInt8
  input_pollRead : ∀ s room, input (pollRead s room).2 = input s ++ (pollRead s room).1.taken
  input_tick : ∀ e s t, tick e s = some t → input t = input s

/-! The codec. -/

/-- The errors of `LengthDelimitedCodec`. -/
inductive CodecError
  | frameTooBig
  /-- the length is less than that of its own field -/
  | lengthOverflow
  | bytesRemaining
deriving DecidableEq

inductive DecodeState
  | head
  | data (n : ℕ)
deriving DecidableEq

/-- A `LengthDelimitedCodec` and the buffer that it decodes. -/
structure Decoder where
  state : DecodeState
  src : List UInt8

namespace Decoder

def start : Decoder := ⟨.head, []⟩

/-- The length in a head of four bytes, which counts itself, and what follows the head. -/
def decodeHead (maxFrame : ℕ) (src : List UInt8) : Except CodecError (Option (ℕ × List UInt8)) :=
  if src.length < 4 then .ok none
  else
    let n := leVal (src.take 4)
    if maxFrame < n then .error .frameTooBig
    else if n < 4 then .error .lengthOverflow
    else .ok (some (n - 4, src.drop 4))

def decodeData (n : ℕ) (src : List UInt8) : Except CodecError (Option (List UInt8)) × Decoder :=
  if src.length < n then (.ok none, ⟨.data n, src⟩)
  else (.ok (some (src.take n)), ⟨.head, src.drop n⟩)

def decode (maxFrame : ℕ) (d : Decoder) : Except CodecError (Option (List UInt8)) × Decoder :=
  match d.state with
  | .data n => decodeData n d.src
  | .head =>
    match decodeHead maxFrame d.src with
    | .error e => (.error e, d)
    | .ok none => (.ok none, d)
    | .ok (some (n, src)) => decodeData n src

/-- `Decoder::decode_eof`. -/
def decodeEof (maxFrame : ℕ) (d : Decoder) :
    Except CodecError (Option (List UInt8)) × Decoder :=
  match d.decode maxFrame with
  | (.ok none, d) => if d.src = [] then (.ok none, d) else (.error .bytesRemaining, d)
  | r => r

/-- The bytes that have not become a frame: a head that was decoded is still one of them. -/
def held (d : Decoder) : List UInt8 :=
  match d.state with
  | .head => d.src
  | .data n => leBytes 4 (n + 4) ++ d.src

/-- A length that was decoded is one that the codec takes. -/
def Fits (maxFrame : ℕ) (d : Decoder) : Prop := ∀ n, d.state = .data n → n + 4 ≤ maxFrame

end Decoder

/-! What a stream of bytes says. -/

/-- The frames of a stream up to the first incomplete one, or to the first that is refused. -/
def unframe (maxFrame : ℕ) (bs : List UInt8) : List (List UInt8) × Option CodecError :=
  if bs.length < 4 then ([], none)
  else if maxFrame < leVal (bs.take 4) then ([], some .frameTooBig)
  else if leVal (bs.take 4) < 4 then ([], some .lengthOverflow)
  else if bs.length < leVal (bs.take 4) then ([], none)
  else
    let rest := unframe maxFrame (bs.drop (leVal (bs.take 4)))
    ((bs.take (leVal (bs.take 4))).drop 4 :: rest.1, rest.2)
termination_by bs.length
decreasing_by
  rw [List.length_drop]
  omega

section
variable {maxFrame : ℕ} {payload bs : List UInt8}

theorem unframe_complete (hmax : leVal (bs.take 4) ≤ maxFrame) (h4 : 4 ≤ leVal (bs.take 4))
    (hlen : leVal (bs.take 4) ≤ bs.length) : unframe maxFrame bs =
      ((bs.take (leVal (bs.take 4))).drop 4 :: (unframe maxFrame (bs.drop (leVal (bs.take 4)))).1,
        (unframe maxFrame (bs.drop (leVal (bs.take 4)))).2) := by
  rw [unframe, if_neg (by omega), if_neg (by omega), if_neg (by omega), if_neg (by omega)]

/-- The first bytes of a stream stay the same when more come. -/
theorem take_mono {cs : List UInt8} {n : ℕ} (h : bs <+: cs) (hn : n ≤ bs.length) :
    cs.take n = bs.take n := by
  obtain ⟨rest, rfl⟩ := h
  exact List.take_append_of_le_length hn

/-- More bytes change neither the frames that are complete nor a refusal. -/
theorem unframe_mono (maxFrame : ℕ) {bs cs : List UInt8} (h : bs <+: cs) :
    (unframe maxFrame bs).1 <+: (unframe maxFrame cs).1 ∧
      ∀ e, (unframe maxFrame bs).2 = some e → unframe maxFrame cs = unframe maxFrame bs := by
  induction bs using unframe.induct maxFrame generalizing cs with
  | case1 bs hshort =>
    rw [unframe, if_pos hshort]
    exact ⟨List.nil_prefix, fun e he => nomatch he⟩
  | case2 bs hshort hbig =>
    have hhead : cs.take 4 = bs.take 4 := take_mono h (by omega)
    have hlen := h.length_le
    have hcs : unframe maxFrame cs = ([], some .frameTooBig) := by
      rw [unframe, hhead, if_neg (by omega), if_pos hbig]
    rw [hcs, unframe, if_neg hshort, if_pos hbig]
    exact ⟨List.prefix_rfl, fun e _ => rfl⟩
  | case3 bs hshort hbig hsmall =>
    have hhead : cs.take 4 = bs.take 4 := take_mono h (by omega)
    have hlen := h.length_le
    have hcs : unframe maxFrame cs = ([], some .lengthOverflow) := by
      rw [unframe, hhead, if_neg (by omega), if_neg hbig, if_pos hsmall]
    rw [hcs, unframe, if_neg hshort, if_neg hbig, if_pos hsmall]
    exact ⟨List.prefix_rfl, fun e _ => rfl⟩
  | case4 bs hshort hbig hsmall hcut =>
    rw [unframe, if_neg hshort, if_neg hbig, if_neg hsmall, if_pos hcut]
    exact ⟨List.nil_prefix, fun e he => nomatch he⟩
  | case5 bs hshort hbig hsmall hcut ih =>
    have hhead : cs.take 4 = bs.take 4 := take_mono h (by omega)
    have htake : cs.take (leVal (bs.take 4)) = bs.take (leVal (bs.take 4)) :=
      take_mono h (by omega)
    have hlen := h.length_le
    obtain ⟨hframes, herror⟩ := ih (h.drop (leVal (bs.take 4)))
    have hbs := unframe_complete (not_lt.mp hbig) (not_lt.mp hsmall) (not_lt.mp hcut)
    have hcs : unframe maxFrame cs = _ :=
      unframe_complete (by rw [hhead]; omega) (by rw [hhead]; omega) (by rw [hhead]; omega)
    rw [hbs, hcs, hhead, htake]
    constructor
    · exact (List.prefix_cons_inj _).mpr hframes
    · intro e he
      rw [herror e he]

theorem length_frame (payload : List UInt8) : (frame payload).length = payload.length + 4 := by
  unfold frame
  rw [List.length_append, length_leBytes]
  omega

theorem drop_frame (payload : List UInt8) : (frame payload).drop 4 = payload := by
  have hlen : (leBytes 4 (payload.length + 4)).length = 4 := length_leBytes 4 _
  exact List.drop_left' hlen

/-- The head of a frame. -/
theorem leVal_take_frame (h : payload.length + 4 < 2 ^ 32) (bs : List UInt8) :
    leVal ((frame payload ++ bs).take 4) = payload.length + 4 := by
  have hlen := length_frame payload
  rw [List.take_append_of_le_length (by omega), leVal_frame h, hlen]

/-- A stream that starts with a frame. -/
theorem unframe_frame (hmax : maxFrame < 2 ^ 32) (h : payload.length + 4 ≤ maxFrame)
    (bs : List UInt8) : unframe maxFrame (frame payload ++ bs) =
      (payload :: (unframe maxFrame bs).1, (unframe maxFrame bs).2) := by
  have hlen := length_frame payload
  have hhead : leVal ((frame payload ++ bs).take 4) = payload.length + 4 :=
    leVal_take_frame (by omega) bs
  have htake : (frame payload ++ bs).take (payload.length + 4) = frame payload :=
    List.take_left' hlen
  have hdrop : (frame payload ++ bs).drop (payload.length + 4) = bs := List.drop_left' hlen
  rw [unframe, hhead, htake, hdrop, drop_frame, List.length_append, hlen,
    if_neg (by omega), if_neg (by omega), if_neg (by omega), if_neg (by omega)]

theorem unframe_frames (hmax : maxFrame < 2 ^ 32) {payloads : List (List UInt8)}
    (h : ∀ p ∈ payloads, p.length + 4 ≤ maxFrame) (bs : List UInt8) :
    unframe maxFrame (payloads.flatMap frame ++ bs) =
      (payloads ++ (unframe maxFrame bs).1, (unframe maxFrame bs).2) := by
  induction payloads with
  | nil => rfl
  | cons p ps ih =>
    have hrest := ih fun q hq => h q (List.mem_cons_of_mem p hq)
    rw [List.flatMap_cons, List.append_assoc, unframe_frame hmax (h p List.mem_cons_self), hrest]
    rfl

/-- A stream that is cut off in its first frame has no frame, and no error. -/
theorem unframe_of_lt (hmax : maxFrame < 2 ^ 32) (h : payload.length + 4 ≤ maxFrame)
    (hbs : bs <+: frame payload) (hlt : bs.length < payload.length + 4) :
    unframe maxFrame bs = ([], none) := by
  have hval : 4 ≤ bs.length → leVal (bs.take 4) = payload.length + 4 := by
    intro hlen
    have htake : bs.take 4 = (frame payload).take 4 := (take_mono hbs hlen).symm
    rw [htake, leVal_frame (by omega), length_frame]
  rw [unframe]
  split_ifs with hshort hbig hsmall hcut
  · rfl
  · have := hval (by omega)
    omega
  · have := hval (by omega)
    omega
  · rfl
  · have := hval (by omega)
    omega

end

namespace Decoder

variable {maxFrame : ℕ}

/-- What `decode` does with the bytes that have not become a frame. -/
inductive Decodes (maxFrame : ℕ) (bs : List UInt8) :
    Except CodecError (Option (List UInt8)) → Decoder → Prop
  | frame (payload : List UInt8) (d : Decoder) (hheld : bs = frame payload ++ d.held)
      (hfits : payload.length + 4 ≤ maxFrame) (hstate : d.state = .head) :
      Decodes maxFrame bs (.ok (some payload)) d
  | waits (d : Decoder) (hheld : d.held = bs) (hnone : unframe maxFrame bs = ([], none))
      (hfits : d.Fits maxFrame) : Decodes maxFrame bs (.ok none) d
  | refused (e : CodecError) (d : Decoder) (hheld : d.held = bs)
      (herror : unframe maxFrame bs = ([], some e)) (hfits : d.Fits maxFrame) :
      Decodes maxFrame bs (.error e) d

theorem decodes_data (hmax : maxFrame < 2 ^ 32) {n : ℕ} (hn : n + 4 ≤ maxFrame)
    (src : List UInt8) :
    Decodes maxFrame (leBytes 4 (n + 4) ++ src) (decodeData n src).1 (decodeData n src).2 := by
  unfold decodeData
  split_ifs with hlt
  · apply Decodes.waits
    · rfl
    · -- some payload of the length that the head announces
      let payload := src ++ List.replicate (n - src.length) 0
      have hlen : payload.length = n := by
        simp [payload]
        omega
      have hframe : leBytes 4 (n + 4) ++ src <+: Core.frame payload := by
        unfold Core.frame
        rw [hlen, ← List.append_assoc]
        exact List.prefix_append _ _
      have hlt' : (leBytes 4 (n + 4) ++ src).length < payload.length + 4 := by
        rw [List.length_append, length_leBytes]
        omega
      exact unframe_of_lt hmax (by omega) hframe hlt'
    · intro m hm
      cases hm
      exact hn
  · have hlen : (src.take n).length = n := by
      rw [List.length_take]
      omega
    apply Decodes.frame
    · unfold Core.frame held
      rw [hlen, List.append_assoc, List.take_append_drop]
    · omega
    · rfl

/-- The spec of `decode`. -/
theorem decodes (hmax : maxFrame < 2 ^ 32) {d : Decoder} (hd : d.Fits maxFrame) :
    Decodes maxFrame d.held (d.decode maxFrame).1 (d.decode maxFrame).2 := by
  obtain ⟨state, src⟩ := d
  cases state with
  | data n => exact decodes_data hmax (hd n rfl) src
  | head =>
    have hstart : Fits maxFrame ⟨.head, src⟩ := by
      intro n hn
      cases hn
    simp only [decode, decodeHead, held]
    by_cases hshort : src.length < 4
    · rw [if_pos hshort]
      have hnone : unframe maxFrame src = ([], none) := by rw [unframe, if_pos hshort]
      exact .waits _ rfl hnone hstart
    · rw [if_neg hshort]
      by_cases hbig : maxFrame < leVal (src.take 4)
      · rw [if_pos hbig]
        have herror : unframe maxFrame src = ([], some .frameTooBig) := by
          rw [unframe, if_neg hshort, if_pos hbig]
        exact .refused _ _ rfl herror hstart
      · rw [if_neg hbig]
        by_cases hsmall : leVal (src.take 4) < 4
        · rw [if_pos hsmall]
          have herror : unframe maxFrame src = ([], some .lengthOverflow) := by
            rw [unframe, if_neg hshort, if_neg hbig, if_pos hsmall]
          exact .refused _ _ rfl herror hstart
        · rw [if_neg hsmall]
          -- the length without its field, and the field again
          have hn : leVal (src.take 4) - 4 + 4 = leVal (src.take 4) := by omega
          have hhead : leBytes 4 (leVal (src.take 4)) = src.take 4 := by
            have htake := leBytes_leVal (src.take 4)
            rwa [List.length_take, min_eq_left (by omega)] at htake
          have hle : leVal (src.take 4) - 4 + 4 ≤ maxFrame := by omega
          have hdata := decodes_data hmax hle (src.drop 4)
          rwa [hn, hhead, List.take_append_drop] at hdata

end Decoder

/-! The reader. -/

/-- How one turn of the loop in `poll_next` ends. -/
inductive Polled (ε : Type)
  | again
  | pending
  | item (payload : List UInt8)
  | failed (e : CodecError ⊕ ε)
  | ended

/-- A `FramedRead`: a reader, and the bytes that were taken from it. -/
structure FramedRead {ε : Type} (A : AsyncRead ε) where
  inner : A.State
  decoder : Decoder
  eof : Bool
  isReadable : Bool
  hasErrored : Bool

namespace FramedRead

variable {ε : Type} {A : AsyncRead ε} {maxFrame : ℕ}

def new (inner : A.State) : FramedRead A := ⟨inner, .start, false, false, false⟩

/-- `decode`, or `decode_eof` once the reader is at its end. -/
def decodeNext (maxFrame : ℕ) (self : FramedRead A) :
    Except CodecError (Option (List UInt8)) × Decoder :=
  if self.eof then self.decoder.decodeEof maxFrame else self.decoder.decode maxFrame

/-- One turn of the loop in `poll_next`, with this much room for a read. -/
def turn (maxFrame room : ℕ) (self : FramedRead A) : Polled ε × FramedRead A :=
  if self.hasErrored then (.ended, { self with isReadable := false, hasErrored := false })
  else if self.isReadable then
    match self.decodeNext maxFrame with
    | (.error e, decoder) => (.failed (.inl e), { self with decoder := decoder, hasErrored := true })
    | (.ok (some payload), decoder) => (.item payload, { self with decoder := decoder })
    | (.ok none, decoder) =>
      (if self.eof then .ended else .again, { self with decoder := decoder, isReadable := false })
  else
    match A.pollRead self.inner room with
    | (.pending, inner) => (.pending, { self with inner := inner })
    | (.ready (.error e), inner) =>
      (.failed (.inr e), { self with inner := inner, hasErrored := true })
    | (.ready (.ok []), inner) =>
      if self.eof then (.ended, { self with inner := inner })
      else (.again, { self with inner := inner, eof := true, isReadable := true })
    | (.ready (.ok bytes), inner) =>
      (.again, { self with
        inner := inner, decoder.src := self.decoder.src ++ bytes, eof := false, isReadable := true })

/-- The bytes read are the frames handed out, then the bytes held; when it reads on, what it holds
is no frame yet. -/
structure Framing (maxFrame : ℕ) (items : List (List UInt8)) (r : FramedRead A) : Prop where
  input : A.input r.inner = items.flatMap frame ++ r.decoder.held
  items : ∀ p ∈ items, p.length + 4 ≤ maxFrame
  fits : r.decoder.Fits maxFrame
  settled : r.isReadable = false → unframe maxFrame r.decoder.held = ([], none)
  running : r.hasErrored = false

/-- It ends where the bytes held begin with no frame; an error of the codec is theirs. -/
structure Stopped (maxFrame : ℕ) (items : List (List UInt8)) (e : Option (CodecError ⊕ ε))
    (r : FramedRead A) : Prop where
  input : A.input r.inner = items.flatMap frame ++ r.decoder.held
  items : ∀ p ∈ items, p.length + 4 ≤ maxFrame
  error : ∃ refused, unframe maxFrame r.decoder.held = ([], refused) ∧
    ∀ c, refused = some c → e = some (.inl c)

/-- What is known after a turn. -/
def After (maxFrame : ℕ) (items : List (List UInt8)) (r : FramedRead A) : Polled ε → Prop
  | .again | .pending => r.Framing maxFrame items
  | .item payload => r.Framing maxFrame (items ++ [payload])
  | .failed e => r.Stopped maxFrame items (some e)
  | .ended => r.Stopped maxFrame items none

theorem framing_new {inner : A.State} (h : A.input inner = []) :
    (new inner).Framing maxFrame [] := by
  refine ⟨h, by simp, fun n hn => ?_, fun _ => ?_, rfl⟩
  · cases hn
  · change unframe maxFrame [] = ([], none)
    rw [unframe, if_pos (by simp)]

variable {items : List (List UInt8)} {self : FramedRead A}

/-- `decode_eof` is `decode`, or the complaint about the rest. -/
theorem decodes_eof (hmax : maxFrame < 2 ^ 32) {d : Decoder} (hd : d.Fits maxFrame) :
    Decoder.Decodes maxFrame d.held (d.decodeEof maxFrame).1 (d.decodeEof maxFrame).2 ∨
      (d.decodeEof maxFrame).1 = .error .bytesRemaining ∧
        (d.decodeEof maxFrame).2.held = d.held ∧ unframe maxFrame d.held = ([], none) := by
  have hdecodes := Decoder.decodes hmax hd
  unfold Decoder.decodeEof
  rcases hresult : d.decode maxFrame with ⟨e | _ | payload, d'⟩
  · rw [hresult] at hdecodes
    exact .inl hdecodes
  · rw [hresult] at hdecodes
    dsimp only at hdecodes ⊢
    split_ifs
    · exact .inl hdecodes
    · cases hdecodes with
      | waits _ hheld hnone hfits => exact .inr ⟨rfl, hheld, hnone⟩
  · rw [hresult] at hdecodes
    exact .inl hdecodes

/-- The bytes of a read come behind those that are held. -/
theorem held_append (d : Decoder) (bytes : List UInt8) :
    ({ d with src := d.src ++ bytes } : Decoder).held = d.held ++ bytes := by
  unfold Decoder.held
  cases d.state with
  | head => rfl
  | data n => exact (List.append_assoc _ _ _).symm

theorem after_turn (hmax : maxFrame < 2 ^ 32) (h : self.Framing maxFrame items) (room : ℕ) :
    (self.turn maxFrame room).2.After maxFrame items (self.turn maxFrame room).1 := by
  have hrunning : ¬ self.hasErrored = true := by simp [h.running]
  unfold turn
  rw [if_neg hrunning]
  by_cases hreadable : self.isReadable = true
  · rw [if_pos hreadable]
    have hdecodes : Decoder.Decodes maxFrame self.decoder.held (self.decodeNext maxFrame).1
          (self.decodeNext maxFrame).2 ∨
        (self.decodeNext maxFrame).1 = .error .bytesRemaining ∧
          (self.decodeNext maxFrame).2.held = self.decoder.held ∧
          unframe maxFrame self.decoder.held = ([], none) := by
      unfold decodeNext
      cases self.eof with
      | true => exact decodes_eof hmax h.fits
      | false => exact .inl (Decoder.decodes hmax h.fits)
    rcases hresult : self.decodeNext maxFrame with ⟨e | _ | payload, d⟩
    all_goals
      rw [hresult] at hdecodes
      dsimp only at hdecodes ⊢
    · rcases hdecodes with hdecodes | ⟨-, hheld, hnone⟩
      · cases hdecodes with
        | refused _ _ hheld herror hfits =>
          refine ⟨hheld ▸ h.input, h.items, some e, hheld ▸ herror, ?_⟩
          rintro c hc
          cases hc
          rfl
      · exact ⟨hheld ▸ h.input, h.items, none, hheld ▸ hnone, by simp⟩
    · rcases hdecodes with hdecodes | ⟨hbad, -⟩
      · cases hdecodes with
        | waits _ hheld hnone hfits =>
          cases self.eof with
          | true => exact ⟨hheld ▸ h.input, h.items, none, hheld ▸ hnone, by simp⟩
          | false => exact ⟨hheld ▸ h.input, h.items, hfits, fun _ => hheld ▸ hnone, h.running⟩
      · cases hbad
    · rcases hdecodes with hdecodes | ⟨hbad, -⟩
      · cases hdecodes with
        | frame _ _ hheld hpayload hstate =>
          refine ⟨?_, ?_, ?_, fun hfalse => ?_, h.running⟩
          · dsimp only
            rw [h.input, hheld, List.flatMap_append, List.flatMap_singleton, List.append_assoc]
          · intro p hp
            rcases List.mem_append.mp hp with hp | hp
            · exact h.items p hp
            · obtain rfl := List.mem_singleton.mp hp
              exact hpayload
          · intro n hn
            dsimp only at hn
            rw [hstate] at hn
            cases hn
          · exact absurd (hreadable.symm.trans hfalse) (by simp)
      · cases hbad
  · rw [if_neg hreadable]
    have hnone := h.settled (by simpa using hreadable)
    have hinput := A.input_pollRead self.inner room
    rw [h.input] at hinput
    rcases hpoll : A.pollRead self.inner room with ⟨(e | _ | ⟨b, bytes⟩) | _, inner⟩
    all_goals
      rw [hpoll] at hinput
      dsimp only [Poll.taken] at hinput ⊢
      try rw [List.append_nil] at hinput
    · exact ⟨hinput, h.items, none, hnone, by simp⟩
    · cases self.eof with
      | true => exact ⟨hinput, h.items, none, hnone, by simp⟩
      | false => exact ⟨hinput, h.items, h.fits, fun _ => hnone, h.running⟩
    · refine ⟨?_, h.items, h.fits, fun hfalse => ?_, h.running⟩
      · dsimp only
        rw [hinput, held_append, List.append_assoc]
      · cases hfalse
    · exact ⟨hinput, h.items, h.fits, fun _ => hnone, h.running⟩

/-- Handing out frames is a matter of the bytes alone, however they arrive. -/
theorem Framing.unframe_input (hmax : maxFrame < 2 ^ 32) (h : self.Framing maxFrame items) :
    items <+: (unframe maxFrame (A.input self.inner)).1 ∧
      (self.isReadable = false → unframe maxFrame (A.input self.inner) = (items, none)) := by
  have hinput := unframe_frames hmax h.items self.decoder.held
  rw [← h.input] at hinput
  rw [hinput]
  refine ⟨List.prefix_append _ _, fun hreadable => ?_⟩
  rw [h.settled hreadable, List.append_nil]

theorem Stopped.unframe_input (hmax : maxFrame < 2 ^ 32) {e : Option (CodecError ⊕ ε)}
    (h : self.Stopped maxFrame items e) : (unframe maxFrame (A.input self.inner)).1 = items := by
  have hinput := unframe_frames hmax h.items self.decoder.held
  obtain ⟨refused, hrefused, -⟩ := h.error
  rw [← h.input, hrefused, List.append_nil] at hinput
  rw [hinput]

/-- A turn decodes or reads. It sees the end of the reader in a read that hands out nothing. -/
theorem inner_of_turn (maxFrame : ℕ) (self : FramedRead A) (room : ℕ) :
    (self.turn maxFrame room).2.inner = self.inner ∧
        (self.turn maxFrame room).2.eof = self.eof ∨
      (self.turn maxFrame room).2.inner = (A.pollRead self.inner room).2 ∧
        ((self.turn maxFrame room).2.eof = true → self.eof = true ∨
          (A.pollRead self.inner room).1 = .ready (.ok [])) := by
  unfold turn
  by_cases herrored : self.hasErrored = true
  · rw [if_pos herrored]
    exact .inl ⟨rfl, rfl⟩
  rw [if_neg herrored]
  by_cases hreadable : self.isReadable = true
  · rw [if_pos hreadable]
    left
    rcases self.decodeNext maxFrame with ⟨e | _ | payload, d⟩ <;> exact ⟨rfl, rfl⟩
  · rw [if_neg hreadable]
    right
    rcases hpoll : A.pollRead self.inner room with ⟨(e | _ | ⟨b, bytes⟩) | _, inner⟩
    · exact ⟨rfl, fun h => .inl h⟩
    · cases self.eof with
      | true => exact ⟨rfl, fun _ => .inl rfl⟩
      | false => exact ⟨rfl, fun _ => .inr rfl⟩
    · exact ⟨rfl, fun h => nomatch h⟩
    · exact ⟨rfl, fun h => .inl h⟩

/-- It stops at the end of the reader, at a frame that the codec refuses, or at an error. -/
theorem stop_of_turn (hmax : maxFrame < 2 ^ 32) (h : self.Framing maxFrame items) {room : ℕ}
    {p : Polled ε} {r : FramedRead A} (hturn : self.turn maxFrame room = (p, r))
    (hp : p = .ended ∨ ∃ e, p = .failed e) :
    r.eof = true ∨ (∃ c, (unframe maxFrame (A.input r.inner)).2 = some c) ∨
      ∃ e, (A.pollRead self.inner room).1 = .ready (.error e) := by
  have hrunning : ¬ self.hasErrored = true := by simp [h.running]
  have hinput : unframe maxFrame (A.input self.inner) =
      (items ++ (unframe maxFrame self.decoder.held).1,
        (unframe maxFrame self.decoder.held).2) := by
    rw [h.input]
    exact unframe_frames hmax h.items _
  unfold turn at hturn
  rw [if_neg hrunning] at hturn
  by_cases hreadable : self.isReadable = true
  · rw [if_pos hreadable] at hturn
    cases heof : self.eof with
    | true =>
      left
      rcases hnext : self.decodeNext maxFrame with ⟨e | _ | payload, d⟩ <;>
        rw [hnext] at hturn <;> cases hturn <;> exact heof
    | false =>
      right
      left
      have hdecodes := Decoder.decodes hmax h.fits
      have hnext : self.decodeNext maxFrame = self.decoder.decode maxFrame := by
        unfold decodeNext
        rw [heof]
        rfl
      rw [hnext] at hturn
      rcases hresult : self.decoder.decode maxFrame with ⟨e | _ | payload, d⟩
      all_goals
        rw [hresult] at hturn hdecodes
        cases hturn
      · cases hdecodes with
        | refused _ _ _ herror _ => exact ⟨e, by rw [hinput, herror]⟩
      · rw [heof] at hp
        simp at hp
      · simp at hp
  · rw [if_neg hreadable] at hturn
    rcases hpoll : A.pollRead self.inner room with ⟨(e | _ | ⟨b, bytes⟩) | _, inner⟩
    all_goals rw [hpoll] at hturn
    · exact .inr (.inr ⟨e, rfl⟩)
    · left
      cases heof : self.eof with
      | true =>
        rw [heof] at hturn
        cases hturn
        rfl
      | false =>
        rw [heof] at hturn
        cases hturn
        rfl
    · cases hturn
      simp at hp
    · cases hturn
      simp at hp

end FramedRead
end P9cpu.Core
