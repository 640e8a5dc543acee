import NamelessCenter.Lib.Bytes
import NamelessCenter.Lib.PrefixDecoder

/-!
# The streaming interface of zlib's inflate

The compression library is not part of this repository. `Inflater` is the call the tools make and
`Inflater.Sound` is what its documentation promises of it: a call consumes at most the input it is
given, produces at most the output it has room for, stops short of its input only when the output
buffer is full, and reports `Z_STREAM_END` exactly when the consumed bytes are a complete raw
deflate stream whose inflation has all been produced. `Inflater.Complete` adds what it promises of
calls on good data: they consume no more than the stream, report its end while there is room in the
output buffer, also when they are made behind the end, and fail for corrupt data only. `ofDecoder`
turns any self-delimiting decoder into an inflater with these properties.
-/

namespace NamelessCenter.Native

open Bytes

/-- The return codes of `inflate` that the callers tell apart. -/
inductive ZRet where
  | ok
  | streamEnd
  | bufError
  | needDict
  | dataError
  | memError
  | streamError
  deriving DecidableEq, Repr

/-- The results after which decompression goes on. -/
def ZRet.proceeds : ZRet → Bool
  | .ok | .streamEnd | .bufError => true
  | _ => false

/-- A streaming decompressor. `inflate strm next_in avail_out` returns the code, the number of
input bytes consumed, the bytes produced and the new stream state. -/
structure Inflater where
  Strm : Type
  init : Strm
  inflate : Strm → Bytes → Nat → ZRet × Nat × Bytes × Strm

/-- A raw deflate decoder on whole strings. -/
abbrev RawDeflate := PrefixDecoder UInt8 UInt8

namespace Inflater

/-- What one call of `inflate` guarantees in a state that has consumed `taken` and produced
`made`, where `inv` relates such states to their history. -/
structure CallSound (Z : Inflater) (D : RawDeflate) (inv : Z.Strm → Bytes → Bytes → Prop)
    (taken made nextIn : Bytes) (availOut : Nat) (ret : ZRet) (used : Nat) (out : Bytes)
    (strm : Z.Strm) : Prop where
  used_le : used ≤ nextIn.length
  out_le : out.length ≤ availOut
  proceeds : ret.proceeds = true → inv strm (taken ++ nextIn.take used) (made ++ out)
  stream_end : ret = .streamEnd →
    D.decode (taken ++ nextIn.take used) =
      some (made ++ out, (taken ++ nextIn.take used).length)
  drained : ret.proceeds = true → ret ≠ .streamEnd → out.length < availOut →
    used = nextIn.length

/-- The streaming contract of zlib for raw deflate data. -/
def Sound (Z : Inflater) (D : RawDeflate) : Prop :=
  ∃ inv : Z.Strm → Bytes → Bytes → Prop, inv Z.init [] [] ∧
    ∀ strm taken made nextIn availOut ret used out strm', inv strm taken made → 0 < availOut →
      Z.inflate strm nextIn availOut = (ret, used, out, strm') →
      CallSound Z D inv taken made nextIn availOut ret used out strm'

/-- What a call guarantees besides when there is enough memory: the end of the stream is reported by
a call that leaves room in the output buffer, and a call fails for corrupt data only. -/
structure CallComplete (Z : Inflater) (D : RawDeflate) (inv : Z.Strm → Bytes → Bytes → Prop)
    (taken made nextIn : Bytes) (availOut : Nat) (ret : ZRet) (used : Nat) (out : Bytes)
    (strm : Z.Strm) : Prop
    extends CallSound Z D inv taken made nextIn availOut ret used out strm where
  reports : out.length < availOut → D.decode (taken ++ nextIn.take used) ≠ none → ret = .streamEnd
  corrupt : ret.proceeds = false → ∀ rest, D.decode (taken ++ nextIn ++ rest) = none

/-- The streaming contract for the history relation `inv`. No call goes beyond the end of the
stream, and what is produced is the start of its inflation; of other data, too, no more than
`factor` bytes are produced for each byte consumed. -/
structure Streams (Z : Inflater) (D : RawDeflate) (factor : Nat)
    (inv : Z.Strm → Bytes → Bytes → Prop) : Prop where
  nonempty : D.decode [] = none
  init : inv Z.init [] []
  within : ∀ {strm taken made whole used}, inv strm taken made →
    D.decode taken = some (whole, used) → used = taken.length ∧ made <+: whole
  bounded : ∀ {strm taken made}, inv strm taken made → made.length ≤ factor * taken.length
  call : ∀ {strm taken made nextIn availOut ret used out strm'}, inv strm taken made →
    0 < availOut → Z.inflate strm nextIn availOut = (ret, used, out, strm') →
    CallComplete Z D inv taken made nextIn availOut ret used out strm'

/-- The streaming contract of zlib for raw deflate data, for calls that do not run out of memory. -/
def Complete (Z : Inflater) (D : RawDeflate) : Prop := ∃ factor inv, Streams Z D factor inv

/-! ## Streaming a whole-string decoder -/

/-- The state of a buffering decompressor: all input so far and how much output was delivered. -/
structure Buffered where
  taken : Bytes
  delivered : Nat

/-- A decompressor that keeps its input until the stream is complete and then delivers the
inflation in pieces that fit the output buffer. -/
def ofDecoder (D : RawDeflate) : Inflater where
  Strm := Buffered
  init := ⟨[], 0⟩
  inflate strm nextIn availOut :=
    match D.decode (strm.taken ++ nextIn) with
    | none => (.ok, nextIn.length, [], { strm with taken := strm.taken ++ nextIn })
    | some (whole, used) =>
        let out := slice whole strm.delivered availOut
        let strm' : Buffered :=
          ⟨strm.taken ++ nextIn.take (used - strm.taken.length), strm.delivered + out.length⟩
        (if whole.length ≤ strm.delivered + availOut then .streamEnd else .ok,
          used - strm.taken.length, out, strm')

/-- The history a buffering state stands for: no stream ended strictly inside the input, and the
delivered bytes are the start of the inflation once the stream is complete. -/
def Buffered.Inv (D : RawDeflate) (strm : Buffered) (taken made : Bytes) : Prop :=
  strm.taken = taken ∧ strm.delivered = made.length ∧
    (D.decode taken = none ∧ made = [] ∨
      ∃ whole, D.decode taken = some (whole, taken.length) ∧ made <+: whole)

/-- A call of the inflater that keeps its input is right about its stream. -/
theorem of_decoder_call_sound (D : RawDeflate) {strm strm' : Buffered}
    {taken made nextIn out : Bytes} {availOut used : Nat} {ret : ZRet}
    (hinv : Buffered.Inv D strm taken made)
    (hcall : (ofDecoder D).inflate strm nextIn availOut = (ret, used, out, strm')) :
    CallSound (ofDecoder D) D (Buffered.Inv D) taken made nextIn availOut ret used out strm' := by
  obtain ⟨buffered, delivered⟩ := strm
  obtain ⟨rfl, rfl, hhistory⟩ := hinv
  cases hdecode : D.decode (buffered ++ nextIn) with
  | none =>
      have hmade : made = [] := by
        rcases hhistory with ⟨-, rfl⟩ | ⟨whole, hwhole, -⟩
        · rfl
        · rw [D.decode_append nextIn hwhole] at hdecode
          cases hdecode
      simp only [ofDecoder, hdecode, Prod.mk.injEq] at hcall
      obtain ⟨rfl, rfl, rfl, rfl⟩ := hcall
      refine ⟨Nat.le_refl _, Nat.zero_le _, fun _ => ?_, nofun, fun _ _ _ => rfl⟩
      exact ⟨by simp, by simp [hmade], .inl ⟨by simpa using hdecode, by simp [hmade]⟩⟩
  | some result =>
      obtain ⟨whole, total⟩ := result
      -- The stream cannot have ended before the bytes consumed earlier did.
      have hge : buffered.length ≤ total ∧ made <+: whole := by
        rcases hhistory with ⟨hnone, rfl⟩ | ⟨earlier, hearlier, hinitial⟩
        · refine ⟨?_, List.nil_prefix⟩
          by_contra hlt
          have hshort := D.decode_take hdecode
          rw [List.take_append_of_le_length (by omega)] at hshort
          rw [D.decode_mono (List.take_prefix _ _) hshort] at hnone
          cases hnone
        · rw [D.decode_append nextIn hearlier, Option.some.injEq, Prod.mk.injEq] at hdecode
          obtain ⟨rfl, rfl⟩ := hdecode
          exact ⟨Nat.le_refl _, hinitial⟩
      obtain ⟨hge, hinitial⟩ := hge
      have htotal : total ≤ buffered.length + nextIn.length := by
        simpa using D.used_le hdecode
      have htaken : buffered ++ nextIn.take (total - buffered.length) =
          (buffered ++ nextIn).take total := by
        rw [List.take_append, List.take_of_length_le hge]
      have hlength : (buffered ++ nextIn.take (total - buffered.length)).length = total := by
        rw [htaken, List.length_take, List.length_append]
        omega
      have hcomplete : D.decode (buffered ++ nextIn.take (total - buffered.length)) =
          some (whole, total) := by
        rw [htaken]
        exact D.decode_take hdecode
      have hmade : made = whole.take made.length := List.prefix_iff_eq_take.1 hinitial
      have hdeliver : made ++ slice whole made.length availOut =
          whole.take (made.length + availOut) := by
        rw [List.take_add, ← hmade]
        rfl
      simp only [ofDecoder, hdecode, Prod.mk.injEq] at hcall
      obtain ⟨rfl, rfl, rfl, rfl⟩ := hcall
      refine ⟨by omega, by simp, fun _ => ?_, fun hend => ?_, fun _ hgoing hshort => ?_⟩
      · refine ⟨rfl, by simp, .inr ⟨whole, ?_, ?_⟩⟩
        · rw [hlength]
          exact hcomplete
        · rw [hdeliver]
          exact List.take_prefix _ _
      · rw [hlength, hcomplete, hdeliver, List.take_of_length_le]
        by_contra hlt
        simp [hlt] at hend
      · have hlong : ¬ whole.length ≤ made.length + availOut := by
          intro hle
          simp [hle] at hgoing
        simp only [length_slice] at hshort
        omega

/-- So is the inflater that is made of a decoder of whole streams. -/
theorem of_decoder_sound (D : RawDeflate) (hempty : D.decode [] = none) :
    Sound (ofDecoder D) D :=
  ⟨Buffered.Inv D, ⟨rfl, rfl, .inl ⟨hempty, rfl⟩⟩,
    fun _ _ _ _ _ _ _ _ _ hinv _ hcall => of_decoder_call_sound D hinv hcall⟩

/-- A call that leaves room in the output buffer has delivered the rest of a complete stream. -/
theorem of_decoder_reports (D : RawDeflate) {strm strm' : Buffered} {nextIn out : Bytes}
    {availOut used : Nat} {ret : ZRet}
    (hcall : (ofDecoder D).inflate strm nextIn availOut = (ret, used, out, strm'))
    (hroom : out.length < availOut)
    (hcomplete : D.decode (strm.taken ++ nextIn.take used) ≠ none) : ret = .streamEnd := by
  cases hdecode : D.decode (strm.taken ++ nextIn) with
  | none =>
      simp only [ofDecoder, hdecode, Prod.mk.injEq] at hcall
      obtain ⟨rfl, rfl, rfl, rfl⟩ := hcall
      rw [List.take_length] at hcomplete
      exact absurd hdecode hcomplete
  | some result =>
      obtain ⟨whole, total⟩ := result
      simp only [ofDecoder, hdecode, Prod.mk.injEq] at hcall
      obtain ⟨rfl, rfl, rfl, rfl⟩ := hcall
      rw [length_slice] at hroom
      exact if_pos (by omega)

/-- No call of a buffering decompressor fails. -/
theorem of_decoder_proceeds (D : RawDeflate) {strm strm' : Buffered} {nextIn out : Bytes}
    {availOut used : Nat} {ret : ZRet}
    (hcall : (ofDecoder D).inflate strm nextIn availOut = (ret, used, out, strm')) :
    ret.proceeds = true := by
  cases hdecode : D.decode (strm.taken ++ nextIn) with
  | none =>
      simp only [ofDecoder, hdecode, Prod.mk.injEq] at hcall
      obtain ⟨rfl, rfl, rfl, rfl⟩ := hcall
      rfl
  | some result =>
      simp only [ofDecoder, hdecode, Prod.mk.injEq] at hcall
      obtain ⟨rfl, -, -, -⟩ := hcall
      split <;> rfl

/-- The history of a buffering state that has consumed a complete stream. -/
theorem Buffered.Inv.within {D : RawDeflate} {strm : Buffered} {taken made whole : Bytes}
    {used : Nat} (h : Buffered.Inv D strm taken made)
    (hdecode : D.decode taken = some (whole, used)) :
    used = taken.length ∧ made <+: whole := by
  rcases h.2.2 with ⟨hnone, -⟩ | ⟨whole', hwhole, hinitial⟩
  · rw [hdecode] at hnone
    cases hnone
  · rw [hdecode] at hwhole
    cases hwhole
    exact ⟨rfl, hinitial⟩

/-- It gets through every stream that the decoder knows. -/
theorem of_decoder_complete (D : RawDeflate) (hempty : D.decode [] = none) {factor : Nat}
    (hfactor : ∀ {bs whole : Bytes} {used : Nat}, D.decode bs = some (whole, used) →
      whole.length ≤ factor * used) : Complete (ofDecoder D) D := by
  refine ⟨factor, Buffered.Inv D, hempty, ⟨rfl, rfl, .inl ⟨hempty, rfl⟩⟩,
    fun hinv hdecode => Buffered.Inv.within hinv hdecode, fun {strm taken made} hinv => ?_,
    fun {strm taken made nextIn availOut ret used out strm'} hinv _ hcall => ?_⟩
  · rcases hinv.2.2 with ⟨-, rfl⟩ | ⟨whole, hwhole, hinitial⟩
    · exact Nat.zero_le _
    · exact hinitial.length_le.trans (hfactor hwhole)
  · refine ⟨of_decoder_call_sound D hinv hcall, fun hroom hcomplete => ?_, fun hfails => ?_⟩
    · rw [← hinv.1] at hcomplete
      exact of_decoder_reports D hcall hroom hcomplete
    · rw [of_decoder_proceeds D hcall] at hfails
      cases hfails

end Inflater

/-! ## Stored blocks -/

/-- One final stored block at the start of the input: the byte 1, the length and its complement, and
the data. -/
def decodeStored (bs : Bytes) : Option (Bytes × Nat) :=
  let len := (u16At bs 1).toNat
  if bs.take 1 = [1] ∧ u16At bs 3 = ~~~ u16At bs 1 ∧ 5 + len ≤ bs.length then
    some (slice bs 5 len, 5 + len)
  else none

/-- A stored block uses bytes that there are. -/
theorem decode_stored_used_le {bs out : Bytes} {used : Nat}
    (h : decodeStored bs = some (out, used)) : used ≤ bs.length := by
  simp only [decodeStored] at h
  split at h
  · rename_i hblock
    cases h
    exact hblock.2.2
  · cases h

/-- What follows a stored block does not matter. -/
theorem decode_stored_extend {bs out rest : Bytes} {used : Nat}
    (h : decodeStored bs = some (out, used)) :
    decodeStored (bs.take used ++ rest) = some (out, used) := by
  simp only [decodeStored] at h
  split at h
  · rename_i hblock
    obtain ⟨hfirst, hcomplement, hroom⟩ := hblock
    cases h
    have hlen : (bs.take (5 + (u16At bs 1).toNat)).length = 5 + (u16At bs 1).toNat := by
      rw [List.length_take]
      omega
    have hpart : ∀ off len, off + len ≤ 5 + (u16At bs 1).toNat →
        slice (bs.take (5 + (u16At bs 1).toNat) ++ rest) off len = slice bs off len := by
      intro off len hle
      have htake : slice (slice bs 0 (5 + (u16At bs 1).toNat)) off len =
          slice bs (0 + off) len := slice_slice hle
      rw [Nat.zero_add] at htake
      rw [slice_append_of_le (by omega), ← htake]
      rfl
    have hone : u16At (bs.take (5 + (u16At bs 1).toNat) ++ rest) 1 = u16At bs 1 := by
      rw [u16At, hpart 1 2 (by omega), u16At]
    have hthree : u16At (bs.take (5 + (u16At bs 1).toNat) ++ rest) 3 = u16At bs 3 := by
      rw [u16At, hpart 3 2 (by omega), u16At]
    have hhead : (bs.take (5 + (u16At bs 1).toNat) ++ rest).take 1 = bs.take 1 := by
      have hslice := hpart 0 1 (by omega)
      simpa [slice] using hslice
    simp only [decodeStored, hone, hthree, hhead]
    rw [if_pos ⟨hfirst, hcomplement, by rw [List.length_append]; omega⟩, hpart _ _ (Nat.le_refl _)]
  · cases h

/-- The raw deflate streams that are one final stored block. -/
def storedBlock : RawDeflate where
  decode := decodeStored
  used_le := decode_stored_used_le
  decode_extend _ h := decode_stored_extend h

/-- The inflater of stored blocks is sound. -/
theorem stored_block_sound : Inflater.Sound (.ofDecoder storedBlock) storedBlock :=
  Inflater.of_decoder_sound storedBlock (by decide)

/-- It gets through every stored block. -/
theorem stored_block_complete : Inflater.Complete (.ofDecoder storedBlock) storedBlock := by
  have hshorter : ∀ {bs whole : Bytes} {used : Nat},
      storedBlock.decode bs = some (whole, used) → whole.length ≤ 1 * used := by
    intro bs whole used h
    have hdecode : decodeStored bs = some (whole, used) := h
    simp only [decodeStored] at hdecode
    split at hdecode
    · cases hdecode
      rw [length_slice]
      omega
    · cases hdecode
  exact Inflater.of_decoder_complete storedBlock (by decide) hshorter

end NamelessCenter.Native
