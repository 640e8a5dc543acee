import NamelessCenter.Zip.Transfer

/-!
# Decompression in chunks

Reads of a file may return it in chunks of any size. However they split it, and wherever the output
buffer is full, `xdecompress` writes the inflation of the stream at its input offset, or returns 0
if none ends within the file (`xdecompress_one_shot`).
-/

namespace NamelessCenter.Zip

open Bytes Native

/-- Two regular files, with the number of reads so far. -/
structure Chunked extends Files where
  reads : Nat

/-- The device on which the reads return no more than the given numbers of bytes, and nothing
fails. -/
def chunkDevice (splits : Nat → Nat) : Device Chunked where
  read s wanted :=
    let data := slice s.input s.inPos (min wanted (splits s.reads))
    (some data, { s with inPos := s.inPos + data.length, reads := s.reads + 1 })
  write s buf count :=
    let (written, files) := fileDevice.write s.toFiles buf count
    (written, { s with toFiles := files })
  memory _ := []

section Loops

variable {Z : Inflater} {D : RawDeflate} {factor : Nat} {inv : Z.Strm → Bytes → Bytes → Prop}

/-- An inflater that is right about streams keeps to what it has consumed. -/
theorem respects_of_streams (hZ : Inflater.Streams Z D factor inv) : Respects Z D inv :=
  fun _ _ _ _ _ _ _ _ _ hinv hpos hcall => (hZ.call hinv hpos hcall).toCallSound

/-! ## The inner loop -/

/-- The inner loop does not read. -/
theorem inflate_loop_chunked (splits : Nat → Nat) (fuel : Nat) (strm : Z.Strm) (nextIn : Bytes)
    (s : Chunked) :
    inflateLoop Z (chunkDevice splits) fuel strm nextIn s =
      (inflateLoop Z fileDevice fuel strm nextIn s.toFiles).map
        fun result => (result.1, { s with toFiles := result.2 }) := by
  induction fuel generalizing strm nextIn s with
  | zero => rfl
  | succ fuel ih =>
      rw [inflateLoop, inflateLoop]
      rcases Z.inflate strm nextIn CHUNK with ⟨ret, used, out, strm'⟩
      have hwrite : (chunkDevice splits).write s out (UInt64.ofNat out.length) =
          ((fileDevice.write s.toFiles out (UInt64.ofNat out.length)).1,
            { s with
              toFiles := (fileDevice.write s.toFiles out (UInt64.ofNat out.length)).2 }) := rfl
      rcases hfile : fileDevice.write s.toFiles out (UInt64.ofNat out.length) with ⟨written, files⟩
      rw [hfile] at hwrite
      simp only [hwrite, hfile]
      split
      · split
        · split
          · exact ih strm' (nextIn.drop used) { s with toFiles := files }
          · rfl
        · rfl
      · rfl

/-- With enough rounds the inner loop ends. It fails only if no stream starts with its input, and if
it asks for more input, none has ended in what it has got. -/
theorem inflate_loop_complete (hZ : Inflater.Streams Z D factor inv) {fuel : Nat} {strm : Z.Strm}
    {taken made nextIn : Bytes} {s : Files} (hinv : inv strm taken made)
    (hfuel : factor * (taken ++ nextIn).length < fuel + made.length) :
    ∃ result s', inflateLoop Z fileDevice fuel strm nextIn s = some (result, s') ∧
      (result = none → ∀ rest, D.decode (taken ++ nextIn ++ rest) = none) ∧
      ∀ ret strm', result = some (ret, strm') → ret ≠ .streamEnd →
        D.decode (taken ++ nextIn) = none := by
  induction fuel generalizing strm taken made nextIn s with
  | zero =>
      have hbound := hZ.bounded hinv
      have hmono : factor * taken.length ≤ factor * (taken ++ nextIn).length :=
        Nat.mul_le_mul_left factor (by rw [List.length_append]; omega)
      omega
  | succ fuel ih =>
      obtain ⟨code, used, out, strm₁, hcall⟩ :
          ∃ code used out strm₁, Z.inflate strm nextIn CHUNK = (code, used, out, strm₁) :=
        ⟨_, _, _, _, rfl⟩
      have hsound := hZ.call hinv (by decide) hcall
      simp only [inflateLoop, hcall, file_device_write hsound.out_le]
      cases hproceeds : code.proceeds with
      | false =>
          refine ⟨none, s, if_neg (by decide), fun _ => hsound.corrupt hproceeds, ?_⟩
          intro ret strm' hresult
          cases hresult
      | true =>
          have hinv₁ := hsound.proceeds hproceeds
          have hsplit : taken ++ nextIn.take used ++ nextIn.drop used = taken ++ nextIn := by
            rw [List.append_assoc, List.take_append_drop]
          simp only [↓reduceIte]
          by_cases hfull : out.length = CHUNK
          · have hchunk : 0 < CHUNK := by decide
            have hmade : (made ++ out).length = made.length + out.length := List.length_append
            obtain ⟨result, s', hrun, hfails, hmore⟩ := ih
              (s := { s with
                output := splice s.output s.outPos out
                outPos := s.outPos + out.length })
              hinv₁ (by rw [hsplit]; omega)
            rw [hsplit] at hfails hmore
            exact ⟨result, s', by rw [if_pos hfull, hrun], hfails, hmore⟩
          · refine ⟨some (code, strm₁), _, if_neg hfull, (absurd · (Option.some_ne_none _)), ?_⟩
            intro ret strm' hresult hgoing
            cases hresult
            have hroom : out.length < CHUNK := lt_of_le_of_ne hsound.out_le hfull
            have hdrained := hsound.drained hproceeds hgoing hroom
            have hreports := hsound.reports hroom
            rw [hdrained, List.take_length] at hreports
            by_contra hended
            exact hgoing (hreports hended)

/-! ## The outer loop -/

/-- One round of the outer loop. -/
theorem xdecompress_loop_chunked (splits : Nat → Nat) (inner fuel : Nat) (ret : ZRet)
    (strm : Z.Strm) (s : Chunked) :
    xdecompressLoop Z (chunkDevice splits) inner (fuel + 1) ret strm s =
      let data := slice s.input s.inPos (min CHUNK (splits s.reads))
      let s := { s with inPos := s.inPos + data.length, reads := s.reads + 1 }
      if data = [] then some (ret == .streamEnd, s)
      else
        match inflateLoop Z fileDevice inner strm data s.toFiles with
        | none => none
        | some (none, files) => some (false, { s with toFiles := files })
        | some (some (ret, strm), files) =>
            if ret = .streamEnd then some (true, { s with toFiles := files })
            else xdecompressLoop Z (chunkDevice splits) inner fuel ret strm
              { s with toFiles := files } := by
  rw [xdecompressLoop]
  have hread : (chunkDevice splits).read s CHUNK =
      (some (slice s.input s.inPos (min CHUNK (splits s.reads))),
        { s with
          inPos := s.inPos + (slice s.input s.inPos (min CHUNK (splits s.reads))).length
          reads := s.reads + 1 }) := rfl
  rw [hread]
  cases slice s.input s.inPos (min CHUNK (splits s.reads)) with
  | nil => rfl
  | cons b bs =>
      simp only [List.cons_ne_nil, if_false, inflate_loop_chunked]
      rcases inflateLoop Z fileDevice inner strm (b :: bs)
        { s.toFiles with inPos := s.inPos + (b :: bs).length } with _ | ⟨_ | ⟨code, strm₁⟩, files⟩
      · rfl
      · rfl
      · rfl

/-- What the loops have consumed and written when the outer loop reads. -/
structure Consumed (D : RawDeflate) (inv : Z.Strm → Bytes → Bytes → Prop) (fdOut : Bytes)
    (offsetIn offsetOut : Nat) (strm : Z.Strm) (taken made : Bytes) (s : Files) : Prop
    extends Written inv fdOut offsetOut strm taken made s where
  inPos : s.inPos = offsetIn + taken.length
  taken_eq : taken = slice s.input offsetIn taken.length
  going : D.decode taken = none

section Consumed

variable {fdOut : Bytes} {offsetIn offsetOut : Nat} {strm : Z.Strm} {taken made : Bytes} {s : Files}

/-- What is read next follows what has been consumed. -/
theorem Consumed.extend (hs : Consumed D inv fdOut offsetIn offsetOut strm taken made s) (n : Nat) :
    taken ++ slice s.input s.inPos n =
      slice s.input offsetIn (taken.length + (slice s.input s.inPos n).length) := by
  rw [slice_add, ← hs.taken_eq, ← hs.inPos, slice_length_slice]

/-- What is left of the input: the bytes taken, the next ones and the rest. -/
theorem Consumed.input_eq (hs : Consumed D inv fdOut offsetIn offsetOut strm taken made s)
    (n : Nat) :
    ∃ rest, s.input.drop offsetIn = taken ++ slice s.input s.inPos n ++ rest := by
  rw [hs.extend]
  exact ⟨_, drop_eq_slice_append _ _ _⟩

/-- At the end of the file no stream has ended, so that none does. -/
theorem Consumed.at_end (hs : Consumed D inv fdOut offsetIn offsetOut strm taken made s)
    (hend : s.input.length ≤ s.inPos) : D.decode (s.input.drop offsetIn) = none := by
  have hall : s.input.drop offsetIn = taken := by
    rw [drop_eq_slice_append _ _ taken.length, ← hs.taken_eq, ← hs.inPos,
      List.drop_eq_nil_of_le hend, List.append_nil]
  rw [hall, hs.going]

end Consumed

/-- The result of the outer loop and its output are those of the decoder on the whole input. -/
structure Agrees (D : RawDeflate) (input fdOut : Bytes) (offsetOut : Nat) (ok : Bool)
    (output : Bytes) : Prop where
  inflated : ok = true →
    ∃ out used, D.decode input = some (out, used) ∧ output = splice fdOut offsetOut out
  failed : ok = false → D.decode input = none

/-- It succeeds exactly if the input starts with a stream. -/
theorem Agrees.ok_iff {input fdOut output : Bytes} {offsetOut : Nat} {ok : Bool}
    (h : Agrees D input fdOut offsetOut ok output) :
    ok = true ↔ ∃ out used, D.decode input = some (out, used) := by
  constructor
  · intro hok
    obtain ⟨out, used, hdecode, -⟩ := h.inflated hok
    exact ⟨out, used, hdecode⟩
  · rintro ⟨out, used, hdecode⟩
    by_contra hfalse
    rw [h.failed (Bool.eq_false_of_not_eq_true hfalse)] at hdecode
    cases hdecode

/-- With enough rounds the outer loop ends, and agrees with the decoder. -/
theorem xdecompress_loop_complete (hZ : Inflater.Streams Z D factor inv) {splits : Nat → Nat}
    (hsplits : ∀ n, 0 < splits n) {fdOut : Bytes} {offsetIn offsetOut inner fuel : Nat}
    {ret : ZRet} {strm : Z.Strm} {taken made : Bytes} {s : Chunked}
    (hs : Consumed D inv fdOut offsetIn offsetOut strm taken made s.toFiles)
    (hret : ret ≠ .streamEnd) (hinner : factor * s.input.length < inner)
    (hfuel : s.input.length - s.inPos < fuel) :
    ∃ ok s', xdecompressLoop Z (chunkDevice splits) inner fuel ret strm s = some (ok, s') ∧
      Agrees D (s.input.drop offsetIn) fdOut offsetOut ok s'.output := by
  induction fuel generalizing ret strm taken made s with
  | zero => omega
  | succ fuel ih =>
      rw [xdecompress_loop_chunked]
      have hextend := hs.extend (min CHUNK (splits s.reads))
      obtain ⟨rest, hinput⟩ := hs.input_eq (min CHUNK (splits s.reads))
      have hlength := length_slice s.input s.inPos (min CHUNK (splits s.reads))
      generalize slice s.input s.inPos (min CHUNK (splits s.reads)) = data at *
      simp only
      by_cases hnil : data = []
      · have hpos := hsplits s.reads
        have hchunk : 0 < CHUNK := by decide
        have hend : s.input.length ≤ s.inPos := by
          rw [hnil, List.length_nil] at hlength
          omega
        refine ⟨_, _, if_pos hnil, fun hok => absurd (eq_of_beq hok) hret, fun _ => hs.at_end hend⟩
      · rw [if_neg hnil]
        have hread : Written inv fdOut offsetOut strm taken made
            { s.toFiles with inPos := s.inPos + data.length } :=
          ⟨hs.history, hs.output, hs.outPos⟩
        have hrounds : factor * (taken ++ data).length < inner + made.length := by
          have hbound : (taken ++ data).length ≤ s.input.length := by
            rw [hextend, length_slice]
            omega
          have hmul := Nat.mul_le_mul_left factor hbound
          omega
        obtain ⟨result, files, hrun, hfails, hmore⟩ := inflate_loop_complete hZ hread.history
          (s := { s.toFiles with inPos := s.inPos + data.length }) hrounds
        rw [hrun]
        rcases result with _ | ⟨code, strm₁⟩
        · exact ⟨false, _, rfl, nofun, fun _ => by rw [hinput, hfails rfl]⟩
        · obtain ⟨used, made₁, hwritten, hfile, hpos, hend, hall⟩ :=
            inflate_loop_sound (respects_of_streams hZ) hread hrun
          simp only
          by_cases hcode : code = .streamEnd
          · have hinitial : taken ++ data.take used <+: s.input.drop offsetIn := by
              rw [hinput, List.append_assoc, List.prefix_append_right_inj]
              exact (List.take_prefix used data).trans (List.prefix_append data rest)
            have hdecode := D.decode_mono hinitial (hend hcode)
            exact ⟨true, _, if_pos hcode, fun _ => ⟨made₁, _, hdecode, hwritten.output⟩, nofun⟩
          · rw [hall hcode] at hwritten
            have hpositive : 0 < data.length := List.length_pos_iff.2 hnil
            have hconsumed : Consumed D inv fdOut offsetIn offsetOut strm₁ (taken ++ data) made₁
                files := by
              refine ⟨hwritten, ?_, ?_, hmore code strm₁ rfl hcode⟩
              · rw [hpos, List.length_append, hs.inPos, Nat.add_assoc]
              · rw [hfile, List.length_append, hextend]
            have hrest := ih (s := ⟨files, s.reads + 1⟩) hconsumed hcode
              (by rw [hfile]; exact hinner) (by rw [hfile, hpos]; simp only; omega)
            rw [hfile] at hrest
            rw [if_neg hcode]
            exact hrest

end Loops

/-- For every input file, offset and way in which the reads split the file, and every inflater that
keeps zlib's contract: with enough rounds `xdecompress` ends. It returns 1 if and only if a stream
that starts at the offset ends within the file, and has then written the inflation of this stream.
-/
theorem xdecompress_one_shot {Z : Inflater} {D : RawDeflate} (hZ : Z.Complete D)
    (splits : Nat → Nat) (hsplits : ∀ n, 0 < splits n) (fdIn fdOut : Bytes)
    (offsetIn offsetOut : Nat) :
    ∃ rounds, ∀ inner fuel, rounds ≤ inner → rounds ≤ fuel →
      ∃ ok s', xdecompressLoop Z (chunkDevice splits) inner fuel .ok Z.init
          ⟨⟨fdIn, offsetIn, fdOut, offsetOut⟩, 0⟩ = some (ok, s') ∧
        (ok = true ↔ ∃ out used, D.decode (fdIn.drop offsetIn) = some (out, used)) ∧
        ∀ out used, D.decode (fdIn.drop offsetIn) = some (out, used) →
          s'.output = splice fdOut offsetOut out := by
  obtain ⟨factor, inv, hstreams⟩ := hZ
  refine ⟨factor * fdIn.length + fdIn.length + 1, fun inner fuel hinner hfuel => ?_⟩
  have hstart : Consumed D inv fdOut offsetIn offsetOut Z.init [] []
      ⟨fdIn, offsetIn, fdOut, offsetOut⟩ :=
    ⟨⟨hstreams.init, (splice_nil fdOut offsetOut).symm, rfl⟩, rfl, rfl, hstreams.nonempty⟩
  have hinner' : factor * fdIn.length < inner := by omega
  have hfuel' : fdIn.length - offsetIn < fuel := by omega
  obtain ⟨ok, s', hrun, hagrees⟩ := xdecompress_loop_complete hstreams hsplits
    (s := ⟨⟨fdIn, offsetIn, fdOut, offsetOut⟩, 0⟩) hstart (show ZRet.ok ≠ .streamEnd by decide)
    hinner' hfuel'
  refine ⟨ok, s', hrun, hagrees.ok_iff, fun out used hdecode => ?_⟩
  obtain ⟨out', used', hdecode', houtput⟩ :=
    hagrees.inflated (hagrees.ok_iff.2 ⟨out, used, hdecode⟩)
  simp only at hdecode'
  rw [hdecode] at hdecode'
  cases hdecode'
  exact houtput

/-- A stored block behind one byte of a file, which is read in chunks of three bytes. -/
theorem xdecompress_one_shot_hi :
    ∃ rounds, ∀ inner fuel, rounds ≤ inner → rounds ≤ fuel →
      ∃ s', xdecompressLoop (.ofDecoder storedBlock) (chunkDevice fun _ => 3) inner fuel .ok
          (Inflater.ofDecoder storedBlock).init
          ⟨⟨[0x50, 1, 2, 0, 0xfd, 0xff, 0x68, 0x69, 0x4b], 1, [], 0⟩, 0⟩ = some (true, s') ∧
        s'.output = [0x68, 0x69] := by
  obtain ⟨rounds, hends⟩ := xdecompress_one_shot stored_block_complete (fun _ => 3)
    (fun _ => by decide) [0x50, 1, 2, 0, 0xfd, 0xff, 0x68, 0x69, 0x4b] [] 1 0
  have hdecode : storedBlock.decode
      (([0x50, 1, 2, 0, 0xfd, 0xff, 0x68, 0x69, 0x4b] : Bytes).drop 1) =
        some ([0x68, 0x69], 7) := by decide
  refine ⟨rounds, fun inner fuel hinner hfuel => ?_⟩
  obtain ⟨ok, s', hrun, hok, houtput⟩ := hends inner fuel hinner hfuel
  rw [hok.2 ⟨_, _, hdecode⟩] at hrun
  exact ⟨s', hrun, houtput _ _ hdecode⟩

end NamelessCenter.Zip
