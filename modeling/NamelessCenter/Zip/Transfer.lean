import NamelessCenter.Native.Posix
import NamelessCenter.Native.Zlib

/-!
# Copying and inflating entry data

`xfilecopy` and `xdecompress` of `zipadjust.c`, as loops over an arbitrary `Device` and then on
regular files. A result `none` of a loop means that the given number of rounds did not finish it,
or that the process was killed because `inflate` read on behind its memory. The results used later
are `xfilecopy_eq`, which says exactly what a copy does, and `xdecompress_sound`, which says that a
decompression reported as successful wrote the inflation of the stream at its input offset.
-/

namespace NamelessCenter.Zip

open Bytes Native

/-! ## The loops -/

/-- The `while (left > 0)` loop of `xfilecopy`, for at most the given number of rounds. -/
def xfilecopyLoop {σ : Type} (io : Device σ) : Nat → UInt64 → σ → Option (Bool × σ)
  | 0, _, _ => none
  | fuel + 1, left, s =>
      if left = 0 then some (true, s)
      else
        let wanted := if left.toNat < CHUNK then left.toNat else CHUNK
        let (data, s) := io.read s wanted
        let r := sizeT (data.map List.length)
        -- `r` is unsigned: `r <= 0` is true at the end of the file only.
        if r = 0 then some (false, s)
        else
          let (written, s) := io.write s (data.getD []) r
          if sizeT written = r then xfilecopyLoop io fuel (left - r) s else some (false, s)

/-- The inner loop of `xdecompress`: inflate the buffered input until a call leaves room in the
output buffer. The result is the last return code with the stream, or `none` after an error. -/
def inflateLoop {σ : Type} (Z : Inflater) (io : Device σ) :
    Nat → Z.Strm → Bytes → σ → Option (Option (ZRet × Z.Strm) × σ)
  | 0, _, _, _ => none
  | fuel + 1, strm, nextIn, s =>
      let (ret, used, out, strm) := Z.inflate strm nextIn CHUNK
      if ret.proceeds then
        let (written, s) := io.write s out (UInt64.ofNat out.length)
        if written = some out.length then
          if out.length = CHUNK then inflateLoop Z io fuel strm (nextIn.drop used) s
          else some (some (ret, strm), s)
        else some (none, s)
      else some (none, s)

/-- The return value -1 in the unsigned `avail_in`. -/
def UINT_MAX : Nat := 2 ^ 32 - 1

/-- The outer loop of `xdecompress`: read a chunk and inflate it, until the stream ends. -/
def xdecompressLoop {σ : Type} (Z : Inflater) (io : Device σ) (inner : Nat) :
    Nat → ZRet → Z.Strm → σ → Option (Bool × σ)
  | 0, _, _, _ => none
  | fuel + 1, ret, strm, s =>
      match io.read s CHUNK with
      -- `avail_in < 0` is never true: behind a failed read `inflate` gets what is in memory.
      | (none, s) =>
          match inflateLoop Z io inner strm ((io.memory s).take UINT_MAX) s with
          | none => none
          | some (none, s) => some (false, s)
          | some (some (ret, strm), t) =>
              if ret = .streamEnd then some (true, t)
              else if (io.memory s).length < UINT_MAX then none
              else xdecompressLoop Z io inner fuel ret strm t
      | (some [], s) => some (ret == .streamEnd, s)
      | (some data, s) =>
          match inflateLoop Z io inner strm data s with
          | none => none
          | some (none, s) => some (false, s)
          | some (some (ret, strm), s) =>
              if ret = .streamEnd then some (true, s)
              else xdecompressLoop Z io inner fuel ret strm s

/-- `xfilecopy` on regular files. -/
def xfilecopy (fdIn fdOut : Bytes) (offsetIn offsetOut : Nat) (bytes : UInt64) : Bool × Bytes :=
  match xfilecopyLoop fileDevice (bytes.toNat + 1) bytes ⟨fdIn, offsetIn, fdOut, offsetOut⟩ with
  | some (ok, s) => (ok, s.output)
  | none => (false, fdOut)

/-- `xdecompress` on regular files. -/
def xdecompress (Z : Inflater) (fuel : Nat) (fdIn fdOut : Bytes) (offsetIn offsetOut : Nat) :
    Option (Bool × Bytes) :=
  (xdecompressLoop Z fileDevice fuel fuel .ok Z.init ⟨fdIn, offsetIn, fdOut, offsetOut⟩).map
    fun result => (result.1, result.2.output)

/-! ## Copying -/

/-- A byte count is what a call returns. -/
theorem to_nat_size_t_some {n : Nat} (h : n < 2 ^ 64) : (sizeT (some n)).toNat = n := by
  rw [sizeT, UInt64.toNat_ofNat', Nat.mod_eq_of_lt h]

/-- Subtracting no more than is left. -/
theorem to_nat_sub_of_nat {left : UInt64} {n : Nat} (h : n ≤ left.toNat) :
    (left - UInt64.ofNat n).toNat = left.toNat - n := by
  have hbound := left.toNat_lt
  have hcount : (UInt64.ofNat n).toNat = n := by
    rw [UInt64.toNat_ofNat', Nat.mod_eq_of_lt (by omega)]
  rw [UInt64.toNat_sub_of_le _ _ (by rw [UInt64.le_iff_toNat_le]; omega), hcount]

/-- One round of the copy loop on files: a chunk moves, or the file has ended. -/
theorem xfilecopy_loop_succ (fuel : Nat) (left : UInt64) (s : Files) (hleft : left ≠ 0) :
    xfilecopyLoop fileDevice (fuel + 1) left s =
      let data := slice s.input s.inPos (min left.toNat CHUNK)
      if data = [] then some (false, s)
      else xfilecopyLoop fileDevice fuel (left - UInt64.ofNat data.length)
        { s with
          inPos := s.inPos + data.length
          output := splice s.output s.outPos data
          outPos := s.outPos + data.length } := by
  have hwanted : (if left.toNat < CHUNK then left.toNat else CHUNK) = min left.toNat CHUNK := by
    split <;> omega
  simp only [xfilecopyLoop, if_neg hleft, hwanted, fileDevice, Option.map_some, Option.getD_some]
  generalize hdata : slice s.input s.inPos (min left.toNat CHUNK) = data
  have hsmall : data.length < 2 ^ 64 := by
    have hlen : data.length ≤ CHUNK := by
      rw [← hdata, length_slice]
      omega
    simp only [CHUNK] at hlen
    omega
  have hcount := to_nat_size_t_some hsmall
  by_cases hnil : data = []
  · subst hnil
    simp [sizeT]
  · have hne : sizeT (some data.length) ≠ 0 := by
      intro hzero
      rw [hzero] at hcount
      exact hnil (List.eq_nil_of_length_eq_zero hcount.symm)
    have htake : data.take (sizeT (some data.length)).toNat = data := by
      rw [hcount, List.take_length]
    rw [if_neg hne, if_neg hnil, htake, if_pos rfl]
    rfl

/-- Enough rounds copy everything, when the input file holds that much. -/
theorem xfilecopy_loop_files {fuel : Nat} {left : UInt64} {s : Files}
    (hfuel : left.toNat < fuel) (havail : s.inPos + left.toNat ≤ s.input.length) :
    ∃ s', xfilecopyLoop fileDevice fuel left s = some (true, s') ∧
      s'.output = splice s.output s.outPos (slice s.input s.inPos left.toNat) := by
  induction fuel generalizing left s with
  | zero => omega
  | succ fuel ih =>
      by_cases hleft : left = 0
      · subst hleft
        exact ⟨s, by simp [xfilecopyLoop], by simp [slice]⟩
      · have hpos : 0 < left.toNat := by
          rw [Nat.pos_iff_ne_zero]
          exact fun hzero => hleft (UInt64.toNat_inj.1 hzero)
        rw [xfilecopy_loop_succ fuel left s hleft]
        generalize hdata : slice s.input s.inPos (min left.toNat CHUNK) = data
        have hlen : data.length = min left.toNat CHUNK := by
          rw [← hdata, length_slice_of_le (by omega)]
        have hchunk : 0 < CHUNK := by decide
        have hnil : data ≠ [] := by
          intro hnil
          rw [hnil, List.length_nil] at hlen
          omega
        have hsub : (left - UInt64.ofNat data.length).toNat = left.toNat - data.length :=
          to_nat_sub_of_nat (by omega)
        simp only [if_neg hnil]
        have hfuel' : (left - UInt64.ofNat data.length).toNat < fuel := by omega
        obtain ⟨s', hrun, hout⟩ := ih hfuel'
          (s := { s with
            inPos := s.inPos + data.length
            output := splice s.output s.outPos data
            outPos := s.outPos + data.length })
          (by simp only; omega)
        refine ⟨s', hrun, ?_⟩
        have hrest : left.toNat = data.length + (left.toNat - data.length) := by omega
        rw [hout, hsub, splice_splice]
        conv_rhs => rw [hrest, slice_add]
        rw [hlen, hdata]

/-- A copy that reaches the end of the file fails. -/
theorem xfilecopy_loop_short {fuel : Nat} {left : UInt64} {s : Files}
    (hfuel : left.toNat < fuel) (hshort : s.input.length < s.inPos + left.toNat)
    (hleft : left ≠ 0) : ∃ s', xfilecopyLoop fileDevice fuel left s = some (false, s') := by
  induction fuel generalizing left s with
  | zero => omega
  | succ fuel ih =>
      rw [xfilecopy_loop_succ fuel left s hleft]
      generalize hdata : slice s.input s.inPos (min left.toNat CHUNK) = data
      have hlen : data.length = min (min left.toNat CHUNK) (s.input.length - s.inPos) := by
        rw [← hdata, length_slice]
      by_cases hnil : data = []
      · exact ⟨s, by simp [hnil]⟩
      · have hpos : 0 < data.length := List.length_pos_iff.2 hnil
        have hsub : (left - UInt64.ofNat data.length).toNat = left.toNat - data.length :=
          to_nat_sub_of_nat (by omega)
        simp only [if_neg hnil]
        refine ih (by omega) (by simp only; omega) ?_
        intro hzero
        rw [hzero, UInt64.toNat_zero] at hsub
        omega

/-- A copy succeeds exactly when the input file holds the requested range, and then writes it. -/
theorem xfilecopy_eq (fdIn fdOut : Bytes) (offsetIn offsetOut : Nat) (bytes : UInt64) :
    (offsetIn + bytes.toNat ≤ fdIn.length ∨ bytes = 0 →
      xfilecopy fdIn fdOut offsetIn offsetOut bytes =
        (true, splice fdOut offsetOut (slice fdIn offsetIn bytes.toNat))) ∧
    (¬ (offsetIn + bytes.toNat ≤ fdIn.length ∨ bytes = 0) →
      (xfilecopy fdIn fdOut offsetIn offsetOut bytes).1 = false) := by
  constructor
  · rintro (havail | rfl)
    · obtain ⟨s', hrun, hout⟩ := xfilecopy_loop_files (Nat.lt_succ_self bytes.toNat)
        (s := ⟨fdIn, offsetIn, fdOut, offsetOut⟩) havail
      simp [xfilecopy, hrun, hout]
    · simp [xfilecopy, xfilecopyLoop, slice]
  · intro hshort
    rw [not_or] at hshort
    obtain ⟨s', hrun⟩ := xfilecopy_loop_short (Nat.lt_succ_self bytes.toNat)
      (s := ⟨fdIn, offsetIn, fdOut, offsetOut⟩) (by simp only; omega) hshort.2
    simp [xfilecopy, hrun]

/-! ## Inflating -/

section Inflating

variable {Z : Inflater} {D : RawDeflate} {inv : Z.Strm → Bytes → Bytes → Prop}

/-- The contract of `inflate` for the history relation `inv`. -/
def Respects (Z : Inflater) (D : RawDeflate) (inv : Z.Strm → Bytes → Bytes → Prop) : Prop :=
  ∀ strm taken made nextIn availOut ret used out strm', inv strm taken made → 0 < availOut →
    Z.inflate strm nextIn availOut = (ret, used, out, strm') →
    Inflater.CallSound Z D inv taken made nextIn availOut ret used out strm'

/-- The stream has consumed `taken` and produced `made`, and what it produced has been written to
the output file from `offset` on. -/
structure Written (inv : Z.Strm → Bytes → Bytes → Prop) (fdOut : Bytes) (offset : Nat)
    (strm : Z.Strm) (taken made : Bytes) (s : Files) : Prop where
  history : inv strm taken made
  output : s.output = splice fdOut offset made
  outPos : s.outPos = offset + made.length

/-- A write of a whole output buffer. -/
theorem file_device_write {out : Bytes} (h : out.length ≤ CHUNK) (s : Files) :
    fileDevice.write s out (UInt64.ofNat out.length) =
      (some out.length,
        { s with output := splice s.output s.outPos out, outPos := s.outPos + out.length }) := by
  have hsize : out.length < 2 ^ 64 := h.trans_lt (by decide)
  have htake : out.take (UInt64.ofNat out.length).toNat = out := by
    rw [UInt64.toNat_ofNat', Nat.mod_eq_of_lt hsize, List.take_length]
  simp only [fileDevice, htake]

/-- The inner loop writes what it inflates and stops only at the end of the stream or of its
input. -/
theorem inflate_loop_sound (hZ : Respects Z D inv) {fdOut : Bytes} {offset : Nat} :
    ∀ {fuel : Nat} {strm strm' : Z.Strm} {taken made nextIn : Bytes} {s s' : Files} {ret : ZRet},
      Written inv fdOut offset strm taken made s →
      inflateLoop Z fileDevice fuel strm nextIn s = some (some (ret, strm'), s') →
      ∃ used made', Written inv fdOut offset strm' (taken ++ nextIn.take used) made' s' ∧
        s'.input = s.input ∧ s'.inPos = s.inPos ∧
        (ret = .streamEnd → D.decode (taken ++ nextIn.take used) =
          some (made', (taken ++ nextIn.take used).length)) ∧
        (ret ≠ .streamEnd → nextIn.take used = nextIn)
  | 0, _, _, _, _, _, _, _, _, _, hrun => by
      simp [inflateLoop] at hrun
  | fuel + 1, strm, strm', taken, made, nextIn, s, s', ret, hwritten, hrun => by
      rcases hcall : Z.inflate strm nextIn CHUNK with ⟨code, used, out, strm₁⟩
      have hsound := hZ _ _ _ _ _ _ _ _ _ hwritten.history (by decide) hcall
      simp only [inflateLoop, hcall, file_device_write hsound.out_le] at hrun
      cases hproceeds : code.proceeds with
      | false => simp [hproceeds] at hrun
      | true =>
          simp only [hproceeds, if_true] at hrun
          have hwritten₁ : Written inv fdOut offset strm₁ (taken ++ nextIn.take used) (made ++ out)
              { s with
                output := splice s.output s.outPos out
                outPos := s.outPos + out.length } := by
            refine ⟨hsound.proceeds hproceeds, ?_, ?_⟩
            · simp only [hwritten.output, hwritten.outPos]
              rw [splice_splice]
            · simp only [hwritten.outPos, List.length_append]
              omega
          by_cases hfull : out.length = CHUNK
          · rw [if_pos hfull] at hrun
            obtain ⟨used', made', hdone, hinput, hpos, hend, hmore⟩ :=
              inflate_loop_sound hZ hwritten₁ hrun
            have hsplit : nextIn.take used ++ (nextIn.drop used).take used' =
                nextIn.take (used + used') := List.take_add.symm
            rw [List.append_assoc, hsplit] at hdone hend
            refine ⟨used + used', made', hdone, hinput, hpos, hend, fun hgoing => ?_⟩
            rw [← hsplit, hmore hgoing, List.take_append_drop]
          · rw [if_neg hfull] at hrun
            simp only [Option.some.injEq, Prod.mk.injEq] at hrun
            obtain ⟨⟨rfl, rfl⟩, rfl⟩ := hrun
            refine ⟨used, made ++ out, hwritten₁, rfl, rfl, hsound.stream_end, fun hgoing => ?_⟩
            have hle := hsound.out_le
            rw [hsound.drained hproceeds hgoing (by omega), List.take_length]

/-- One round of the outer loop on files. -/
theorem xdecompress_loop_succ (inner fuel : Nat) (ret : ZRet) (strm : Z.Strm) (s : Files) :
    xdecompressLoop Z fileDevice inner (fuel + 1) ret strm s =
      let data := slice s.input s.inPos CHUNK
      let s := { s with inPos := s.inPos + data.length }
      if data = [] then some (ret == .streamEnd, s)
      else
        match inflateLoop Z fileDevice inner strm data s with
        | none => none
        | some (none, s) => some (false, s)
        | some (some (ret, strm), s) =>
            if ret = .streamEnd then some (true, s)
            else xdecompressLoop Z fileDevice inner fuel ret strm s := by
  rw [xdecompressLoop]
  have hread : fileDevice.read s CHUNK =
      (some (slice s.input s.inPos CHUNK),
        { s with inPos := s.inPos + (slice s.input s.inPos CHUNK).length }) := rfl
  rw [hread]
  cases slice s.input s.inPos CHUNK with
  | nil => rfl
  | cons b bs =>
      simp only [List.cons_ne_nil, if_false]
      rcases inflateLoop Z fileDevice inner strm (b :: bs)
        { s with inPos := s.inPos + (b :: bs).length } with _ | ⟨_ | ⟨code, strm₁⟩, s₁⟩
      · rfl
      · rfl
      · rfl

/-- When the outer loop reports success, a complete stream starts at the offset where it began to
read, and its inflation has been written. -/
theorem xdecompress_loop_sound (hZ : Respects Z D inv) {fdOut : Bytes} {offset offsetIn : Nat}
    {inner : Nat} :
    ∀ {fuel : Nat} {ret : ZRet} {strm : Z.Strm} {taken made : Bytes} {s s' : Files},
      Written inv fdOut offset strm taken made s → ret ≠ .streamEnd →
      s.inPos = offsetIn + taken.length → taken = slice s.input offsetIn taken.length →
      xdecompressLoop Z fileDevice inner fuel ret strm s = some (true, s') →
      ∃ out used, D.decode (s.input.drop offsetIn) = some (out, used) ∧
        s'.output = splice fdOut offset out
  | 0, _, _, _, _, _, _, _, _, _, _, hrun => by
      simp [xdecompressLoop] at hrun
  | fuel + 1, ret, strm, taken, made, s, s', hwritten, hret, hpos, htaken, hrun => by
      rw [xdecompress_loop_succ] at hrun
      generalize hdata : slice s.input s.inPos CHUNK = data at hrun
      have hextend : taken ++ data = slice s.input offsetIn (taken.length + data.length) := by
        rw [slice_add, ← htaken, ← hpos, ← hdata, slice_length_slice]
      by_cases hnil : data = []
      · simp [hnil, hret] at hrun
      · simp only [if_neg hnil] at hrun
        have hread : Written inv fdOut offset strm taken made
            { s with inPos := s.inPos + data.length } :=
          ⟨hwritten.history, hwritten.output, hwritten.outPos⟩
        cases hinner : inflateLoop Z fileDevice inner strm data
            { s with inPos := s.inPos + data.length } with
        | none => simp [hinner] at hrun
        | some result =>
            obtain ⟨status, s₁⟩ := result
            cases status with
            | none => simp [hinner] at hrun
            | some pair =>
                obtain ⟨code, strm₁⟩ := pair
                obtain ⟨used, made₁, hwritten₁, hinput, hinPos, hend, hmore⟩ :=
                  inflate_loop_sound hZ hread hinner
                simp only [hinner] at hrun
                by_cases hcode : code = .streamEnd
                · have hinitial : taken ++ data.take used <+: s.input.drop offsetIn := by
                    have htake : taken ++ data.take used <+: taken ++ data :=
                      (List.prefix_append_right_inj taken).2 (List.take_prefix _ _)
                    exact htake.trans (hextend ▸ List.take_prefix _ _)
                  rw [if_pos hcode, Option.some.injEq, Prod.mk.injEq] at hrun
                  obtain ⟨-, rfl⟩ := hrun
                  exact ⟨made₁, _, D.decode_mono hinitial (hend hcode), hwritten₁.output⟩
                · rw [if_neg hcode] at hrun
                  rw [hmore hcode] at hwritten₁
                  have hpos₁ : s₁.inPos = offsetIn + (taken ++ data).length := by
                    rw [hinPos, hpos, List.length_append]
                    exact Nat.add_assoc _ _ _
                  have htaken₁ : taken ++ data =
                      slice s₁.input offsetIn (taken ++ data).length := by
                    rw [hinput, List.length_append]
                    exact hextend
                  obtain ⟨out, total, hdecode, hout⟩ :=
                    xdecompress_loop_sound hZ hwritten₁ hcode hpos₁ htaken₁ hrun
                  rw [hinput] at hdecode
                  exact ⟨out, total, hdecode, hout⟩

end Inflating

/-- A decompression reported as successful wrote the inflation of the raw deflate stream that
starts at its input offset. -/
theorem xdecompress_sound {Z : Inflater} {D : RawDeflate} (hZ : Z.Sound D) {fuel : Nat}
    {fdIn fdOut result : Bytes} {offsetIn offsetOut : Nat}
    (h : xdecompress Z fuel fdIn fdOut offsetIn offsetOut = some (true, result)) :
    ∃ out used, D.decode (fdIn.drop offsetIn) = some (out, used) ∧
      result = splice fdOut offsetOut out := by
  obtain ⟨inv, hinit, hcalls⟩ := hZ
  simp only [xdecompress, Option.map_eq_some_iff, Prod.mk.injEq] at h
  obtain ⟨⟨ok, s'⟩, hrun, rfl, rfl⟩ := h
  have hstart : Written inv fdOut offsetOut Z.init [] [] ⟨fdIn, offsetIn, fdOut, offsetOut⟩ :=
    ⟨hinit, by simp, by simp⟩
  have hgoing : ZRet.ok ≠ .streamEnd := by decide
  exact xdecompress_loop_sound hcalls hstart hgoing rfl rfl hrun

/-! ## Whether a transfer succeeds -/

/-- Two states that differ in their output files only. -/
def SameInput (s t : Files) : Prop := s.input = t.input ∧ s.inPos = t.inPos

/-- Two loops end alike, up to their output files. -/
def SameResult {α : Type} : Option (α × Files) → Option (α × Files) → Prop
  | none, none => True
  | some (a, s), some (b, t) => a = b ∧ SameInput s t
  | _, _ => False

/-- The inner loop does not look at what was written. -/
theorem inflate_loop_same (Z : Inflater) (fuel : Nat) (strm : Z.Strm) (nextIn : Bytes) {s t : Files}
    (h : SameInput s t) :
    SameResult (inflateLoop Z fileDevice fuel strm nextIn s)
      (inflateLoop Z fileDevice fuel strm nextIn t) := by
  induction fuel generalizing strm nextIn s t with
  | zero => trivial
  | succ fuel ih =>
      rcases hcall : Z.inflate strm nextIn CHUNK with ⟨code, used, out, strm₁⟩
      simp only [inflateLoop, hcall, fileDevice]
      split
      · split
        · split
          · exact ih _ _ ⟨h.1, h.2⟩
          · exact ⟨rfl, h.1, h.2⟩
        · exact ⟨rfl, h.1, h.2⟩
      · exact ⟨rfl, h⟩

/-- Nor does the outer one. -/
theorem xdecompress_loop_same (Z : Inflater) (inner fuel : Nat) (ret : ZRet) (strm : Z.Strm)
    {s t : Files} (h : SameInput s t) :
    SameResult (xdecompressLoop Z fileDevice inner fuel ret strm s)
      (xdecompressLoop Z fileDevice inner fuel ret strm t) := by
  induction fuel generalizing ret strm s t with
  | zero => trivial
  | succ fuel ih =>
      obtain ⟨input, inPos, outS, posS⟩ := s
      obtain ⟨_, _, outT, posT⟩ := t
      obtain ⟨rfl, rfl⟩ := h
      rw [xdecompress_loop_succ, xdecompress_loop_succ]
      simp only
      generalize slice input inPos CHUNK = data
      by_cases hnil : data = []
      · rw [if_pos hnil, if_pos hnil]
        exact ⟨rfl, rfl, rfl⟩
      · rw [if_neg hnil, if_neg hnil]
        have hinner := inflate_loop_same Z inner strm data
          (s := ⟨input, inPos + data.length, outS, posS⟩)
          (t := ⟨input, inPos + data.length, outT, posT⟩) ⟨rfl, rfl⟩
        revert hinner
        generalize inflateLoop Z fileDevice inner strm data _ = left
        generalize inflateLoop Z fileDevice inner strm data _ = right
        intro hinner
        rcases left with _ | ⟨_ | ⟨code, strm₁⟩, s₁⟩ <;>
          rcases right with _ | ⟨_ | ⟨code', strm₂⟩, t₁⟩
        · trivial
        · exact hinner.elim
        · exact hinner.elim
        · exact hinner.elim
        · exact ⟨rfl, hinner.2⟩
        · exact absurd hinner.1 (by simp)
        · exact hinner.elim
        · exact absurd hinner.1 (by simp)
        · obtain ⟨hsame, hinput⟩ := hinner
          cases hsame
          simp only
          split
          · exact ⟨rfl, hinput⟩
          · exact ih _ _ hinput

/-- Whether a decompression succeeds does not depend on the output file. -/
theorem xdecompress_status (Z : Inflater) (fuel : Nat) (fdIn fdOut fdOut' : Bytes)
    (offsetIn offsetOut offsetOut' : Nat) :
    (xdecompress Z fuel fdIn fdOut offsetIn offsetOut).map Prod.fst =
      (xdecompress Z fuel fdIn fdOut' offsetIn offsetOut').map Prod.fst := by
  have hsame := xdecompress_loop_same Z fuel fuel .ok Z.init
    (s := ⟨fdIn, offsetIn, fdOut, offsetOut⟩) (t := ⟨fdIn, offsetIn, fdOut', offsetOut'⟩) ⟨rfl, rfl⟩
  unfold xdecompress
  cases hleft : xdecompressLoop Z fileDevice fuel fuel .ok Z.init
      ⟨fdIn, offsetIn, fdOut, offsetOut⟩ with
  | none =>
      cases hright : xdecompressLoop Z fileDevice fuel fuel .ok Z.init
          ⟨fdIn, offsetIn, fdOut', offsetOut'⟩ with
      | none => rfl
      | some result =>
          rw [hleft, hright] at hsame
          exact hsame.elim
  | some result =>
      cases hright : xdecompressLoop Z fileDevice fuel fuel .ok Z.init
          ⟨fdIn, offsetIn, fdOut', offsetOut'⟩ with
      | none =>
          rw [hleft, hright] at hsame
          exact hsame.elim
      | some result' =>
          rw [hleft, hright] at hsame
          exact congrArg some hsame.1

/-- Whether a copy succeeds does not depend on the output file. -/
theorem xfilecopy_status (fdIn fdOut fdOut' : Bytes) (offsetIn offsetOut offsetOut' : Nat)
    (bytes : UInt64) :
    (xfilecopy fdIn fdOut offsetIn offsetOut bytes).1 =
      (xfilecopy fdIn fdOut' offsetIn offsetOut' bytes).1 := by
  by_cases havail : offsetIn + bytes.toNat ≤ fdIn.length ∨ bytes = 0
  · rw [(xfilecopy_eq ..).1 havail, (xfilecopy_eq ..).1 havail]
  · rw [(xfilecopy_eq ..).2 havail, (xfilecopy_eq ..).2 havail]

end NamelessCenter.Zip
