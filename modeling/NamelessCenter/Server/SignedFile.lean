import NamelessCenter.Server.MinSignAPK
import NamelessCenter.Zip.Structs

/-!
# Reading signed files back

A verifier of a signed file starts from its last six bytes. `sign_recoverable` says that it finds
there everything that `signWholeOutputFile` has put into the comment. It also requires that the
magic of the end record occurs nowhere behind the start of that record. `signWholeOutputFile`
searches the comment for it, but not the fields of the end record and the new comment length in
front of the comment; `magic_only_at_end_record_iff` says which files it accepts all the same.
-/

namespace NamelessCenter.Server

open Bytes Zip

/-! ## The verifier -/

/-- The six-byte footer of the comment. -/
def footerOf (o : Bytes) : Bytes := o.drop (o.length - 6)

/-- The comment length in the footer. -/
def commentLength (o : Bytes) : Nat := (u16At (footerOf o) 4).toNat

/-- The distance of the signature from the end of the file. -/
def signatureStart (o : Bytes) : Nat := (u16At (footerOf o) 0).toNat

/-- The position of the end record. -/
def endRecord (o : Bytes) : Nat := o.length - commentLength o - 22

/-- The signature block, which ends in front of the footer. -/
def signatureOf (o : Bytes) : Bytes :=
  slice o (o.length - signatureStart o) (signatureStart o - 6)

/-- The bytes that the signature is to cover. -/
def signedRegion (o : Bytes) : Bytes := o.take (o.length - commentLength o - 2)

/-! ## The layout of a signed file -/

/-- The six-byte footer that the code writes behind a block of this length. -/
def footer (blockLength total : Nat) : Bytes :=
  le16 (UInt16.ofNat (blockLength + 6)) ++ ([0xff, 0xff] ++ le16 (UInt16.ofNat total))

/-- The footer has six bytes. -/
@[simp] theorem length_footer (blockLength total : Nat) :
    (footer blockLength total).length = 6 := by
  simp [footer]

/-- A number that fits into 16 bits. -/
theorem to_nat_of_nat16 {n : Nat} (h : n ≤ 65535) : (UInt16.ofNat n).toNat = n := by
  rw [UInt16.toNat_ofNat', Nat.mod_eq_of_lt (by omega)]

/-- The comment is the message, the block and the footer. -/
theorem archive_comment_eq {block : Bytes} (h : (archiveComment block).length ≤ 65535) :
    archiveComment block =
      message ++ 0 :: block ++ footer block.length (archiveComment block).length := by
  have hlen := length_archive_comment block
  have hmessage : message.length = 17 := rfl
  have htotal : (message ++ 0 :: block).length + 6 = (archiveComment block).length := by
    rw [hlen, List.length_append, List.length_cons]
    omega
  have hstart : (message ++ 0 :: block).length + 6 - message.length - 1 = block.length + 6 := by
    rw [List.length_append, List.length_cons]
    omega
  unfold footer
  -- the code appends the footer byte by byte, low bytes first
  conv_lhs => unfold archiveComment
  simp only
  rw [htotal] at hstart ⊢
  rw [hstart, low_high_eq_le16 (by omega), low_high_eq_le16 (by omega), List.append_nil]
  rfl

/-- The marks in the middle of the footer. -/
theorem slice_footer_marks (blockLength total : Nat) :
    slice (footer blockLength total) 2 2 = [0xff, 0xff] := by
  have hpart := slice_append_append (le16 (UInt16.ofNat (blockLength + 6))) [0xff, 0xff]
    (le16 (UInt16.ofNat total))
  rw [length_le16] at hpart
  exact hpart

/-- Where the block starts, from the end of the file. -/
theorem u16_at_footer_start {blockLength total : Nat} (h : blockLength + 6 ≤ 65535) :
    (u16At (footer blockLength total) 0).toNat = blockLength + 6 := by
  rw [footer, u16_at_le16, to_nat_of_nat16 h]

/-- The length of the comment. -/
theorem u16_at_footer_total {blockLength total : Nat} (h : total ≤ 65535) :
    (u16At (footer blockLength total) 4).toNat = total := by
  rw [footer, u16_at_append_right (by simp), u16_at_append_right (by simp)]
  have hlast := u16_at_le16 (UInt16.ofNat total) []
  rw [List.append_nil] at hlast
  simp only [length_le16, List.length_cons, List.length_nil]
  rw [hlast, to_nat_of_nat16 h]

section Signed

variable {writeSignatureBlock : Bytes → Option Bytes} {zipData output block : Bytes}

/-- The bytes of a signed file, part by part. -/
structure Layout (zipData block output : Bytes) : Prop where
  long : 22 ≤ zipData.length
  magic : slice zipData (zipData.length - 22) 4 = eocdMagic
  short : (archiveComment block).length ≤ 65535
  clean : ∀ i, i + 4 ≤ (archiveComment block).length → slice (archiveComment block) i 4 ≠ eocdMagic
  output : output = zipData.take (zipData.length - 2) ++
    (le16 (UInt16.ofNat (archiveComment block).length) ++ archiveComment block)

/-- A signed file is the archive with the comment. -/
theorem sign_layout (h : signWholeOutputFile writeSignatureBlock zipData = .ok output)
    (hblock : writeSignatureBlock (zipData.take (zipData.length - 2)) = some block) :
    Layout zipData block output := by
  obtain ⟨hlong, hmagic, written, comment, hwritten, rfl, hshort, hclean, houtput⟩ := sign_eq_ok h
  rw [hblock, Option.some.injEq] at hwritten
  subst hwritten
  exact ⟨hlong, hmagic, hshort, hclean, houtput⟩

/-- Its length. -/
theorem Layout.length (h : Layout zipData block output) :
    output.length = zipData.length + (archiveComment block).length := by
  have hlong := h.long
  rw [h.output]
  simp only [List.length_append, List.length_take, length_le16]
  omega

/-- The part of a signed file in front of its footer. -/
theorem Layout.output_eq (h : Layout zipData block output) :
    output = zipData.take (zipData.length - 2) ++
      (le16 (UInt16.ofNat (archiveComment block).length) ++ (message ++ 0 :: block)) ++
      footer block.length (archiveComment block).length := by
  have hcomment := archive_comment_eq h.short
  have houtput := h.output
  generalize (archiveComment block).length = total at hcomment houtput ⊢
  rw [houtput, hcomment]
  simp only [List.append_assoc]

/-- Its last six bytes are the footer. -/
theorem Layout.footer_eq (h : Layout zipData block output) :
    footerOf output = footer block.length (archiveComment block).length := by
  have hlen := congrArg List.length h.output_eq
  rw [List.length_append, length_footer] at hlen
  rw [footerOf, hlen, Nat.add_sub_cancel]
  conv_lhs => rw [h.output_eq]
  exact List.drop_left

/-- The footer has the length of the comment. -/
theorem Layout.comment_length (h : Layout zipData block output) :
    commentLength output = (archiveComment block).length := by
  rw [commentLength, h.footer_eq, u16_at_footer_total h.short]

/-- It has the start of the block. -/
theorem Layout.signature_start (h : Layout zipData block output) :
    signatureStart output = block.length + 6 := by
  have hshort := h.short
  rw [length_archive_comment] at hshort
  rw [signatureStart, h.footer_eq, u16_at_footer_start (by omega)]

/-- The end record stands where it stood in the archive. -/
theorem Layout.end_record (h : Layout zipData block output) :
    endRecord output = zipData.length - 22 := by
  rw [endRecord, h.comment_length, h.length]
  omega

/-- The end record keeps its first 20 bytes. -/
theorem Layout.slice_record (h : Layout zipData block output) {off len : Nat}
    (hend : off + len + 2 ≤ zipData.length) : slice output off len = slice zipData off len := by
  rw [h.output, slice_append_of_le (by rw [List.length_take]; omega), slice, slice, List.drop_take,
    List.take_take, Nat.min_eq_left (by omega)]

/-- The record has the length of the comment, too. -/
theorem Layout.length_field (h : Layout zipData block output) :
    u16At output (zipData.length - 2) = UInt16.ofNat (archiveComment block).length := by
  have hlen : (zipData.take (zipData.length - 2)).length = zipData.length - 2 := by
    rw [List.length_take]
    omega
  rw [h.output, u16_at_append_right (by omega), hlen, Nat.sub_self, u16_at_le16]

/-- The block is found from the footer. -/
theorem Layout.signature_of (h : Layout zipData block output) : signatureOf output = block := by
  have hlong := h.long
  have hlen := h.length
  have hcomment := length_archive_comment block
  have hmessage : message.length = 17 := rfl
  let front := zipData.take (zipData.length - 2) ++
    (le16 (UInt16.ofNat (archiveComment block).length) ++ (message ++ [0]))
  have hsplit : output = front ++ (block ++ footer block.length (archiveComment block).length) := by
    rw [h.output_eq]
    simp [front]
  have hfront : front.length = output.length - (block.length + 6) := by
    rw [hsplit]
    simp only [List.length_append, length_footer]
    omega
  rw [signatureOf, h.signature_start, Nat.add_sub_cancel, ← hfront]
  conv_lhs => rw [hsplit]
  exact slice_append_append _ _ _

/-- What is signed is the archive without its length field. -/
theorem Layout.signed_region (h : Layout zipData block output) :
    signedRegion output = zipData.take (zipData.length - 2) := by
  have hlong := h.long
  have hlen := h.length
  have htake : (zipData.take (zipData.length - 2)).length = zipData.length - 2 := by
    rw [List.length_take]
    omega
  have hstop : output.length - commentLength output - 2 =
      (zipData.take (zipData.length - 2)).length := by
    rw [h.comment_length, htake]
    omega
  rw [signedRegion, hstop]
  conv_lhs => rw [h.output]
  exact List.take_left

/-- From the last six bytes of a signed file a verifier finds the end record where the unsigned file
has it, with the length of the comment, the signature block, and the bytes it was computed over. -/
theorem sign_recoverable (h : signWholeOutputFile writeSignatureBlock zipData = .ok output)
    (hblock : writeSignatureBlock (zipData.take (zipData.length - 2)) = some block) :
    slice (footerOf output) 2 2 = [0xff, 0xff] ∧
      output.drop zipData.length = archiveComment block ∧
      commentLength output = (archiveComment block).length ∧
      endRecord output + 22 + commentLength output = output.length ∧
      endRecord output + 22 = zipData.length ∧
      slice output (endRecord output) 4 = slice zipData (endRecord output) 4 ∧
      slice output (endRecord output) 4 = eocdMagic ∧
      (u16At output (endRecord output + 20)).toNat = commentLength output ∧
      signatureStart output = block.length + 6 ∧
      signatureOf output = block ∧
      signedRegion output = zipData.take (zipData.length - 2) := by
  have hlayout := sign_layout h hblock
  have hlong := hlayout.long
  have hlen := hlayout.length
  have hcomment := hlayout.comment_length
  have hrecord := hlayout.end_record
  have hkept : slice output (zipData.length - 22) 4 = slice zipData (zipData.length - 22) 4 :=
    hlayout.slice_record (by omega)
  have hdrop : output.drop zipData.length = archiveComment block := by
    have hfront : (zipData.take (zipData.length - 2) ++
        le16 (UInt16.ofNat (archiveComment block).length)).length = zipData.length := by
      rw [List.length_append, List.length_take, length_le16]
      omega
    rw [hlayout.output, ← List.append_assoc, List.drop_left' hfront]
  have hfield : (u16At output (endRecord output + 20)).toNat = commentLength output := by
    rw [hrecord, show zipData.length - 22 + 20 = zipData.length - 2 by omega, hlayout.length_field,
      to_nat_of_nat16 hlayout.short, hcomment]
  rw [← hrecord] at hkept
  refine ⟨?_, hdrop, hcomment, by omega, by omega, hkept, ?_, hfield, hlayout.signature_start,
    hlayout.signature_of, hlayout.signed_region⟩
  · rw [hlayout.footer_eq, slice_footer_marks]
  · rw [hkept, hrecord, hlayout.magic]

end Signed

/-- The archive of one stored member is signed with a block of one byte. -/
theorem sign_stored_hi : signWholeOutputFile (fun _ => some [0x30]) storedHi =
    .ok (storedHi.take (storedHi.length - 2) ++ (25 :: 0 :: archiveComment [0x30])) := by
  decide +kernel

/-- The block and the bytes it signs are found again. -/
theorem sign_recoverable_hi :
    ∃ output, signWholeOutputFile (fun _ => some [0x30]) storedHi = .ok output ∧
      signatureOf output = [0x30] ∧ signedRegion output = storedHi.take (storedHi.length - 2) := by
  obtain ⟨-, -, -, -, -, -, -, -, -, hsignature, hregion⟩ := sign_recoverable sign_stored_hi rfl
  exact ⟨_, sign_stored_hi, hsignature, hregion⟩

/-! ## The magic of the end record -/

/-- The magic of the end record occurs in the fields of the end record of `zipData` with the comment
length `total` behind them: in the old fields, or in the last three or two bytes of them and the
length. -/
def MagicInFields (zipData : Bytes) (total : Nat) : Prop :=
  (∃ i, zipData.length - 22 < i ∧ i + 6 ≤ zipData.length ∧ slice zipData i 4 = eocdMagic) ∨
  slice zipData (zipData.length - 5) 3 = [0x50, 0x4b, 0x05] ∧ total % 256 = 0x06 ∨
  slice zipData (zipData.length - 4) 2 = [0x50, 0x4b] ∧ total = 0x0605

/-- A byte is a number modulo 256. -/
theorem of_nat8_eq_iff {n : Nat} {b : UInt8} : UInt8.ofNat n = b ↔ n % 256 = b.toNat := by
  rw [← UInt8.toNat_inj, UInt8.toNat_ofNat']

section Signed

variable {zipData output block : Bytes}

/-- Behind the fields of the end record come the comment length and the comment. -/
theorem Layout.drop_length_field (h : Layout zipData block output) :
    output.drop (zipData.length - 2) = UInt8.ofNat (archiveComment block).length ::
      UInt8.ofNat ((archiveComment block).length / 256) :: archiveComment block := by
  have hlen : (zipData.take (zipData.length - 2)).length = zipData.length - 2 := by
    rw [List.length_take]
    omega
  rw [h.output, List.drop_left' hlen, le16, to_nat_of_nat16 h.short]
  rfl

/-- The window that ends with the low byte of the comment length. -/
theorem Layout.slice_low (h : Layout zipData block output) :
    slice output (zipData.length - 5) 4 =
      slice zipData (zipData.length - 5) 3 ++ [UInt8.ofNat (archiveComment block).length] := by
  have hlong := h.long
  have hlow :
      slice output (zipData.length - 2) 1 = [UInt8.ofNat (archiveComment block).length] := by
    rw [slice, h.drop_length_field]
    rfl
  rw [show (4 : Nat) = 3 + 1 by rfl, slice_add, h.slice_record (by omega),
    show zipData.length - 5 + 3 = zipData.length - 2 by omega, hlow]

/-- The window that ends with the comment length. -/
theorem Layout.slice_total (h : Layout zipData block output) :
    slice output (zipData.length - 4) 4 =
      slice zipData (zipData.length - 4) 2 ++
        [UInt8.ofNat (archiveComment block).length,
          UInt8.ofNat ((archiveComment block).length / 256)] := by
  have hlong := h.long
  have htotal : slice output (zipData.length - 2) 2 =
      [UInt8.ofNat (archiveComment block).length,
        UInt8.ofNat ((archiveComment block).length / 256)] := by
    rw [slice, h.drop_length_field]
    rfl
  rw [show slice output (zipData.length - 4) 4 = slice output (zipData.length - 4) (2 + 2) by rfl,
    slice_add, h.slice_record (by omega),
    show zipData.length - 4 + 2 = zipData.length - 2 by omega, htotal]

/-- No window that reaches into the comment holds the magic. -/
theorem Layout.slice_comment (h : Layout zipData block output) {i : Nat}
    (hi : zipData.length ≤ i + 3) : slice output i 4 ≠ eocdMagic := by
  have hlong := h.long
  have hdrop : output.drop zipData.length = archiveComment block := by
    rw [show zipData.length = zipData.length - 2 + 2 by omega, ← List.drop_drop,
      h.drop_length_field]
    rfl
  intro hmagic
  by_cases hle : i ≤ zipData.length
  · -- the first byte of the comment is no byte of the magic
    obtain ⟨rest, hcons⟩ := archive_comment_eq_cons block
    have hfirst : output[zipData.length]? = some 0x73 := by
      have hget : (output.drop zipData.length)[0]? = some 0x73 := by
        rw [hdrop, hcons]
        rfl
      rw [List.getElem?_drop] at hget
      exact hget
    have hbyte : (slice output i 4)[zipData.length - i]? = output[i + (zipData.length - i)]? :=
      get_elem?_slice output (by omega)
    rw [hmagic, Nat.add_sub_cancel' hle, hfirst] at hbyte
    have hmem : (0x73 : UInt8) ∈ eocdMagic := List.mem_of_getElem? hbyte
    revert hmem
    decide
  · have hslice : slice output i 4 = slice (archiveComment block) (i - zipData.length) 4 := by
      rw [← hdrop, slice_drop, Nat.add_sub_cancel' (by omega)]
    rw [hslice] at hmagic
    by_cases hroom : i - zipData.length + 4 ≤ (archiveComment block).length
    · exact h.clean _ hroom hmagic
    · have hlen := congrArg List.length hmagic
      rw [length_slice] at hlen
      simp only [eocdMagic, List.length_cons, List.length_nil] at hlen
      omega

/-- The window that ends with the low byte of the comment length holds the magic. -/
theorem Layout.slice_low_iff (h : Layout zipData block output) :
    slice output (zipData.length - 5) 4 = eocdMagic ↔
      slice zipData (zipData.length - 5) 3 = [0x50, 0x4b, 0x05] ∧
        (archiveComment block).length % 256 = 0x06 := by
  have hsplit : eocdMagic = [0x50, 0x4b, 0x05] ++ [0x06] := rfl
  rw [h.slice_low, hsplit]
  constructor
  · intro heq
    obtain ⟨hfields, hlow⟩ := List.append_inj' heq rfl
    exact ⟨hfields, of_nat8_eq_iff.1 (List.cons.inj hlow).1⟩
  · intro ⟨hfields, hlow⟩
    rw [hfields, (of_nat8_eq_iff (b := 0x06)).2 hlow]

/-- The window that ends with the comment length holds the magic. -/
theorem Layout.slice_total_iff (h : Layout zipData block output) :
    slice output (zipData.length - 4) 4 = eocdMagic ↔
      slice zipData (zipData.length - 4) 2 = [0x50, 0x4b] ∧
        (archiveComment block).length = 0x0605 := by
  have hshort := h.short
  have hsplit : eocdMagic = [0x50, 0x4b] ++ [0x05, 0x06] := rfl
  rw [h.slice_total, hsplit]
  constructor
  · intro heq
    obtain ⟨hfields, htotal⟩ := List.append_inj' heq rfl
    obtain ⟨hlow, hrest⟩ := List.cons.inj htotal
    have hhigh := of_nat8_eq_iff.1 (List.cons.inj hrest).1
    have hlow := of_nat8_eq_iff.1 hlow
    simp only [UInt8.reduceToNat] at hlow hhigh
    exact ⟨hfields, by omega⟩
  · intro ⟨hfields, htotal⟩
    rw [hfields, htotal]
    rfl

end Signed

section Verified

variable {writeSignatureBlock : Bytes → Option Bytes} {zipData output block : Bytes}

/-- A signed file has the magic of the end record nowhere behind the start of that record exactly if
it does not occur in the record's fields and the new comment length. -/
theorem magic_only_at_end_record_iff
    (h : signWholeOutputFile writeSignatureBlock zipData = .ok output)
    (hblock : writeSignatureBlock (zipData.take (zipData.length - 2)) = some block) :
    (∀ i, zipData.length - 22 < i → slice output i 4 ≠ eocdMagic) ↔
      ¬ MagicInFields zipData (block.length + 24) := by
  have hlayout := sign_layout h hblock
  have hlong := hlayout.long
  have htotal : (archiveComment block).length = block.length + 24 := by
    rw [length_archive_comment, show message.length = 17 by rfl]
    omega
  have hlow := hlayout.slice_low_iff
  have hlast := hlayout.slice_total_iff
  rw [htotal] at hlow hlast
  constructor
  · -- each of the three windows lies behind the start of the record
    intro hnone hfields
    rcases hfields with ⟨i, hstart, hend, hmagic⟩ | hthree | htwo
    · exact hnone i hstart (by rw [hlayout.slice_record (by omega), hmagic])
    · exact hnone _ (by omega) (hlow.2 hthree)
    · exact hnone _ (by omega) (hlast.2 htwo)
  · -- a window lies in the old fields, or reaches into the length, or into the comment
    intro hfields i hstart hmagic
    by_cases hrecord : i + 6 ≤ zipData.length
    · refine hfields (.inl ⟨i, hstart, hrecord, ?_⟩)
      rw [← hlayout.slice_record (by omega), hmagic]
    · by_cases hfive : i = zipData.length - 5
      · exact hfields (.inr (.inl (hlow.1 (hfive ▸ hmagic))))
      · by_cases hfour : i = zipData.length - 4
        · exact hfields (.inr (.inr (hlast.1 (hfour ▸ hmagic))))
        · exact hlayout.slice_comment (by omega) hmagic

/-- A file that ends with an end record without comment is signed, if the block allows it. -/
theorem sign_eq_ok_of_block (hlong : 22 ≤ zipData.length)
    (hmagic : slice zipData (zipData.length - 22) 4 = eocdMagic)
    (hblock : writeSignatureBlock (zipData.take (zipData.length - 2)) = some block)
    (hshort : (archiveComment block).length ≤ 65535)
    (hclean : spuriousEOCD (archiveComment block) = none) :
    ∃ output, signWholeOutputFile writeSignatureBlock zipData = .ok output := by
  unfold signWholeOutputFile
  rw [if_neg (by omega), if_neg (not_not.2 hmagic), hblock]
  simp only
  rw [if_neg (by omega), hclean]
  exact ⟨_, rfl⟩

end Verified

/-- The end record of `storedHi` is clean, and so is its signed file. -/
theorem magic_only_at_end_record_hi :
    ∃ output, signWholeOutputFile (fun _ => some [0x30]) storedHi = .ok output ∧
      ∀ i, storedHi.length - 22 < i → slice output i 4 ≠ eocdMagic := by
  have hfields : ¬ MagicInFields storedHi ([0x30].length + 24) := by
    have hlen : storedHi.length = 102 := by decide +kernel
    have hinside : ∀ i < 102, 80 < i → slice storedHi i 4 ≠ eocdMagic := by decide +kernel
    rintro (⟨i, hstart, hend, hmagic⟩ | ⟨-, htotal⟩ | ⟨-, htotal⟩)
    · exact hinside i (by omega) (by omega) hmagic
    · cases htotal
    · cases htotal
  exact ⟨_, sign_stored_hi, (magic_only_at_end_record_iff sign_stored_hi rfl).2 hfields⟩

/-- An archive with one stored member of `n` zero bytes. -/
def zeroArchive (n : Nat) : Bytes := Member.archive ⟨[0x61], [], [], 0, 0, n, List.replicate n 0⟩

/-- Its end record, whose directory offset is the position behind the member. -/
def zeroRecord (n : Nat) : CentralFooter :=
  ⟨MAGIC_CENTRAL_FOOTER, 0, 0, 1, 1, 47, UInt32.ofNat (n + 31), 0⟩

/-- The archive ends with its end record. -/
theorem zero_archive_eq (n : Nat) : ∃ front, zeroArchive n = front ++ (zeroRecord n).encode := by
  unfold zeroArchive Member.archive
  simp only
  refine ⟨_, congrArg (_ ++ CentralFooter.encode ·) ?_⟩
  have hregion : ∀ header : LocalHeader,
      (header.encode ++ [0x61] ++ [] ++ List.replicate n (0 : UInt8)).length = n + 31 := by
    intro header
    simp only [List.length_append, LocalHeader.length_encode, List.length_cons, List.length_nil,
      List.length_replicate]
    omega
  have hdirectory : ∀ header : CentralHeader,
      (header.encode ++ [0x61] ++ ([] : Bytes)).length = 47 := by
    intro header
    simp
  rw [hregion, hdirectory]
  rfl

/-- An archive whose directory starts at position `0x06054b50` is signed, although its end record
contains the magic a second time. -/
theorem sign_accepts_magic_in_fields :
    ∃ output, signWholeOutputFile (fun _ => some [0x30]) (zeroArchive 101010225) = .ok output ∧
      ∃ i, (zeroArchive 101010225).length - 22 < i ∧ slice output i 4 = eocdMagic := by
  obtain ⟨front, heq⟩ := zero_archive_eq 101010225
  -- from here on only the end record matters
  generalize zeroArchive 101010225 = zipData at heq ⊢
  have hlen : zipData.length = front.length + 22 := by
    rw [heq, List.length_append, CentralFooter.length_encode]
  have hrecord : ∀ off, slice zipData (front.length + off) 4 =
      slice (zeroRecord 101010225).encode off 4 := by
    intro off
    rw [heq, slice_append_right (Nat.le_add_right _ _), Nat.add_sub_cancel_left]
  have hmagic : slice zipData (zipData.length - 22) 4 = eocdMagic := by
    rw [hlen, Nat.add_sub_cancel, ← Nat.add_zero front.length, hrecord]
    decide +kernel
  have hsigned : ∃ output, signWholeOutputFile (fun _ => some [0x30]) zipData = .ok output :=
    sign_eq_ok_of_block (by omega) hmagic rfl (by decide) (by decide)
  obtain ⟨output, hsign⟩ := hsigned
  have hlayout := sign_layout hsign rfl
  refine ⟨output, hsign, front.length + 16, by omega, ?_⟩
  rw [hlayout.slice_record (by omega), hrecord]
  decide +kernel

end NamelessCenter.Server
