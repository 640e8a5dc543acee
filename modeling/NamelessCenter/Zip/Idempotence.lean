import NamelessCenter.Zip.Reread
import NamelessCenter.Server.MinSignAPK

/-!
# Rewriting a rewritten archive

`select_written` says that the backward search finds the end record of a rewritten archive behind
any comment that does not contain a further end record, and `entries_of_written` that the entries
found there are the ones that were written. So `zipadjust` takes a rewritten archive with a comment
back to the rewritten archive, in particular one that was signed with `MinSignAPK`.
-/

namespace NamelessCenter.Zip

open Bytes Native Server

/-! ## Archives with a comment -/

/-- The end-of-central-directory magic occurs in `tail` only at its very start. -/
def OnlyMagicAtStart (tail : Bytes) : Prop :=
  ∀ j, 0 < j → j + 4 ≤ tail.length → slice tail j 4 ≠ le32 MAGIC_CENTRAL_FOOTER

instance (tail : Bytes) : Decidable (OnlyMagicAtStart tail) :=
  decidable_of_iff
    (∀ j < tail.length, 0 < j → j + 4 ≤ tail.length → slice tail j 4 ≠ le32 MAGIC_CENTRAL_FOOTER)
    ⟨fun h j hj hroom => h j (by omega) hj hroom, fun h j _ hj hroom => h j hj hroom⟩

section Written

variable {D : RawDeflate} {decompress : Bool} {es : List Entry} {footer : CentralFooter}
  {comment : Bytes}

/-- The directory records of `es` take at least 46 bytes each. -/
theorem le_length_directory (decompress : Bool) (es : List Entry) (o : UInt32) :
    46 * es.length ≤ (directory decompress o es).length := by
  induction es generalizing o with
  | nil => exact Nat.zero_le _
  | cons e es ih =>
      have hrest := ih (e.next decompress o)
      simp only [directory, Entry.record, List.length_append, CentralHeader.length_encode,
        List.length_cons]
      omega

/-- A rewritten archive with a comment, as the next call of the rewriter sees it. -/
structure Commented (decompress : Bool) (es : List Entry) (footer : CentralFooter)
    (comment : Bytes) : Prop where
  nonempty : es ≠ []
  sized : ∀ e ∈ es, e.Sized decompress
  readable : ∀ e ∈ es, e.header.lengthFilename.toNat < 1024 ∧
    e.header.signature = MAGIC_CENTRAL_HEADER
  signature : footer.signature = MAGIC_CENTRAL_FOOTER
  offset : footer.centralDirectoryOffset.toNat = (body decompress es).length
  size : (body decompress es ++ (directory decompress 0 es ++ (footer.encode ++ comment))).length
    ≤ 2 ^ 31
  magic : OnlyMagicAtStart (footer.encode ++ comment)

/-- The search finds the end record that was written. -/
theorem select_written (h : Commented decompress es footer comment) :
    selectFooter (body decompress es ++ (directory decompress 0 es ++
        (footer.encode ++ comment))) =
      some ((body decompress es ++ directory decompress 0 es).length, footer) := by
  have hsize := h.size
  generalize hz : body decompress es ++ (directory decompress 0 es ++
    (footer.encode ++ comment)) = z at hsize ⊢
  have hfront : z = (body decompress es ++ directory decompress 0 es) ++
      (footer.encode ++ comment) := by
    rw [← hz, List.append_assoc]
  obtain ⟨e, rest, hes⟩ := List.exists_cons_of_ne_nil h.nonempty
  have hbody : 30 ≤ (body decompress es).length := by
    rw [hes, show body decompress (e :: rest) = e.emit decompress ++ body decompress rest from rfl,
      List.length_append, Entry.length_emit]
    omega
  have hdirectory := le_length_directory decompress es 0
  have hentries : 1 ≤ es.length := by
    rw [hes]
    simp
  have htail : (footer.encode ++ comment).length = 22 + comment.length := by
    rw [List.length_append, CentralFooter.length_encode]
  have hlen : z.length = (body decompress es ++ directory decompress 0 es).length + 22 +
      comment.length := by
    rw [hfront, List.length_append, htail]
    omega
  have htotal : (body decompress es ++ directory decompress 0 es).length =
      (body decompress es).length + (directory decompress 0 es).length := List.length_append
  have hpositions : scanPositions (sizeOf z) = z.length - 3 := by
    rw [scan_positions_eq (by omega) (by omega), if_pos (by omega)]
  have hrecord : slice z (body decompress es ++ directory decompress 0 es).length 22 =
      footer.encode := by
    have hpart := slice_append_append (body decompress es ++ directory decompress 0 es)
      footer.encode comment
    rw [CentralFooter.length_encode] at hpart
    rw [hfront, hpart]
  have hmagic : u32At z (body decompress es ++ directory decompress 0 es).length =
      MAGIC_CENTRAL_FOOTER := by
    rw [hfront, u32_at_append_right (Nat.le_refl _), Nat.sub_self,
      CentralFooter.u32_at_encode_append, h.signature]
  have hdecode : CentralFooter.decode
      (slice z (body decompress es ++ directory decompress 0 es).length 22) = footer := by
    rw [hrecord, CentralFooter.decode_encode]
  have hcentral : u32At z footer.centralDirectoryOffset.toNat = MAGIC_CENTRAL_HEADER := by
    rw [h.offset, ← hz, u32_at_append_right (Nat.le_refl _), Nat.sub_self, hes, directory,
      Entry.record, List.append_assoc, List.append_assoc, CentralHeader.u32_at_encode_append]
    exact (h.readable e (by rw [hes]; exact List.mem_cons_self)).2
  have hlast : ∀ j, (body decompress es ++ directory decompress 0 es).length < j →
      j < z.length - 3 → u32At z j ≠ MAGIC_CENTRAL_FOOTER := by
    intro j hj hjz heq
    rw [u32_at_eq_iff (by omega), hfront, slice_append_right (by omega)] at heq
    refine h.magic (j - (body decompress es ++ directory decompress 0 es).length) (by omega) ?_ heq
    rw [htail]
    omega
  have hscan : scanFooter z (z.length - 3) =
      .found (body decompress es ++ directory decompress 0 es).length (CentralFooter.decode
        (slice z (body decompress es ++ directory decompress 0 es).length 22)) :=
    scan_footer_last (by omega) (by omega) (by omega) hmagic hlast
      (by rw [hdecode, h.offset]; omega) (by rw [hdecode]; exact hcentral)
  have hzero : footer.centralDirectoryOffset ≠ 0 := by
    intro hzero
    have hoffset := h.offset
    rw [hzero, UInt32.toNat_zero] at hoffset
    omega
  unfold selectFooter
  rw [hpositions, hscan, hdecode]
  simp only [if_neg hzero]

/-- The entries found there are the entries that were written. -/
theorem entries_of_written (h : Commented decompress es footer comment) :
    entriesOf D (body decompress es ++ (directory decompress 0 es ++ (footer.encode ++ comment)))
      decompress = some (reread decompress 0 es) := by
  have hsize := h.size
  have hselect := select_written h
  have hlaid := laid_out_body decompress es []
    (directory decompress 0 es ++ (footer.encode ++ comment))
  rw [List.nil_append, List.length_nil] at hlaid
  have hz : (body decompress es ++ (directory decompress 0 es ++
      (footer.encode ++ comment))).length = (body decompress es).length +
        (directory decompress 0 es ++ (footer.encode ++ comment)).length := List.length_append
  have hrest : (directory decompress 0 es ++ (footer.encode ++ comment)).length =
      (directory decompress 0 es).length + (footer.encode ++ comment).length := List.length_append
  have htail : (footer.encode ++ comment).length = 22 + comment.length := by
    rw [List.length_append, CentralFooter.length_encode]
  have hdirectory := le_length_directory decompress es 0
  generalize hfile : body decompress es ++ (directory decompress 0 es ++
    (footer.encode ++ comment)) = z at hsize hselect hlaid hz ⊢
  have hoffset := h.offset
  have hinSize : (sizeOf z - footer.centralDirectoryOffset).toNat =
      (directory decompress 0 es ++ (footer.encode ++ comment)).length := by
    have hz32 : (sizeOf z).toNat = z.length := by
      rw [sizeOf, UInt32.toNat_ofNat', Nat.mod_eq_of_lt (by omega)]
    rw [UInt32.toNat_sub_of_le _ _ (by rw [UInt32.le_iff_toNat_le]; omega), hz32]
    omega
  have hbuffer : directoryBuffer z footer =
      some (directory decompress 0 es ++ (footer.encode ++ comment)) := by
    rw [directoryBuffer, hinSize, hoffset, xseekread_of_le (by omega), ← hfile,
      slice_append_right (Nat.le_refl _), Nat.sub_self, slice_zero_length]
  have hsignature : u32At (footer.encode ++ comment) 0 ≠ MAGIC_CENTRAL_HEADER := by
    rw [CentralFooter.u32_at_encode_append, h.signature]
    decide
  refine entries_of_eq_some_iff.2 ⟨_, footer, _, hselect, hbuffer, ?_⟩
  exact read_directory_written h.sized h.readable hlaid (by rw [UInt32.toNat_zero]; omega)
    (by omega) hsignature (by omega)

/-- Rewriting a rewritten archive with a comment gives the archive without the comment. -/
theorem zipadjust_written (Z : Inflater) (fuel : Nat) (D : RawDeflate)
    (h : Commented decompress es footer comment) :
    zipadjust Z fuel (body decompress es ++ (directory decompress 0 es ++
        (footer.encode ++ comment))) decompress = .ok (rewritten decompress footer es) := by
  rw [zipadjust_complete (select_written h) (entries_of_written (D := D) h) reread_copies,
    rewritten_reread]

end Written

/-! ## Attached comments -/

/-- The file `y` with the comment `c` attached: the comment length in the last two bytes of `y` is
set and the comment follows. -/
def attach (y c : Bytes) : Bytes :=
  y.take (y.length - 2) ++ (le16 (UInt16.ofNat c.length) ++ c)

/-- What is rewritten has an end record. -/
theorem le_length_rewritten (decompress : Bool) (footer : CentralFooter) (es : List Entry) :
    22 ≤ (rewritten decompress footer es).length := by
  unfold rewritten finish
  have hend := end_le_length_splice (xseekwrite (place decompress [] 0 es)
      (advance decompress 0 es).toNat ((directory decompress 0 es).take
        (UInt32.ofNat (directory decompress 0 es).length).toNat))
    (advance decompress 0 es + UInt32.ofNat (directory decompress 0 es).length).toNat
    (CentralFooter.encode_ne_nil (closingFooter (UInt32.ofNat (directory decompress 0 es).length)
      (advance decompress 0 es) footer))
  rw [CentralFooter.length_encode] at hend
  exact (Nat.le_add_left _ _).trans hend

/-- Attaching a comment to a file that ends with an end record sets the record's comment length. -/
theorem attach_append_footer (front c : Bytes) (f : CentralFooter) :
    attach (front ++ f.encode) c =
      front ++ (CentralFooter.encode { f with lengthComment := UInt16.ofNat c.length } ++ c) := by
  have hlen : (front ++ f.encode).length - 2 = front.length + 20 := by
    rw [List.length_append, CentralFooter.length_encode]
    omega
  have hset := CentralFooter.take_encode_append f (UInt16.ofNat c.length)
  rw [attach, hlen, List.take_length_add_append, List.append_assoc,
    ← List.append_assoc (f.encode.take 20), hset]

/-- A rewritten archive with an attached comment is what `Commented` describes. -/
theorem exists_commented {Z : Inflater} {D : RawDeflate} (hZ : Z.Sound D) {fuel : Nat}
    {x y c : Bytes} {decompress : Bool} (hrun : zipadjust Z fuel x decompress = .ok y)
    (hsizes : DeclaredSizes D x decompress) (hoffsets : (attach y c).length ≤ 2 ^ 31)
    (hmagic : OnlyMagicAtStart ((attach y c).drop (y.length - 22))) :
    ∃ es footer, Commented decompress es footer c ∧ y = rewritten decompress footer es ∧
      attach y c =
        body decompress es ++ (directory decompress 0 es ++ (footer.encode ++ c)) := by
  obtain ⟨i, footer, es, hselect, hentries, rfl⟩ := zipadjust_sound hZ hrun
  have hsized := sized_of_declared hsizes hentries
  have hge := le_length_rewritten decompress footer es
  have hattached : (attach (rewritten decompress footer es) c).length =
      (rewritten decompress footer es).length + c.length := by
    simp only [attach, List.length_append, List.length_take, length_le16]
    omega
  obtain ⟨hlayout, hfit⟩ := rewritten_layout footer hsized
    (entries_of_directory_lt hentries 0) (.inl (by omega))
  obtain ⟨-, -, hsignature, -⟩ := select_footer_spec hselect
  generalize hclosing : closingFooter (UInt32.ofNat (directory decompress 0 es).length)
    (UInt32.ofNat (body decompress es).length) footer = closing at hlayout
  have hfile : attach (rewritten decompress footer es) c = body decompress es ++
      (directory decompress 0 es ++
        (CentralFooter.encode { closing with lengthComment := UInt16.ofNat c.length } ++ c)) := by
    rw [hlayout, ← List.append_assoc, attach_append_footer, List.append_assoc]
  refine ⟨es, { closing with lengthComment := UInt16.ofNat c.length }, ⟨?_, hsized, ?_, ?_, ?_, ?_,
    ?_⟩, ?_, hfile⟩
  · exact entries_of_ne_nil hselect hentries
  · intro e he
    obtain ⟨rest, hread, hsig⟩ := entries_of_mem hentries he
    exact ⟨hread.short, hsig⟩
  · rw [← hclosing]
    exact hsignature
  · rw [← hclosing]
    show (UInt32.ofNat (body decompress es).length).toNat = _
    rw [UInt32.toNat_ofNat', Nat.mod_eq_of_lt (by omega)]
  · rw [← hfile]
    exact hoffsets
  · have hlen : (rewritten decompress footer es).length - 22 =
        (body decompress es ++ directory decompress 0 es).length := by
      rw [hlayout]
      simp only [List.length_append, CentralFooter.length_encode]
      omega
    rw [hfile, hlen, ← List.append_assoc, List.drop_left] at hmagic
    exact hmagic
  · rw [← hclosing]
    rfl

/-- The comment of a signed archive adds no further end record behind the one of the archive, since
it starts with a letter and was searched before it was written. -/
theorem only_magic_signed {record comment : Bytes} {block : Bytes} (hrecord : record.length = 22)
    (hstart : OnlyMagicAtStart record) (hcomment : comment = archiveComment block)
    (hsearched : ∀ i, i + 4 ≤ comment.length → slice comment i 4 ≠ eocdMagic) :
    OnlyMagicAtStart (record ++ comment) := by
  have hmagic : le32 MAGIC_CENTRAL_FOOTER = eocdMagic := by decide
  intro j hj hroom heq
  rw [List.length_append] at hroom
  by_cases hinside : j + 4 ≤ 22
  · rw [slice_append_of_le (by omega)] at heq
    exact hstart j hj (by omega) heq
  by_cases hbehind : 22 ≤ j
  · rw [slice_append_right (by omega), hmagic] at heq
    exact hsearched (j - record.length) (by omega) heq
  · -- The four bytes contain the first byte of the comment.
    obtain ⟨rest, hrest⟩ := archive_comment_eq_cons block
    have hsplit : slice (record ++ comment) j 4 =
        slice (record ++ comment) j (22 - j) ++ slice comment 0 (4 - (22 - j)) := by
      have hadd := slice_add (record ++ comment) j (22 - j) (4 - (22 - j))
      have hright : slice (record ++ comment) 22 (4 - (22 - j)) =
          slice comment (22 - record.length) (4 - (22 - j)) := slice_append_right (by omega)
      rw [hrecord, Nat.sub_self] at hright
      rw [show 22 - j + (4 - (22 - j)) = 4 by omega, show j + (22 - j) = 22 by omega,
        hright] at hadd
      exact hadd
    obtain ⟨n, hn⟩ : ∃ n, 4 - (22 - j) = n + 1 := ⟨4 - (22 - j) - 1, by omega⟩
    have hmem : (0x73 : UInt8) ∈ slice (record ++ comment) j 4 := by
      rw [hsplit, hn, hcomment, hrest]
      exact List.mem_append_right _ List.mem_cons_self
    rw [heq, hmagic] at hmem
    revert hmem
    decide

/-- Rewriting is idempotent and strips an archive comment, in particular the whole-file signature
that `signWholeOutputFile` appends. -/
theorem zipadjust_strips_comment {Z : Inflater} {D : RawDeflate} (hZ : Z.Sound D) {fuel : Nat}
    {x y : Bytes} {decompress : Bool} (hrun : zipadjust Z fuel x decompress = .ok y)
    (hsizes : DeclaredSizes D x decompress) :
    (∀ c : Bytes, c.length ≤ 65535 → (attach y c).length ≤ 2 ^ 31 →
      OnlyMagicAtStart ((attach y c).drop (y.length - 22)) →
      ∀ fuel', zipadjust Z fuel' (attach y c) decompress = .ok y) ∧
    (y.length ≤ 2 ^ 31 → attach y [] = y) ∧
    ∀ writeSignatureBlock signed, signWholeOutputFile writeSignatureBlock y = .ok signed →
      ∃ c, c.length ≤ 65535 ∧ signed = attach y c ∧
        (signed.length ≤ 2 ^ 31 → OnlyMagicAtStart (slice signed (y.length - 22) 22) →
          ∀ fuel', zipadjust Z fuel' signed decompress = .ok y) := by
  have hstrip : ∀ c : Bytes, (attach y c).length ≤ 2 ^ 31 →
      OnlyMagicAtStart ((attach y c).drop (y.length - 22)) →
      ∀ fuel', zipadjust Z fuel' (attach y c) decompress = .ok y := by
    intro c hsize hmagic fuel'
    obtain ⟨es, footer, hcommented, hy, hfile⟩ := exists_commented hZ hrun hsizes hsize hmagic
    rw [hfile, zipadjust_written Z fuel' D hcommented, ← hy]
  refine ⟨fun c _ => hstrip c, ?_, ?_⟩
  · intro hsize
    obtain ⟨i, footer, es, -, hentries, rfl⟩ := zipadjust_sound hZ hrun
    obtain ⟨hlayout, -⟩ := rewritten_layout footer (sized_of_declared hsizes hentries)
      (entries_of_directory_lt hentries 0) (.inl (by omega))
    rw [hlayout, ← List.append_assoc, attach_append_footer, List.append_nil]
    rfl
  · intro writeSignatureBlock signed hsign
    obtain ⟨hlen, -, block, comment, -, hcomment, hshort, hsearched, hsigned⟩ := sign_eq_ok hsign
    refine ⟨comment, hshort, hsigned, fun hsize hrecord => ?_⟩
    rw [hsigned] at hsize hrecord ⊢
    refine hstrip comment hsize ?_
    have htail : (attach y comment).drop (y.length - 22) =
        slice (attach y comment) (y.length - 22) 22 ++ comment := by
      have hfront : (y.take (y.length - 2) ++ le16 (UInt16.ofNat comment.length)).length =
          y.length - 22 + 22 := by
        rw [List.length_append, List.length_take, length_le16]
        omega
      rw [drop_eq_slice_append _ _ 22, ← hfront, attach, ← List.append_assoc, List.drop_left]
    rw [htail]
    refine only_magic_signed ?_ hrecord hcomment hsearched
    rw [length_slice_of_le]
    simp only [attach, List.length_append, List.length_take, length_le16]
    omega

/-- The archive `deflatedHi` is rewritten to `storedHi`, and so is a signed `storedHi`. -/
theorem zipadjust_strips_comment_hi :
    zipadjust (.ofDecoder storedBlock) 2 deflatedHi true = .ok storedHi ∧
      ∃ signed, signWholeOutputFile (fun _ => some [1, 2, 3]) storedHi = .ok signed ∧
        zipadjust (.ofDecoder storedBlock) 0 signed true = .ok storedHi := by
  have hsizes : DeclaredSizes storedBlock deflatedHi true := by
    have hentries : entriesOf storedBlock deflatedHi true = some
        [⟨CentralHeader.decode (deflatedHi.drop 38), [0x61], LocalHeader.decode deflatedHi,
          [0x68, 0x69]⟩] := by
      decide +kernel
    intro es hes e he _
    rw [hentries, Option.some.injEq] at hes
    subst hes
    rw [List.mem_singleton] at he
    subst he
    decide +kernel
  obtain ⟨-, -, hstrips⟩ := zipadjust_strips_comment stored_block_sound zipadjust_deflated_hi hsizes
  have hsigned : signWholeOutputFile (fun _ => some [1, 2, 3]) storedHi =
      .ok (attach storedHi (archiveComment [1, 2, 3])) := by
    decide +kernel
  obtain ⟨c, -, -, hstripped⟩ := hstrips _ _ hsigned
  exact ⟨zipadjust_deflated_hi, _, hsigned, hstripped (by decide +kernel) (by decide +kernel) 0⟩

end NamelessCenter.Zip
