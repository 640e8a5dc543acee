import NamelessCenter.Zip.Contents

/-!
# The search for the end record

An archive comment may contain anything, so the magic of an end record may also start behind the
archive's own end record: in the fields of that record or in the comment. The search of `zipadjust`
comes to these positions first. `scan_ends_at_end_record_iff` says for which archives it passes all
of them by and ends at the end record of the archive.
-/

namespace NamelessCenter.Zip

open Bytes Native

/-- A single-disk archive with the end record `footer` at `i` and the central headers `hs`. The
comment of the end record reaches exactly to the end of the file and holds any bytes, those of
another end record included. -/
structure Archive (x : Bytes) (i : Nat) (footer : CentralFooter) (hs : List CentralHeader) :
    Prop where
  endRecord : IsEnd x i
  footer_eq : footer = CentralFooter.decode (slice x i 22)
  singleDisk : footer.diskNumber = 0 ∧ footer.diskNumberCentralDirectory = 0 ∧
    footer.centralDirectoryEntriesThisDisk = footer.centralDirectoryEntriesTotal
  nonempty : hs ≠ []
  count : footer.centralDirectoryEntriesTotal.toNat = hs.length
  directory : Directory x footer.centralDirectoryOffset.toNat hs i
  directorySize : footer.centralDirectoryOffset.toNat + footer.centralDirectorySize.toNat = i
  localHeader : ∀ h ∈ hs, u32At x h.offset.toNat = MAGIC_LOCAL_HEADER ∧
    (LocalHeader.decode (x.drop h.offset.toNat)).lengthFilename = h.lengthFilename
  data : ∀ h ∈ hs,
    memberStart x h + h.sizeCompressed.toNat ≤ footer.centralDirectoryOffset.toNat

/-- The archives whose last end record is their own are among them. -/
theorem WellFormed.archive {D : RawDeflate} {x : Bytes} {i : Nat} {footer : CentralFooter}
    {hs : List CentralHeader} (h : WellFormed D x i footer hs) : Archive x i footer hs :=
  ⟨(find_end_eq_some h.endRecord).2, h.footer_eq, h.singleDisk, h.nonempty, h.count, h.directory,
    h.directorySize, h.localHeader, h.data⟩

/-- For every archive of less than 2 GiB, the search ends at the end record of the archive exactly
if it passes by every position behind it. -/
theorem scan_ends_at_end_record_iff {x : Bytes} {i : Nat} {footer : CentralFooter}
    {hs : List CentralHeader} (h : Archive x i footer hs) (hsize : x.length < 2 ^ 31) :
    scanFooter x (scanPositions (sizeOf x)) = .found i footer ↔
      ∀ j, i < j → j + 4 ≤ x.length → PassedBy x j := by
  obtain ⟨hmagic, hreach⟩ := h.endRecord
  obtain ⟨hroom, hcentral⟩ := h.directory.central h.nonempty
  have hfooter : footer = recordAt x i := h.footer_eq
  have hstop : scanFooter x (i + 1) = .found i (recordAt x i) :=
    scan_footer_last (Nat.lt_succ_self i) (by omega) (by omega) hmagic
      (fun j hj hji => absurd hji (by omega)) (by rw [← h.footer_eq]; omega)
      (by rw [← h.footer_eq]; exact hcentral)
  rw [scan_positions_eq (by omega) (by omega), if_pos (by omega), hfooter,
    scan_footer_eq_found_iff hstop (by omega) (by omega)]
  exact forall₂_congr fun j _ => imp_congr (by omega) Iff.rfl

/-- The search ends in front of the record in the comment of `deflatedPair`. -/
theorem scan_ends_at_end_record_pair :
    scanFooter deflatedPair (scanPositions (sizeOf deflatedPair)) =
      .found 173 (CentralFooter.decode (deflatedPair.drop 173)) :=
  (scan_ends_at_end_record_iff well_formed_pair.archive (by decide +kernel)).2 passes_later_pair

/-- The archive `storedHi` with the archive comment `50 4b 05 06`. -/
def magicComment : Bytes := storedHi.take 100 ++ le16 4 ++ [0x50, 0x4b, 0x05, 0x06]

/-- The search takes the comment for an end record, which it cannot read. -/
theorem comment_stops_search :
    Archive magicComment 80 (CentralFooter.decode (magicComment.drop 80))
      [CentralHeader.decode (magicComment.drop 33)] ∧
    magicComment.length < 2 ^ 31 ∧
    scanFooter magicComment (scanPositions (sizeOf magicComment)) = .readFailed := by
  refine ⟨⟨?_, ?_, ?_, ?_, ?_, ?_, ?_, ?_, ?_⟩, ?_, ?_⟩
  all_goals decide +kernel

end NamelessCenter.Zip
