import NamelessCenter.Zip.Structs
import NamelessCenter.Zip.Transfer

/-!
# The archive rewriter of zipadjust.c

`zipadjust` is split where the C function has its loops: `scanFooter` is the backward search for
the end record, `rewriteEntry` is one iteration of the `while (1)` loop over the central directory
buffer, `zipadjustLoop` is that loop, and `finish` writes the directory and the end record. The
cursor holds the buffers and indices of the C function; the header at the cursor is overwritten in
the input buffer before it is copied to the output buffer, as in the source.

Files are regular files on a disk without errors, allocation succeeds, and `off_t` and `size_t`
have 64 bits. An access outside a buffer ends the model with `Stop.outOfBounds`.
-/

namespace NamelessCenter.Zip

open Bytes Native

/-- How a call of `zipadjust` ends other than by returning 1. `returns0` carries what is left at the
output path, if the call got as far as creating it. -/
inductive Stop where
  | returns0 (output : Option Bytes)
  | outOfBounds
  | outOfFuel
  deriving DecidableEq, Repr

/-! ## The end record -/

/-- The result of the backward search, with the position of the record it stopped at. -/
inductive Scan where
  | readFailed
  | notFound
  | found (position : Nat) (footer : CentralFooter)
  deriving DecidableEq, Repr

/-- The `for` loop of the search, with `i + 1` positions left to try. A record counts only if its
directory offset leads to a central header; every read must succeed. -/
def scanFooter (fin : Bytes) : Nat → Scan
  | 0 => .notFound
  | i + 1 =>
      match xseekread fin i 4 with
      | none => .readFailed
      | some magic =>
          if u32At magic 0 = MAGIC_CENTRAL_FOOTER then
            match xseekread fin i 22 with
            | none => .readFailed
            | some record =>
                let footer := CentralFooter.decode record
                match xseekread fin footer.centralDirectoryOffset.toNat 46 with
                | none => .readFailed
                | some header =>
                    if (CentralHeader.decode header).signature = MAGIC_CENTRAL_HEADER then
                      .found i footer
                    else scanFooter fin i
          else scanFooter fin i

/-- `unsigned int size = lseek(fin, 0, SEEK_END)`. -/
def sizeOf (fin : Bytes) : UInt32 := UInt32.ofNat fin.length

/-- The number of positions the search visits. It starts at `int i = size - 4`, which is negative
when the unsigned difference does not fit an `int`. -/
def scanPositions (size : UInt32) : Nat :=
  if (size - 4).toNat < 2 ^ 31 then (size - 4).toNat + 1 else 0

/-! ## Entries -/

/-- The corrections of the central header: new offset, flags, sizes and no variable fields. The
flags are masked with `!8`, which is the logical negation of 8. -/
def correctCentral (decompress : Bool) (outIndex : UInt32) (h : CentralHeader) : CentralHeader :=
  let inflates := decompress && h.compressionMethod == 8
  { h with
    offset := outIndex
    flags := h.flags &&& 0
    compressionMethod := if inflates then 0 else h.compressionMethod
    sizeCompressed := if inflates then h.sizeUncompressed else h.sizeCompressed
    lengthExtra := 0
    lengthComment := 0 }

/-- The corrections of the local header, which takes its values from the central one. -/
def correctLocal (central : CentralHeader) (l : LocalHeader) : LocalHeader :=
  { l with
    compressionMethod := central.compressionMethod
    flags := central.flags
    crc32 := central.crc32
    sizeUncompressed := central.sizeUncompressed
    sizeCompressed := central.sizeCompressed
    lengthExtra := 0 }

/-- Where the entry's data is read from: after the name and the extra field whose lengths are
those of the central header. -/
def dataStart (h : CentralHeader) : Nat :=
  h.offset.toNat + 30 + h.lengthFilename.toNat + h.lengthExtra.toNat

/-- The distance from one central header to the next. -/
def headerSpan (h : CentralHeader) : Nat :=
  46 + h.lengthFilename.toNat + h.lengthExtra.toNat + h.lengthComment.toNat

/-- The buffers and indices of the rewriting loop, with the output file. `centralOut` is the part
of `central_directory_out` below `central_directory_out_index`. -/
structure Cursor where
  centralIn : Bytes
  inIndex : Nat
  centralOut : Bytes
  outIndex : UInt32
  fout : Bytes

/-- The transfer of an entry's data to position `outIndex` of the output: inflated or copied. The
result is `none` when the given number of rounds does not finish it. -/
def moveData (Z : Inflater) (fuel : Nat) (decompress : Bool) (fin fout : Bytes)
    (h : CentralHeader) (outIndex : Nat) : Option (Bool × Bytes) :=
  if decompress && h.compressionMethod == 8 then
    xdecompress Z fuel fin fout (dataStart h) outIndex
  else
    some (xfilecopy fin fout (dataStart h) outIndex h.sizeCompressed.toUInt64)

/-- One iteration of the rewriting loop, at a central header. -/
def rewriteEntry (Z : Inflater) (fuel : Nat) (decompress : Bool) (fin : Bytes) (c : Cursor) :
    Except Stop Cursor :=
  let header := CentralHeader.decode (c.centralIn.drop c.inIndex)
  let nameLen := header.lengthFilename.toNat
  -- `filename` has 1024 bytes, the last of which must take the terminator.
  if c.centralIn.length < c.inIndex + 46 + nameLen ∨ 1024 ≤ nameLen then .error .outOfBounds
  else
    let filename := slice c.centralIn (c.inIndex + 46) nameLen
    match xseekread fin header.offset.toNat 30 with
    | none => .error (.returns0 (some c.fout))
    | some buf =>
        let central := correctCentral decompress c.outIndex header
        let local' := correctLocal central (LocalHeader.decode buf)
        let fout := xseekwrite c.fout c.outIndex.toNat local'.encode
        let outIndex := c.outIndex + 30
        let fout := xseekwrite fout outIndex.toNat filename
        let outIndex := outIndex + UInt32.ofNat nameLen
        match moveData Z fuel decompress fin fout header outIndex.toNat with
        | none => .error .outOfFuel
        | some (false, fout) => .error (.returns0 (some fout))
        | some (true, fout) =>
            let centralIn := splice c.centralIn c.inIndex central.encode
            .ok
              { centralIn
                inIndex := c.inIndex + headerSpan header
                centralOut := c.centralOut ++ slice centralIn c.inIndex (46 + nameLen)
                outIndex := outIndex + local'.sizeCompressed
                fout }

/-- The rewriting loop, for at most the given number of iterations. It ends at the first position
that does not hold a central header. -/
def zipadjustLoop (Z : Inflater) (fuel : Nat) (decompress : Bool) (fin : Bytes) :
    Nat → Cursor → Except Stop Cursor
  | 0, _ => .error .outOfFuel
  | rounds + 1, c =>
      if c.centralIn.length < c.inIndex + 4 then .error .outOfBounds
      else if u32At c.centralIn c.inIndex ≠ MAGIC_CENTRAL_HEADER then .ok c
      else
        match rewriteEntry Z fuel decompress fin c with
        | .error stop => .error stop
        | .ok c => zipadjustLoop Z fuel decompress fin rounds c

/-! ## The whole function -/

/-- The end record of the output. -/
def closingFooter (size outIndex : UInt32) (footer : CentralFooter) : CentralFooter :=
  { footer with
    centralDirectorySize := size
    centralDirectoryOffset := outIndex
    lengthComment := 0 }

/-- The writes after the loop: the directory and the end record. -/
def finish (footer : CentralFooter) (centralOut : Bytes) (outIndex : UInt32) (fout : Bytes) :
    Bytes :=
  let size := UInt32.ofNat centralOut.length
  let fout := xseekwrite fout outIndex.toNat (centralOut.take size.toNat)
  xseekwrite fout (outIndex + size).toNat (closingFooter size outIndex footer).encode

/-- `zipadjust(fin, fout, decompress)`, where every decompression loop gets `fuel` rounds. The
result `ok out` is the return value 1 with the output file. -/
def zipadjust (Z : Inflater) (fuel : Nat) (fin : Bytes) (decompress : Bool) : Except Stop Bytes :=
  let size := sizeOf fin
  match scanFooter fin (scanPositions size) with
  | .readFailed => .error (.returns0 none)
  | .notFound => .error (.returns0 none)
  | .found _ footer =>
      if footer.centralDirectoryOffset = 0 then .error (.returns0 none)
      else
        let inSize := (size - footer.centralDirectoryOffset).toNat
        match xseekread fin footer.centralDirectoryOffset.toNat inSize with
        | none => .error (.returns0 none)
        | some centralIn =>
            match zipadjustLoop Z fuel decompress fin (inSize + 1) ⟨centralIn, 0, [], 0, []⟩ with
            | .error stop => .error stop
            | .ok c => .ok (finish footer c.centralOut c.outIndex c.fout)

/-! ## The search -/

/-- The record that the search takes the bytes at `j` for. -/
def recordAt (x : Bytes) (j : Nat) : CentralFooter := CentralFooter.decode (slice x j 22)

/-- One position of the search: it goes on without the magic or without a central header, ends at a
record that leads to one, or ends because it cannot read. -/
theorem scan_footer_cases (fin : Bytes) (n : Nat) :
    (scanFooter fin (n + 1) = scanFooter fin n ∧
      (u32At fin n = MAGIC_CENTRAL_FOOTER → n + 22 ≤ fin.length ∧
        (recordAt fin n).centralDirectoryOffset.toNat + 46 ≤ fin.length ∧
          u32At fin (recordAt fin n).centralDirectoryOffset.toNat ≠ MAGIC_CENTRAL_HEADER)) ∨
    (scanFooter fin (n + 1) = .found n (recordAt fin n) ∧
      u32At fin n = MAGIC_CENTRAL_FOOTER ∧ n + 22 ≤ fin.length ∧
        (recordAt fin n).centralDirectoryOffset.toNat + 46 ≤ fin.length ∧
          u32At fin (recordAt fin n).centralDirectoryOffset.toNat = MAGIC_CENTRAL_HEADER) ∨
    (scanFooter fin (n + 1) = .readFailed ∧
      (n + 4 ≤ fin.length → u32At fin n = MAGIC_CENTRAL_FOOTER ∧ (n + 22 ≤ fin.length →
        ¬ (recordAt fin n).centralDirectoryOffset.toNat + 46 ≤ fin.length))) := by
  have hread : ∀ pos len, 4 ≤ len → u32At (slice fin pos len) 0 = u32At fin pos :=
    fun pos len hlen => by rw [u32_at_slice (by omega), Nat.add_zero]
  have hfailed : ∀ pos len, 0 < len → ¬ pos + len ≤ fin.length →
      xseekread fin pos len = none := fun pos len hlen hroom => by
    rw [xseekread, if_neg (by rw [length_slice]; omega)]
  rw [scanFooter]
  by_cases hfour : n + 4 ≤ fin.length
  · simp only [xseekread_of_le hfour, hread n 4 le_rfl]
    by_cases hmagic : u32At fin n = MAGIC_CENTRAL_FOOTER
    · rw [if_pos hmagic]
      by_cases hrecord : n + 22 ≤ fin.length
      · simp only [xseekread_of_le hrecord]
        by_cases hroom : (recordAt fin n).centralDirectoryOffset.toNat + 46 ≤ fin.length
        · have hheader := xseekread_of_le hroom
          unfold recordAt at hroom hheader ⊢
          simp only [hheader]
          rw [CentralHeader.decode, hread _ 46 (by omega)]
          by_cases hcentral : u32At fin
              (CentralFooter.decode (slice fin n 22)).centralDirectoryOffset.toNat =
                MAGIC_CENTRAL_HEADER
          · rw [if_pos hcentral]
            exact .inr (.inl ⟨rfl, hmagic, hrecord, hroom, hcentral⟩)
          · rw [if_neg hcentral]
            exact .inl ⟨rfl, fun _ => ⟨hrecord, hroom, hcentral⟩⟩
        · have hheader := hfailed _ 46 (by omega) hroom
          unfold recordAt at hheader
          simp only [hheader]
          exact .inr (.inr ⟨trivial, fun _ => ⟨hmagic, fun _ => hroom⟩⟩)
      · simp only [hfailed n 22 (by omega) hrecord]
        exact .inr (.inr ⟨trivial, fun _ => ⟨hmagic, fun h => absurd h hrecord⟩⟩)
    · rw [if_neg hmagic]
      exact .inl ⟨rfl, fun h => absurd h hmagic⟩
  · simp only [hfailed n 4 (by omega) hfour]
    exact .inr (.inr ⟨trivial, fun h => absurd h hfour⟩)

/-- The search stops at an end record whose directory offset leads to a central header. -/
theorem scan_footer_found {fin : Bytes} {n i : Nat} {footer : CentralFooter}
    (h : scanFooter fin n = .found i footer) :
    i < n ∧ i + 22 ≤ fin.length ∧ u32At fin i = MAGIC_CENTRAL_FOOTER ∧
      footer = CentralFooter.decode (slice fin i 22) ∧
      footer.centralDirectoryOffset.toNat + 46 ≤ fin.length ∧
      u32At fin footer.centralDirectoryOffset.toNat = MAGIC_CENTRAL_HEADER := by
  induction n with
  | zero => cases h
  | succ n ih =>
      rcases scan_footer_cases fin n with
        ⟨hgoes, -⟩ | ⟨hfound, hmagic, hrecord, hroom, hcentral⟩ | ⟨hfailed, -⟩
      · rw [hgoes] at h
        obtain ⟨hlt, hrest⟩ := ih h
        exact ⟨Nat.lt_succ_of_lt hlt, hrest⟩
      · rw [hfound] at h
        cases h
        exact ⟨Nat.lt_succ_self _, hrecord, hmagic, rfl, hroom, hcentral⟩
      · rw [hfailed] at h
        cases h

/-- The search starts at the last position with room for a signature, if that fits an `int`. -/
theorem scan_positions_eq {fin : Bytes} (hlong : 4 ≤ fin.length) (hsize : fin.length < 2 ^ 32) :
    scanPositions (sizeOf fin) = if fin.length - 4 < 2 ^ 31 then fin.length - 3 else 0 := by
  have hnat : (sizeOf fin).toNat = fin.length := by
    rw [sizeOf, UInt32.toNat_ofNat', Nat.mod_eq_of_lt hsize]
  have hfour : (4 : UInt32).toNat = 4 := rfl
  have hlast : (sizeOf fin - 4).toNat = fin.length - 4 := by
    rw [UInt32.toNat_sub_of_le _ _ (by rw [UInt32.le_iff_toNat_le]; omega), hnat, hfour]
  rw [scanPositions, hlast, show fin.length - 4 + 1 = fin.length - 3 by omega]

/-- The search finds the last end record of the file when that record is usable. -/
theorem scan_footer_last {fin : Bytes} {n i : Nat} (hlt : i < n) (hn : n + 3 ≤ fin.length)
    (hrecord : i + 22 ≤ fin.length) (hmagic : u32At fin i = MAGIC_CENTRAL_FOOTER)
    (hlast : ∀ j, i < j → j < n → u32At fin j ≠ MAGIC_CENTRAL_FOOTER)
    (hroom : (CentralFooter.decode (slice fin i 22)).centralDirectoryOffset.toNat + 46 ≤ fin.length)
    (hcentral : u32At fin (CentralFooter.decode (slice fin i 22)).centralDirectoryOffset.toNat =
      MAGIC_CENTRAL_HEADER) :
    scanFooter fin n = .found i (CentralFooter.decode (slice fin i 22)) := by
  induction n with
  | zero => omega
  | succ n ih =>
      by_cases hin : n = i
      · subst hin
        rcases scan_footer_cases fin n with
          ⟨-, hpassed⟩ | ⟨hfound, -⟩ | ⟨-, hfailed⟩
        · exact absurd hcentral (hpassed hmagic).2.2
        · exact hfound
        · exact absurd hroom ((hfailed (by omega)).2 hrecord)
      · -- without the magic the search can only go on
        have hother := hlast n (by omega) (by omega)
        rcases scan_footer_cases fin n with
          ⟨hgoes, -⟩ | ⟨-, hfooter, -⟩ | ⟨-, hfailed⟩
        · rw [hgoes]
          exact ih (by omega) (by omega) fun j hj hjn => hlast j hj (by omega)
        · exact absurd hfooter hother
        · exact absurd (hfailed (by omega)).1 hother

/-- If the magic stands at `j`, a record fits in there, its directory offset leads to 46 bytes of
the file, and they are not a central header. -/
def PassedBy (x : Bytes) (j : Nat) : Prop :=
  u32At x j = MAGIC_CENTRAL_FOOTER →
    j + 22 ≤ x.length ∧ (recordAt x j).centralDirectoryOffset.toNat + 46 ≤ x.length ∧
      u32At x (recordAt x j).centralDirectoryOffset.toNat ≠ MAGIC_CENTRAL_HEADER

instance (x : Bytes) (j : Nat) : Decidable (PassedBy x j) :=
  inferInstanceAs (Decidable (_ → _ ∧ _ ∧ _))

section Search

variable {x : Bytes} {i n : Nat}

/-- The search goes on at a position exactly if that position is passed by, or ends there. -/
theorem scan_footer_succ (hroom : n + 4 ≤ x.length) :
    (PassedBy x n → scanFooter x (n + 1) = scanFooter x n) ∧
      (¬ PassedBy x n → scanFooter x (n + 1) = .readFailed ∨
        scanFooter x (n + 1) = .found n (recordAt x n)) := by
  rcases scan_footer_cases x n with
    ⟨hgoes, hpassed⟩ | ⟨hfound, hmagic, -, -, hcentral⟩ | ⟨hfailed, hunreadable⟩
  · exact ⟨fun _ => hgoes, fun hstays => absurd hpassed hstays⟩
  · exact ⟨fun hpassed => absurd hcentral (hpassed hmagic).2.2, fun _ => .inr hfound⟩
  · obtain ⟨hmagic, hroom'⟩ := hunreadable hroom
    exact ⟨fun hpassed => absurd (hpassed hmagic).2.1 (hroom' (hpassed hmagic).1),
      fun _ => .inl hfailed⟩

/-- The search ends at a position with a usable record exactly if it passes by all positions behind
it. -/
theorem scan_footer_eq_found_iff (hstop : scanFooter x (i + 1) = .found i (recordAt x i))
    (hlt : i < n) (hn : n + 3 ≤ x.length) :
    scanFooter x n = .found i (recordAt x i) ↔ ∀ j, i < j → j < n → PassedBy x j := by
  induction n with
  | zero => omega
  | succ n ih =>
      by_cases hin : n = i
      · subst hin
        exact iff_of_true hstop fun j hj hjn => absurd hjn (by omega)
      · obtain ⟨hgoes, hstays⟩ := scan_footer_succ (x := x) (n := n) (by omega)
        have hrest := ih (by omega) (by omega)
        by_cases hpassed : PassedBy x n
        · rw [hgoes hpassed, hrest]
          constructor
          · intro hall j hj hjn
            by_cases hlast : j = n
            · exact hlast ▸ hpassed
            · exact hall j hj (by omega)
          · exact fun hall j hj hjn => hall j hj (by omega)
        · refine iff_of_false (fun hfound => ?_) fun hall =>
            hpassed (hall n (by omega) (Nat.lt_succ_self n))
          -- the search fails at `n` or takes the record there
          rcases hstays hpassed with hfailed | hother
          · rw [hfailed] at hfound
            cases hfound
          · rw [hother] at hfound
            cases hfound
            exact hin rfl

end Search

/-- The search passes by every position behind `i`. -/
def PassesLater (x : Bytes) (i : Nat) : Prop := ∀ j, i < j → j + 4 ≤ x.length → PassedBy x j

instance (x : Bytes) (i : Nat) : Decidable (PassesLater x i) :=
  decidable_of_iff (∀ j < x.length, i < j → j + 4 ≤ x.length → PassedBy x j)
    ⟨fun h j hj hroom => h j (by omega) hj hroom, fun h j _ hj hroom => h j hj hroom⟩

/-- The deflated member of `deflatedHi` is stored. -/
theorem zipadjust_deflated_hi :
    zipadjust (.ofDecoder storedBlock) 2 deflatedHi true = .ok storedHi := by
  decide +kernel

/-- The deflated member of `deflatedPair` is stored, and the extra fields are removed. -/
theorem zipadjust_deflated_pair :
    zipadjust (.ofDecoder storedBlock) 2 deflatedPair true = .ok storedPair := by
  decide +kernel

end NamelessCenter.Zip
