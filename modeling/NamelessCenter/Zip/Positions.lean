import NamelessCenter.Zip.Bounds
import NamelessCenter.Zip.Metadata

/-!
# Positions in the output

`zipadjust` computes positions of the output in `out_index`, which has 32 bits and grows by the
sizes that the headers give. `zipadjustPositions` lists every position that a call records in a
header or seeks to, and `exactPositions` the sums that they stand for. `positions_exact_iff` says
that they agree exactly when the end record of the output starts below 4 GiB.
-/

namespace NamelessCenter.Zip

open Bytes Native

/-! ## The positions of a call -/

/-- The positions of an entry: the offset recorded in its central header, and where its local
header, its name and its data are written. -/
def entryPositions (decompress : Bool) (outIndex : UInt32) (h : CentralHeader) : List UInt32 :=
  [(correctCentral decompress outIndex h).offset, outIndex, outIndex + 30,
    outIndex + 30 + UInt32.ofNat h.lengthFilename.toNat]

/-- The positions behind the loop: the directory's offset recorded in the end record, and where the
directory and the end record are written. -/
def closingPositions (size outIndex : UInt32) (footer : CentralFooter) : List UInt32 :=
  [(closingFooter size outIndex footer).centralDirectoryOffset, outIndex, outIndex + size]

/-- The positions from a turn of the rewriting loop on. -/
def loopPositions (Z : Inflater) (fuel : Nat) (decompress : Bool) (fin : Bytes)
    (footer : CentralFooter) : Nat → Cursor → List UInt32
  | 0, _ => []
  | rounds + 1, c =>
      if c.centralIn.length < c.inIndex + 4 then []
      else if u32At c.centralIn c.inIndex ≠ MAGIC_CENTRAL_HEADER then
        closingPositions (UInt32.ofNat c.centralOut.length) c.outIndex footer
      else
        match rewriteEntry Z fuel decompress fin c with
        | .error _ => []
        | .ok c' =>
            entryPositions decompress c.outIndex c.header ++
              loopPositions Z fuel decompress fin footer rounds c'

/-- The positions that a call of `zipadjust` records and uses, in the order of their computation. -/
def zipadjustPositions (Z : Inflater) (fuel : Nat) (fin : Bytes) (decompress : Bool) :
    List UInt32 :=
  match selectFooter fin with
  | none => []
  | some (_, footer) =>
      match directoryBuffer fin footer with
      | none => []
      | some dir =>
          loopPositions Z fuel decompress fin footer (dir.length + 1) ⟨dir, 0, [], 0, []⟩

/-! ## Exact positions -/

/-- The size of the output directory. -/
def directorySize (hs : List CentralHeader) : Nat :=
  (hs.map fun h => 46 + h.lengthFilename.toNat).sum

/-- The positions of entries and a directory of `size` bytes that follow each other from `pos` on,
as sums. -/
def exactPositions (decompress : Bool) (size : Nat) : Nat → List CentralHeader → List Nat
  | pos, [] => [pos, pos, pos + size]
  | pos, h :: hs =>
      [pos, pos, pos + 30, pos + 30 + h.lengthFilename.toNat] ++
        exactPositions decompress size (pos + regionSize decompress h) hs

/-! ## The positions of a list of entries -/

/-- The positions for a list of entries. -/
def positionsOf (decompress : Bool) (size : UInt32) (footer : CentralFooter) :
    UInt32 → List Entry → List UInt32
  | o, [] => closingPositions size o footer
  | o, e :: es =>
      entryPositions decompress o e.header ++
        positionsOf decompress size footer (e.next decompress o) es

section Sums

variable {decompress : Bool} {footer : CentralFooter}

/-- The first position is where the data start. -/
theorem head_positions_of (size o : UInt32) (es : List Entry) :
    (positionsOf decompress size footer o es).head? = some o := by
  cases es <;> rfl

/-- So it is without a wrap-around. -/
theorem head_exact_positions (size pos : Nat) (hs : List CentralHeader) :
    (exactPositions decompress size pos hs).head? = some pos := by
  cases hs <;> rfl

/-- The positions of an entry are exact if its data starts below 4 GiB. -/
theorem entry_positions_exact_iff (decompress : Bool) (o : UInt32) (h : CentralHeader) :
    (entryPositions decompress o h).map UInt32.toNat =
        [o.toNat, o.toNat, o.toNat + 30, o.toNat + 30 + h.lengthFilename.toNat] ↔
      o.toNat + 30 + h.lengthFilename.toNat < 2 ^ 32 := by
  obtain ⟨hthirty, hdata⟩ := name_data_to_nat_mod o h
  have hrecorded : (correctCentral decompress o h).offset = o := rfl
  simp only [entryPositions, List.map_cons, List.map_nil, hrecorded, hthirty, hdata,
    List.cons.injEq, and_true, true_and]
  omega

/-- The computed positions are the sums exactly if the last sum fits 32 bits. -/
theorem positions_of_exact_iff (decompress : Bool) (footer : CentralFooter) (size : UInt32)
    (es : List Entry) (o : UInt32) :
    (positionsOf decompress size footer o es).map UInt32.toNat =
        exactPositions decompress size.toNat o.toNat (es.map Entry.header) ↔
      o.toNat + directoryStart decompress (es.map Entry.header) + size.toNat < 2 ^ 32 := by
  unfold directoryStart
  induction es generalizing o with
  | nil =>
      have hend : (o + size).toNat = (o.toNat + size.toNat) % 2 ^ 32 := UInt32.toNat_add o size
      have hrecorded : (closingFooter size o footer).centralDirectoryOffset = o := rfl
      simp only [positionsOf, closingPositions, exactPositions, List.map_nil, List.map_cons,
        List.sum_nil, hrecorded, hend, List.cons.injEq, and_true, true_and]
      omega
  | cons e es ih =>
      have hnext := next_to_nat_mod decompress e o
      have hregion : 30 + e.header.lengthFilename.toNat ≤ regionSize decompress e.header :=
        Nat.le_add_right _ _
      have hentry := entry_positions_exact_iff decompress o e.header
      rw [positionsOf, List.map_append, List.map_cons, exactPositions, List.map_cons, List.sum_cons]
      constructor
      · intro heq
        obtain ⟨hfirst, hrest⟩ := List.append_inj heq rfl
        -- the first position behind the entry is exact, so the index has not wrapped
        have hhead := congrArg List.head? hrest
        rw [List.head?_map, head_positions_of, head_exact_positions, Option.map_some,
          Option.some.injEq] at hhead
        rw [← hhead, ih] at hrest
        omega
      · intro hlt
        have hexact : (e.next decompress o).toNat = o.toNat + regionSize decompress e.header := by
          omega
        rw [hentry.2 (by omega), ← hexact, (ih _).2 (by omega)]

/-- The directory has the size of its headers and names. -/
theorem length_directory (decompress : Bool) {es : List Entry} (o : UInt32)
    (hname : ∀ e ∈ es, e.filename.length = e.header.lengthFilename.toNat) :
    (directory decompress o es).length = directorySize (es.map Entry.header) := by
  induction es generalizing o with
  | nil => rfl
  | cons e es ih =>
      have hrest := ih (e.next decompress o) fun e' he' => hname e' (List.mem_cons_of_mem _ he')
      have hself := hname e List.mem_cons_self
      rw [directory, List.length_append, hrest, Entry.record, List.length_append,
        CentralHeader.length_encode, hself, directorySize, directorySize, List.map_cons,
        List.map_cons, List.sum_cons]

end Sums

/-! ## The positions that the loop computes -/

section Run

variable {Z : Inflater} {D : RawDeflate} {fuel : Nat} {decompress : Bool} {fin : Bytes}

/-- A loop that ends normally has computed the positions of the entries it read. -/
theorem loop_positions_eq (hZ : Z.Sound D) (footer : CentralFooter) {rounds : Nat} {c c' : Cursor}
    (h : zipadjustLoop Z fuel decompress fin rounds c = .ok c') :
    ∃ es, readDirectory D fin decompress rounds (c.centralIn.drop c.inIndex) = some es ∧
      Rewrites decompress c es c' ∧
      loopPositions Z fuel decompress fin footer rounds c =
        positionsOf decompress (UInt32.ofNat c'.centralOut.length) footer c.outIndex es := by
  induction rounds generalizing c with
  | zero => cases h
  | succ rounds ih =>
      unfold zipadjustLoop at h
      unfold readDirectory loopPositions
      rw [u32_at_drop, Nat.add_zero, List.length_drop]
      split at h
      · cases h
      · rename_i hroom
        rw [if_neg (by omega), if_neg hroom]
        split at h
        · rename_i hend
          cases h
          exact ⟨[], if_pos hend, .refl _ _, if_pos hend⟩
        · rename_i hheader
          rw [if_neg hheader, if_neg hheader]
          cases hentry : rewriteEntry Z fuel decompress fin c with
          | error stop => simp [hentry] at h
          | ok c₁ =>
              simp only [hentry] at h
              obtain ⟨e, hread, hstep⟩ := rewrite_entry_sound hZ hentry
              obtain ⟨es, hes, hrest, hpositions⟩ := ih h
              have hsame : c.header = e.header := (read_entry_eq_some.1 hread).header.symm
              refine ⟨e :: es, ?_, .cons hstep hrest, ?_⟩
              · simp only [hread]
                rw [List.drop_drop, ← hstep.buffer, hes, Option.map_some]
              · simp only
                rw [hpositions, hstep.outIndex, hsame]
                rfl

/-- In every call that returns 1, the positions that are recorded and used are the exact sums of the
sizes before them exactly if the entries' regions and the directory stay below 4 GiB together. -/
theorem positions_exact_iff (hZ : Z.Sound D) {out : Bytes}
    (hrun : zipadjust Z fuel fin decompress = .ok out) :
    ∃ es, entriesOf D fin decompress = some es ∧
      ((zipadjustPositions Z fuel fin decompress).map UInt32.toNat =
          exactPositions decompress (directorySize (es.map Entry.header)) 0
            (es.map Entry.header) ↔
        ((es.map Entry.header).map (outputSize decompress)).sum < 2 ^ 32) := by
  rw [zipadjust_eq] at hrun
  unfold zipadjustPositions
  cases hselect : selectFooter fin with
  | none =>
      rw [hselect] at hrun
      cases hrun
  | some selected =>
      obtain ⟨i, footer⟩ := selected
      rw [hselect] at hrun
      simp only at hrun ⊢
      cases hbuffer : directoryBuffer fin footer with
      | none =>
          rw [hbuffer] at hrun
          cases hrun
      | some dir =>
          rw [hbuffer] at hrun
          simp only at hrun ⊢
          split at hrun
          · cases hrun
          · rename_i c' hloop
            obtain ⟨es, hes, hrewrites, hpositions⟩ := loop_positions_eq hZ footer hloop
            have hentries : entriesOf D fin decompress = some es :=
              entries_of_eq_some_iff.2 ⟨i, footer, dir, hselect, hbuffer, hes⟩
            have hnames : ∀ e ∈ es, e.filename.length = e.header.lengthFilename.toNat :=
              fun e he => (entries_of_mem hentries he).choose_spec.1.length_filename
            have hlength := length_directory decompress 0 hnames
            have hsize : (UInt32.ofNat c'.centralOut.length).toNat =
                directorySize (es.map Entry.header) := by
              rw [hrewrites.centralOut, List.nil_append, UInt32.toNat_ofNat',
                Nat.mod_eq_of_lt (entries_of_directory_lt hentries 0), hlength]
            refine ⟨es, hentries, ?_⟩
            rw [hpositions, ← directory_sizes decompress hnames 0, hlength, ← hsize]
            have hexact := positions_of_exact_iff decompress footer
              (UInt32.ofNat c'.centralOut.length) es 0
            rw [UInt32.toNat_zero, Nat.zero_add] at hexact
            exact hexact

end Run

/-- The positions of `deflatedPair` do not wrap. -/
theorem positions_exact_pair :
    (zipadjustPositions (.ofDecoder storedBlock) 2 deflatedPair true).map UInt32.toNat =
      [0, 0, 30, 31, 33, 33, 63, 64, 66, 66, 160] := by
  obtain ⟨es, hentries, hexact⟩ := positions_exact_iff stored_block_sound zipadjust_deflated_pair
  have hheaders : es.map Entry.header = pairHeaders := by
    have hmap : (entriesOf storedBlock deflatedPair true).map (List.map Entry.header) =
        some pairHeaders := by decide +kernel
    rw [hentries] at hmap
    exact Option.some.inj hmap
  rw [hheaders] at hexact
  rw [hexact.2 (by decide +kernel)]
  decide +kernel

/-- The archive `deflatedHi` whose member announces an uncompressed size of 2^32 - 1 bytes. -/
def hugeHi : Bytes :=
  Member.archive ⟨[0x61], [], [], 8, 0xd8932aac, 2 ^ 32 - 1, [1, 2, 0, 0xfd, 0xff, 0x68, 0x69]⟩

/-- The index wraps behind the only entry, and the directory is written over it. -/
theorem huge_size_wraps :
    (zipadjust (.ofDecoder storedBlock) 2 hugeHi true).isOk = true ∧
      (entriesOf storedBlock hugeHi true).map (List.map Entry.header) =
        some [CentralHeader.decode (hugeHi.drop 38)] ∧
      (zipadjustPositions (.ofDecoder storedBlock) 2 hugeHi true).map UInt32.toNat =
        [0, 0, 30, 31, 30, 30, 77] ∧
      exactPositions true (directorySize [CentralHeader.decode (hugeHi.drop 38)]) 0
          [CentralHeader.decode (hugeHi.drop 38)] =
        [0, 0, 30, 31, 2 ^ 32 + 30, 2 ^ 32 + 30, 2 ^ 32 + 77] :=
  ⟨by decide +kernel, by decide +kernel, by decide +kernel, by decide +kernel⟩

end NamelessCenter.Zip
