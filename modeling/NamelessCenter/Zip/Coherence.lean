import NamelessCenter.Zip.Directory

/-!
# Rewritten archives are coherent

`Coherent out` says that the file `out` is a ZIP archive whose two header copies, offsets, sizes
and counts agree and which has no extra fields, comments or data descriptors.
`zipadjust_coherent` says that the output of a successful call is one.
-/

namespace NamelessCenter.Zip

open Bytes Native

/-- The central header `h` for the file `name` and the local header at `pos` agree. -/
structure Described (out : Bytes) (pos : Nat) (h : CentralHeader) (name : Bytes) : Prop where
  signature : h.signature = MAGIC_CENTRAL_HEADER
  offset : h.offset.toNat = pos
  nameLength : h.lengthFilename.toNat = name.length
  noExtra : h.lengthExtra = 0
  noComment : h.lengthComment = 0
  noDescriptor : h.flags &&& 8 = 0
  localHeader : ∃ l : LocalHeader, slice out pos 30 = l.encode ∧
    l.signature = MAGIC_LOCAL_HEADER ∧ l.compressionMethod = h.compressionMethod ∧
    l.flags = h.flags ∧ l.crc32 = h.crc32 ∧ l.sizeCompressed = h.sizeCompressed ∧
    l.sizeUncompressed = h.sizeUncompressed ∧ l.lengthFilename = h.lengthFilename ∧
    l.lengthExtra = 0
  localName : slice out (pos + 30) name.length = name

/-- The entries lie one after another between two positions. -/
def Chained (out : Bytes) : Nat → List (CentralHeader × Bytes) → Nat → Prop
  | pos, [], stop => pos = stop
  | pos, (h, name) :: hs, stop =>
      Described out pos h name ∧
        Chained out (pos + 30 + h.lengthFilename.toNat + h.sizeCompressed.toNat) hs stop

/-- The file is an archive whose directory and end record describe its entries: the directory
starts where the last entry ends, the end record follows it, and the file ends there. -/
def Coherent (out : Bytes) : Prop :=
  ∃ (hs : List (CentralHeader × Bytes)) (footer : CentralFooter),
    Chained out 0 hs footer.centralDirectoryOffset.toNat ∧
    (hs.flatMap fun entry => entry.1.encode ++ entry.2) =
      slice out footer.centralDirectoryOffset.toNat footer.centralDirectorySize.toNat ∧
    (hs.flatMap fun entry => entry.1.encode ++ entry.2).length =
      footer.centralDirectorySize.toNat ∧
    footer.centralDirectoryEntriesThisDisk.toNat = hs.length ∧
    footer.centralDirectoryEntriesTotal.toNat = hs.length ∧
    footer.signature = MAGIC_CENTRAL_FOOTER ∧ footer.lengthComment = 0 ∧
    out.drop (footer.centralDirectoryOffset.toNat + footer.centralDirectorySize.toNat) =
      footer.encode

/-! ## Rewritten archives -/

section Written

variable {decompress : Bool}

/-- The headers and names in the output directory. -/
def described (decompress : Bool) : UInt32 → List Entry → List (CentralHeader × Bytes)
  | _, [] => []
  | o, e :: es => (e.central decompress o, e.filename) :: described decompress (e.next decompress o)
      es

/-- The directory is the headers, each with its name. -/
theorem directory_eq_flat_map (es : List Entry) (o : UInt32) :
    directory decompress o es =
      (described decompress o es).flatMap fun entry => entry.1.encode ++ entry.2 := by
  induction es generalizing o with
  | nil => rfl
  | cons e es ih =>
      rw [directory, described, List.flatMap_cons, ih]
      rfl

/-- There is one for each entry. -/
theorem length_described (es : List Entry) (o : UInt32) :
    (described decompress o es).length = es.length := by
  induction es generalizing o with
  | nil => rfl
  | cons e es ih => rw [described, List.length_cons, ih, List.length_cons]

/-- The corrections make the header copies of an entry agree. -/
theorem described_of_entry_at {out : Bytes} {e : Entry} {o : UInt32} (hsized : e.Sized decompress)
    (hsignature : e.header.signature = MAGIC_CENTRAL_HEADER)
    (hlocal : e.localHeader.signature = MAGIC_LOCAL_HEADER ∧
      e.localHeader.lengthFilename = e.header.lengthFilename)
    (hat : EntryAt decompress out o.toNat e) :
    Described out o.toNat (e.central decompress o) e.filename where
  signature := hsignature
  offset := rfl
  nameLength := hsized.name.symm
  noExtra := rfl
  noComment := rfl
  noDescriptor := by
    show (e.header.flags &&& 0) &&& 8 = 0
    rw [UInt16.and_zero, UInt16.zero_and]
  localHeader :=
    ⟨e.localOut decompress, hat.localHeader, hlocal.1, rfl, rfl, rfl, rfl, rfl, hlocal.2, rfl⟩
  localName := hat.filename

/-- Entries that are laid out one after another are chained by their directory. -/
theorem chained_of_laid_out {out : Bytes} {es : List Entry} {o : UInt32}
    (hsized : ∀ e ∈ es, e.Sized decompress)
    (hsignature : ∀ e ∈ es, e.header.signature = MAGIC_CENTRAL_HEADER)
    (hlocal : ∀ e ∈ es, e.localHeader.signature = MAGIC_LOCAL_HEADER ∧
      e.localHeader.lengthFilename = e.header.lengthFilename)
    (hlaid : LaidOut decompress out o.toNat es)
    (hfit : o.toNat + (body decompress es).length < 2 ^ 32) :
    Chained out o.toNat (described decompress o es) (o.toNat + (body decompress es).length) := by
  induction es generalizing o with
  | nil => rfl
  | cons e es ih =>
      have hself := List.mem_cons_self (a := e) (l := es)
      obtain ⟨hnext, hlaid', hstop⟩ := hlaid.tail (hsized e hself) hfit
      have hrest := ih (fun e' he' => hsized e' (List.mem_cons_of_mem _ he'))
        (fun e' he' => hsignature e' (List.mem_cons_of_mem _ he'))
        (fun e' he' => hlocal e' (List.mem_cons_of_mem _ he')) hlaid' (by omega)
      refine ⟨described_of_entry_at (hsized e hself) (hsignature e hself) (hlocal e hself) hlaid.1,
        ?_⟩
      have hspan : o.toNat + 30 + (e.central decompress o).lengthFilename.toNat +
          (e.central decompress o).sizeCompressed.toNat = (e.next decompress o).toNat := by
        have hname : (e.central decompress o).lengthFilename.toNat = e.filename.length :=
          (hsized e hself).name.symm
        have hdata : (e.central decompress o).sizeCompressed.toNat = e.payload.length :=
          (hsized e hself).data.symm
        rw [hname, hdata, hnext, Entry.length_emit]
        omega
      rw [hspan, ← hstop]
      exact hrest

/-- A rewritten archive whose entries and counts are right is coherent. -/
theorem rewritten_coherent {es : List Entry} {footer : CentralFooter}
    (hsized : ∀ e ∈ es, e.Sized decompress)
    (hsignature : ∀ e ∈ es, e.header.signature = MAGIC_CENTRAL_HEADER)
    (hlocal : ∀ e ∈ es, e.localHeader.signature = MAGIC_LOCAL_HEADER ∧
      e.localHeader.lengthFilename = e.header.lengthFilename)
    (hfooter : footer.signature = MAGIC_CENTRAL_FOOTER)
    (hthis : footer.centralDirectoryEntriesThisDisk.toNat = es.length)
    (htotal : footer.centralDirectoryEntriesTotal.toNat = es.length)
    (hdirectory : (directory decompress 0 es).length < 2 ^ 32)
    (hfit : (rewritten decompress footer es).length < 2 ^ 32) :
    Coherent (rewritten decompress footer es) := by
  obtain ⟨hlayout, hsum⟩ := rewritten_layout footer hsized hdirectory (.inl hfit)
  generalize hclosing : closingFooter (UInt32.ofNat (directory decompress 0 es).length)
    (UInt32.ofNat (body decompress es).length) footer = closing at hlayout
  have hoffset : closing.centralDirectoryOffset.toNat = (body decompress es).length := by
    rw [← hclosing]
    show (UInt32.ofNat (body decompress es).length).toNat = _
    rw [UInt32.toNat_ofNat', Nat.mod_eq_of_lt (by omega)]
  have hsize : closing.centralDirectorySize.toNat = (directory decompress 0 es).length := by
    rw [← hclosing]
    show (UInt32.ofNat (directory decompress 0 es).length).toNat = _
    rw [UInt32.toNat_ofNat', Nat.mod_eq_of_lt hdirectory]
  have hlaid := laid_out_body decompress es []
    (directory decompress 0 es ++ closing.encode)
  rw [List.nil_append, ← hlayout, List.length_nil] at hlaid
  have hchained := chained_of_laid_out (o := 0) hsized hsignature hlocal hlaid
    (by rw [UInt32.toNat_zero]; omega)
  rw [UInt32.toNat_zero, Nat.zero_add] at hchained
  refine ⟨described decompress 0 es, closing, ?_, ?_, ?_, ?_, ?_, ?_, ?_, ?_⟩
  · rw [hoffset]
    exact hchained
  · rw [hoffset, hsize, hlayout, slice_append_append, directory_eq_flat_map]
  · rw [hsize, directory_eq_flat_map]
  · rw [length_described, ← hclosing]
    exact hthis
  · rw [length_described, ← hclosing]
    exact htotal
  · rw [← hclosing]
    exact hfooter
  · rw [← hclosing]
    rfl
  · rw [hoffset, hsize, hlayout, ← List.append_assoc, ← List.length_append, List.drop_left]

end Written

/-- The output of a successful call is coherent, when the selected end record follows its directory
and counts its headers, the two header copies give the same name lengths, every inflated stream has
its declared length, and the output stays below 4 GiB. -/
theorem zipadjust_coherent {Z : Inflater} {D : RawDeflate} (hZ : Z.Sound D) {fuel : Nat}
    {x out : Bytes} {decompress : Bool} {i : Nat} {footer : CentralFooter}
    {hs : List CentralHeader}
    (hrun : zipadjust Z fuel x decompress = .ok out) (hselect : selectFooter x = some (i, footer))
    (hdirectory : Directory x footer.centralDirectoryOffset.toNat hs i)
    (hthis : footer.centralDirectoryEntriesThisDisk.toNat = hs.length)
    (htotal : footer.centralDirectoryEntriesTotal.toNat = hs.length)
    (hlocal : ∀ h ∈ hs, u32At x h.offset.toNat = MAGIC_LOCAL_HEADER ∧
      (LocalHeader.decode (slice x h.offset.toNat 30)).lengthFilename = h.lengthFilename)
    (hdeclared : ∀ h ∈ hs, inflates decompress h = true → ∀ data used,
      D.decode (x.drop (dataStart h)) = some (data, used) →
      data.length = h.sizeUncompressed.toNat)
    (hfit : out.length < 2 ^ 32) : Coherent out := by
  obtain ⟨i', footer', es, hselect', hentries, rfl⟩ := zipadjust_sound hZ hrun
  rw [hselect, Option.some.injEq, Prod.mk.injEq] at hselect'
  obtain ⟨rfl, rfl⟩ := hselect'
  obtain ⟨hroom, hfooter, hmagic, -⟩ := select_footer_spec hselect
  have hend : u32At x i = MAGIC_CENTRAL_FOOTER := by
    rw [hfooter, CentralFooter.decode, u32_at_slice (by omega), Nat.add_zero] at hmagic
    exact hmagic
  have hheaders := entries_of_headers hselect hdirectory hend hentries
  have hmem : ∀ e ∈ es, e.header ∈ hs := by
    intro e he
    rw [← hheaders]
    exact List.mem_map_of_mem he
  have hcount : es.length = hs.length := by
    rw [← hheaders, List.length_map]
  refine rewritten_coherent ?_ ?_ ?_ hmagic (hthis.trans hcount.symm) (htotal.trans hcount.symm)
    (entries_of_directory_lt hentries 0) hfit
  · intro e he
    obtain ⟨rest, hread, -⟩ := entries_of_mem hentries he
    refine sized_of_read hread fun hinflates => ?_
    have hpayload := hread.payload
    rw [payloadOf, if_pos hinflates, Option.map_eq_some_iff] at hpayload
    obtain ⟨⟨data, used⟩, hdecode, hdata⟩ := hpayload
    rw [← hdata]
    exact hdeclared e.header (hmem e he) hinflates data used hdecode
  · intro e he
    obtain ⟨rest, -, hsignature⟩ := entries_of_mem hentries he
    exact hsignature
  · intro e he
    obtain ⟨rest, hread, -⟩ := entries_of_mem hentries he
    obtain ⟨hsignature, hname⟩ := hlocal e.header (hmem e he)
    rw [hread.localHeader]
    refine ⟨?_, hname⟩
    rw [LocalHeader.decode, u32_at_slice (by omega), Nat.add_zero]
    exact hsignature

/-- The archive that `deflatedPair` is rewritten to is coherent. -/
theorem zipadjust_coherent_pair : Coherent storedPair := by
  have hselect : selectFooter deflatedPair =
      some (173, CentralFooter.decode (deflatedPair.drop 173)) := by
    decide +kernel
  have hdirectory : Directory deflatedPair
      (CentralFooter.decode (deflatedPair.drop 173)).centralDirectoryOffset.toNat
      pairHeaders 173 := by
    decide +kernel
  refine zipadjust_coherent stored_block_sound zipadjust_deflated_pair hselect hdirectory
    (by decide +kernel) (by decide +kernel) (by decide +kernel) ?_ (by decide +kernel)
  intro h hmem hmode data used hstream
  obtain ⟨hdecode, hsize⟩ := decode_deflated_pair h hmem hmode
  rw [hdecode] at hstream
  cases hstream
  exact hsize.symm

end NamelessCenter.Zip
