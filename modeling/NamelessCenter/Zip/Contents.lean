import NamelessCenter.Zip.Reader

/-!
# The contents of a rewritten archive

The rewriter finds an entry's data with the extra field length of its central header, while the
data start behind the extra field of the local header. `zipadjust_contents` says when the members
of the output are those of the input: exactly when the bytes found there stand for the entry's
content, in particular when both headers give the same extra field length. The theorem
`zipadjust_loses_content` is an archive with a local extra field for which they are not.
-/

namespace NamelessCenter.Zip

open Bytes Native

/-! ## Members of a rewritten archive -/

/-- The content that the output holds for an entry. -/
def writtenContent (D : RawDeflate) (decompress : Bool) (e : Entry) : Option Bytes :=
  if inflates decompress e.header then some e.payload else contentOf D e.header e.payload

section Output

variable {D : RawDeflate} {decompress : Bool} {out : Bytes}

/-- The corrected header stands for the same content of the written data. -/
theorem content_of_central (e : Entry) (o : UInt32) :
    contentOf D (e.central decompress o) e.payload = writtenContent D decompress e := by
  unfold writtenContent inflates Entry.central correctCentral
  cases hmode : decompress && e.header.compressionMethod == 8 with
  | true => simp [contentOf]
  | false => simp [contentOf]

/-- The content of a member at its place in the output. -/
theorem member_content_written {e : Entry} {o : UInt32} (hsized : e.Sized decompress)
    (hlocal : e.localHeader.signature = MAGIC_LOCAL_HEADER ∧
      e.localHeader.lengthFilename = e.header.lengthFilename)
    (hat : EntryAt decompress out o.toNat e) :
    memberContent D out (e.central decompress o) = writtenContent D decompress e := by
  have hheader : LocalHeader.decode (out.drop o.toNat) = e.localOut decompress := by
    rw [← LocalHeader.decode_slice (Nat.le_refl 30), hat.localHeader, LocalHeader.decode_encode]
  have hoffset : (e.central decompress o).offset = o := rfl
  have hsignature : u32At out o.toNat = MAGIC_LOCAL_HEADER := by
    rw [← LocalHeader.signature_decode_drop, hheader]
    exact hlocal.1
  have hstart : memberStart out (e.central decompress o) = o.toNat + 30 + e.filename.length := by
    unfold memberStart
    rw [hoffset, hheader]
    show o.toNat + 30 + e.localHeader.lengthFilename.toNat + 0 = _
    rw [hlocal.2, hsized.name, Nat.add_zero]
  have hsize : (e.central decompress o).sizeCompressed.toNat = e.payload.length :=
    hsized.data.symm
  have hroom := hat.room
  rw [Entry.length_emit] at hroom
  unfold memberContent
  rw [hoffset, hstart, hsize, hat.payload, content_of_central, if_pos ⟨hsignature, by omega⟩]

/-- Reading the members of the output directory gives the written contents. -/
theorem read_members_written {es : List Entry} {o : UInt32} {pos : Nat} {tail : Bytes}
    (hsized : ∀ e ∈ es, e.Sized decompress)
    (hsignature : ∀ e ∈ es, e.header.signature = MAGIC_CENTRAL_HEADER)
    (hlocal : ∀ e ∈ es, e.localHeader.signature = MAGIC_LOCAL_HEADER ∧
      e.localHeader.lengthFilename = e.header.lengthFilename)
    (hlaid : LaidOut decompress out o.toNat es)
    (hfit : o.toNat + (body decompress es).length < 2 ^ 32)
    (hdirectory : out.drop pos = directory decompress o es ++ tail) (hpos : pos ≤ out.length) :
    readMembers D out es.length pos = gather (writtenContent D decompress) es := by
  induction es generalizing o pos with
  | nil => rfl
  | cons e es ih =>
      have hself := List.mem_cons_self (a := e) (l := es)
      obtain ⟨-, hlaid', hstop⟩ := hlaid.tail (hsized e hself) hfit
      have hname : (e.central decompress o).lengthFilename.toNat = e.filename.length :=
        (hsized e hself).name.symm
      have hspan : headerSpan (e.central decompress o) = (e.record decompress o).length := by
        rw [Entry.record, List.length_append, CentralHeader.length_encode, ← hname]
        rfl
      have hrecord : out.drop pos = (e.central decompress o).encode ++
          (e.filename ++ (directory decompress (e.next decompress o) es ++ tail)) := by
        rw [hdirectory, directory, Entry.record, List.append_assoc, List.append_assoc]
      have hlen := congrArg List.length hrecord
      simp only [List.length_drop, List.length_append, CentralHeader.length_encode] at hlen
      have hheader : CentralHeader.decode (out.drop pos) = e.central decompress o := by
        rw [hrecord, CentralHeader.decode_encode_append]
      have hfilename : slice out (pos + 46) e.filename.length = e.filename := by
        have hpart := slice_append_append (e.central decompress o).encode e.filename
          (directory decompress (e.next decompress o) es ++ tail)
        rw [CentralHeader.length_encode, ← hrecord, slice_drop] at hpart
        exact hpart
      have hdrop : out.drop (pos + headerSpan (e.central decompress o)) =
          directory decompress (e.next decompress o) es ++ tail := by
        rw [← List.drop_drop, hdirectory, directory, List.append_assoc, hspan, List.drop_left]
      have hrest := ih (fun e' he' => hsized e' (List.mem_cons_of_mem _ he'))
        (fun e' he' => hsignature e' (List.mem_cons_of_mem _ he'))
        (fun e' he' => hlocal e' (List.mem_cons_of_mem _ he')) hlaid' (by omega) hdrop
        (by
          have hrecordLen : headerSpan (e.central decompress o) = 46 + e.filename.length := by
            rw [hspan, Entry.record, List.length_append, CentralHeader.length_encode]
          omega)
      rw [List.length_cons, readMembers]
      simp only [hheader]
      rw [if_pos ⟨hsignature e hself, by omega⟩,
        member_content_written (hsized e hself) (hlocal e hself) hlaid.1, hrest, hname, hfilename]
      rfl

/-- Reading a rewritten archive gives the written contents. -/
theorem read_zip_rewritten {es : List Entry} {footer : CentralFooter}
    (hsized : ∀ e ∈ es, e.Sized decompress)
    (hsignature : ∀ e ∈ es, e.header.signature = MAGIC_CENTRAL_HEADER)
    (hlocal : ∀ e ∈ es, e.localHeader.signature = MAGIC_LOCAL_HEADER ∧
      e.localHeader.lengthFilename = e.header.lengthFilename)
    (hfooter : footer.signature = MAGIC_CENTRAL_FOOTER)
    (htotal : footer.centralDirectoryEntriesTotal.toNat = es.length)
    (hfit : (body decompress es).length + (directory decompress 0 es).length + 22 < 2 ^ 32) :
    readZip D (rewritten decompress footer es) = gather (writtenContent D decompress) es := by
  obtain ⟨hlayout, -⟩ := rewritten_layout footer hsized (by omega) (.inr hfit)
  have hlaid := laid_out_body decompress es [] (directory decompress 0 es ++
    (closingFooter (UInt32.ofNat (directory decompress 0 es).length)
      (UInt32.ofNat (body decompress es).length) footer).encode)
  rw [List.nil_append, ← hlayout, List.length_nil] at hlaid
  generalize hclosing : closingFooter (UInt32.ofNat (directory decompress 0 es).length)
    (UInt32.ofNat (body decompress es).length) footer = closing at hlayout
  have hend : findEnd (rewritten decompress footer es) (rewritten decompress footer es).length =
      some (body decompress es ++ directory decompress 0 es).length := by
    rw [hlayout, ← List.append_assoc]
    refine find_end_append ?_ ?_
    · rw [← hclosing]
      exact hfooter
    · rw [← hclosing]
      rfl
  have hrecord : CentralFooter.decode (slice (rewritten decompress footer es)
      (body decompress es ++ directory decompress 0 es).length 22) = closing := by
    have hpart := slice_append_append (body decompress es ++ directory decompress 0 es)
      closing.encode []
    rw [CentralFooter.length_encode, List.append_nil, List.append_assoc, ← hlayout] at hpart
    rw [hpart, CentralFooter.decode_encode]
  have hoffset : closing.centralDirectoryOffset.toNat = (body decompress es).length := by
    rw [← hclosing]
    show (UInt32.ofNat (body decompress es).length).toNat = _
    rw [UInt32.toNat_ofNat', Nat.mod_eq_of_lt (by omega)]
  have hcount : closing.centralDirectoryEntriesTotal.toNat = es.length := by
    rw [← hclosing]
    exact htotal
  unfold readZip
  rw [hend]
  simp only [hrecord, hoffset, hcount]
  have hdirectory : (rewritten decompress footer es).drop (body decompress es).length =
      directory decompress 0 es ++ closing.encode := by
    rw [hlayout, List.drop_left]
  refine read_members_written (o := 0) hsized hsignature hlocal hlaid
    (by rw [UInt32.toNat_zero]; omega) hdirectory ?_
  rw [hlayout, List.length_append]
  omega

end Output

/-! ## When the contents are kept -/

/-- What the rewriter takes for the content of an entry: the data behind a name and an extra field
of the lengths that the central header gives. -/
def foundContent (D : RawDeflate) (x : Bytes) (decompress : Bool) (h : CentralHeader) :
    Option Bytes :=
  if inflates decompress h then (D.decode (x.drop (dataStart h))).map Prod.fst
  else contentOf D h (slice x (dataStart h) h.sizeCompressed.toNat)

/-- The data that the rewriter finds stand for the contents of the members. -/
def FindsContents (D : RawDeflate) (x : Bytes) (decompress : Bool) (hs : List CentralHeader) :
    Prop :=
  ∀ h ∈ hs, foundContent D x decompress h = memberContent D x h

/-- The streams that the rewriter inflates have their declared sizes. -/
def StreamsDeclared (D : RawDeflate) (x : Bytes) (decompress : Bool) (hs : List CentralHeader) :
    Prop :=
  ∀ h ∈ hs, inflates decompress h = true → ∀ data used,
    D.decode (x.drop (dataStart h)) = some (data, used) → data.length = h.sizeUncompressed.toNat

/-- The size of an entry in the output: its region and its directory record. -/
def outputSize (decompress : Bool) (h : CentralHeader) : Nat :=
  30 + h.lengthFilename.toNat + (correctCentral decompress 0 h).sizeCompressed.toNat +
    (46 + h.lengthFilename.toNat)

section Input

variable {D : RawDeflate} {x : Bytes} {decompress : Bool} {i : Nat} {footer : CentralFooter}
  {hs : List CentralHeader}

/-- The output of a list of entries has the sizes of its headers. -/
theorem output_size_eq {es : List Entry} (hsized : ∀ e ∈ es, e.Sized decompress) (o : UInt32) :
    (body decompress es).length + (directory decompress o es).length =
      ((es.map Entry.header).map (outputSize decompress)).sum := by
  induction es generalizing o with
  | nil => rfl
  | cons e es ih =>
      have hself := hsized e List.mem_cons_self
      have hrest := ih (fun e' he' => hsized e' (List.mem_cons_of_mem _ he')) (e.next decompress o)
      have hbody : (body decompress (e :: es)).length =
          (e.emit decompress).length + (body decompress es).length := List.length_append
      have hdata : e.payload.length =
          (correctCentral decompress 0 e.header).sizeCompressed.toNat := hself.data
      rw [List.map_cons, List.map_cons, List.sum_cons, ← hrest, hbody, directory,
        List.length_append, Entry.record, List.length_append, CentralHeader.length_encode,
        Entry.length_emit, outputSize, ← hdata, hself.name]
      omega

/-- The rewriter selects the end record of a well-formed archive if its search gets there. -/
theorem select_footer_well_formed (hwf : WellFormed D x i footer hs)
    (hsize : x.length < 2 ^ 32) (hlast : PassesLater x i) {i' : Nat} {footer' : CentralFooter}
    (hselect : selectFooter x = some (i', footer')) : i' = i ∧ footer' = footer := by
  obtain ⟨hlt, hmagic, hreach⟩ := find_end_eq_some hwf.endRecord
  obtain ⟨hroom, hcentral⟩ := hwf.directory.central hwf.nonempty
  unfold selectFooter at hselect
  rw [scan_positions_eq (by omega) hsize] at hselect
  by_cases hint : x.length - 4 < 2 ^ 31
  · have hstop : scanFooter x (i + 1) = .found i (CentralFooter.decode (slice x i 22)) :=
      scan_footer_last (Nat.lt_succ_self i) (by omega) (by omega) hmagic
        (fun j hj hji => absurd hji (by omega)) (by rw [← hwf.footer_eq]; omega)
        (by rw [← hwf.footer_eq]; exact hcentral)
    have hscan : scanFooter x (x.length - 3) = .found i (CentralFooter.decode (slice x i 22)) :=
      (scan_footer_eq_found_iff hstop (by omega) (by omega)).2 fun j hj hjn =>
        hlast j hj (by omega)
    rw [if_pos hint, hscan, ← hwf.footer_eq] at hselect
    simp only at hselect
    split at hselect
    · cases hselect
    · cases hselect
      exact ⟨rfl, rfl⟩
  · rw [if_neg hint] at hselect
    cases hselect

/-- With equal extra field lengths in both headers, the rewriter finds the contents. -/
theorem finds_contents_of_extra (hwf : WellFormed D x i footer hs)
    (hextra : ∀ h ∈ hs,
      (LocalHeader.decode (x.drop h.offset.toNat)).lengthExtra = h.lengthExtra) :
    FindsContents D x decompress hs := by
  intro h hh
  obtain ⟨hsignature, hname⟩ := hwf.localHeader h hh
  have hstart : dataStart h = memberStart x h := by
    unfold dataStart memberStart
    rw [hname, hextra h hh]
  have hcontent := hwf.content h hh
  unfold foundContent
  unfold memberContent at hcontent ⊢
  split at hcontent
  · rename_i hguard
    rw [if_pos hguard, hstart]
    cases hmode : inflates decompress h with
    | false => rfl
    | true =>
        have hmethod : h.compressionMethod = 8 := by
          unfold inflates at hmode
          simpa using (Bool.and_eq_true_iff.1 hmode).2
        unfold contentOf at hcontent ⊢
        simp only [hmethod, show ¬ (8 : UInt16) = 0 by decide, if_false, if_true] at hcontent ⊢
        have hinitial : slice x (memberStart x h) h.sizeCompressed.toNat <+:
            x.drop (memberStart x h) := List.take_prefix _ _
        cases hdecode : D.decode (slice x (memberStart x h) h.sizeCompressed.toNat) with
        | none => simp [hdecode] at hcontent
        | some result =>
            obtain ⟨content, used⟩ := result
            simp only [hdecode] at hcontent ⊢
            rw [D.decode_mono hinitial hdecode]
            split at hcontent
            · rename_i hlen
              rw [if_pos hlen]
              rfl
            · exact absurd rfl hcontent
  · exact absurd rfl hcontent

/-- The contents that the rewriter finds have their declared sizes. -/
theorem streams_declared_of_finds (hwf : WellFormed D x i footer hs)
    (hfinds : FindsContents D x decompress hs) : StreamsDeclared D x decompress hs := by
  intro h hh hmode data used hdecode
  have hfound := hfinds h hh
  have hcontent := hwf.content h hh
  rw [foundContent, if_pos hmode, hdecode, Option.map_some] at hfound
  have hmethod : h.compressionMethod = 8 := by
    unfold inflates at hmode
    simpa using (Bool.and_eq_true_iff.1 hmode).2
  unfold memberContent at hfound hcontent
  split at hcontent
  · rename_i hguard
    rw [if_pos hguard] at hfound
    unfold contentOf at hfound
    simp only [hmethod, show ¬ (8 : UInt16) = 0 by decide, if_false, if_true] at hfound
    split at hfound
    · cases hfound
    · split at hfound
      · rename_i hlen
        cases hfound
        exact hlen
      · cases hfound
  · exact absurd rfl hcontent

/-- The rewriter writes the content that it finds. -/
theorem written_content_eq {e : Entry} {dir : Bytes} (hat : ReadAt D x decompress dir e) :
    writtenContent D decompress e = foundContent D x decompress e.header := by
  have hpayload := hat.payload
  unfold writtenContent foundContent
  unfold payloadOf at hpayload
  cases hmode : inflates decompress e.header with
  | true =>
      simp only [hmode, if_true] at hpayload ⊢
      exact hpayload.symm
  | false =>
      simp only [hmode, Bool.false_eq_true, if_false] at hpayload ⊢
      split at hpayload
      · rw [Option.some.injEq] at hpayload
        rw [hpayload]
      · cases hpayload

/-- A reader and the rewriter see the same entries in a well-formed archive. -/
theorem read_zip_of_entries {es : List Entry} (hwf : WellFormed D x i footer hs)
    (hselect : selectFooter x = some (i, footer)) (hentries : entriesOf D x decompress = some es) :
    readZip D x = gather (fun e => memberContent D x e.header) es := by
  obtain ⟨-, hend, -⟩ := find_end_eq_some hwf.endRecord
  unfold readZip
  rw [hwf.endRecord]
  simp only [← hwf.footer_eq, hwf.count]
  obtain ⟨dir, hbuffer, hread⟩ := entries_of_selected hselect hentries
  obtain ⟨-, hslice⟩ := directory_buffer_eq_some hbuffer
  rw [hslice] at hread
  exact read_members_of_read hwf.directory hend hread

/-- The members of the output are those of the input exactly if the data found for the entries
stand for their contents. -/
theorem read_zip_iff_finds {Z : Inflater} (hZ : Z.Sound D) {fuel : Nat} {out : Bytes}
    (hwf : WellFormed D x i footer hs) (hsize : x.length < 2 ^ 32)
    (hrange : (hs.map (outputSize decompress)).sum + 22 < 2 ^ 32) (hlast : PassesLater x i)
    (hstreams : StreamsDeclared D x decompress hs)
    (hrun : zipadjust Z fuel x decompress = .ok out) :
    readZip D out = readZip D x ↔ FindsContents D x decompress hs := by
  obtain ⟨i', footer', es, hselect, hentries, rfl⟩ := zipadjust_sound hZ hrun
  obtain ⟨rfl, rfl⟩ := select_footer_well_formed hwf hsize hlast hselect
  obtain ⟨-, hfooter, hmagic, -⟩ := select_footer_spec hselect
  obtain ⟨-, hend, -⟩ := find_end_eq_some hwf.endRecord
  have hheaders := entries_of_headers hselect hwf.directory hend hentries
  have hmem : ∀ e ∈ es, e.header ∈ hs := by
    intro e he
    rw [← hheaders]
    exact List.mem_map_of_mem he
  have hcount : footer'.centralDirectoryEntriesTotal.toNat = es.length := by
    rw [hwf.count, ← hheaders, List.length_map]
  have hread : ∀ e ∈ es, ∃ rest, ReadAt D x decompress rest e ∧
      e.header.signature = MAGIC_CENTRAL_HEADER := fun e he => entries_of_mem hentries he
  have hsized : ∀ e ∈ es, e.Sized decompress := by
    intro e he
    obtain ⟨rest, hat, -⟩ := hread e he
    refine sized_of_read hat fun hmode => ?_
    have hpayload := hat.payload
    rw [payloadOf, if_pos hmode, Option.map_eq_some_iff] at hpayload
    obtain ⟨⟨data, used⟩, hdecode, hdata⟩ := hpayload
    rw [← hdata]
    exact hstreams e.header (hmem e he) hmode data used hdecode
  have hlocal : ∀ e ∈ es, e.localHeader.signature = MAGIC_LOCAL_HEADER ∧
      e.localHeader.lengthFilename = e.header.lengthFilename := by
    intro e he
    obtain ⟨rest, hat, -⟩ := hread e he
    obtain ⟨hsignature, hname⟩ := hwf.localHeader e.header (hmem e he)
    rw [hat.localHeader, LocalHeader.decode_slice (Nat.le_refl 30)]
    refine ⟨?_, hname⟩
    rw [LocalHeader.signature_decode_drop]
    exact hsignature
  have hfit : (body decompress es).length + (directory decompress 0 es).length + 22 < 2 ^ 32 := by
    rw [output_size_eq hsized, hheaders]
    exact hrange
  have hout : readZip D (rewritten decompress footer' es) =
      gather (writtenContent D decompress) es :=
    read_zip_rewritten hsized (fun e he => (hread e he).choose_spec.2) hlocal hmagic hcount hfit
  have hin : readZip D x = gather (fun e => memberContent D x e.header) es :=
    read_zip_of_entries hwf hselect hentries
  have hfound : ∀ e ∈ es, writtenContent D decompress e =
      foundContent D x decompress e.header := by
    intro e he
    obtain ⟨rest, hat, -⟩ := hread e he
    exact written_content_eq hat
  rw [hout, hin, gather_eq_iff fun e he => hwf.content e.header (hmem e he)]
  constructor
  · intro hall h hh
    rw [← hheaders, List.mem_map] at hh
    obtain ⟨e, he, rfl⟩ := hh
    rw [← hfound e he, hall e he]
  · intro hfinds e he
    rw [hfound e he, hfinds e.header (hmem e he)]

end Input

/-- The output has the members of the input when the search passes by all positions behind the end
record of the archive and the data found with the central extra field lengths stand for the contents
of the entries.
Among the archives whose inflated streams have their declared sizes there are no others, and equal
extra field lengths in both headers are enough. -/
theorem zipadjust_contents {Z : Inflater} {D : RawDeflate} (hZ : Z.Sound D) {fuel : Nat}
    {x out : Bytes} {decompress : Bool} {i : Nat} {footer : CentralFooter}
    {hs : List CentralHeader} (hwf : WellFormed D x i footer hs) (hsize : x.length < 2 ^ 32)
    (hrange : (hs.map (outputSize decompress)).sum + 22 < 2 ^ 32)
    (hrun : zipadjust Z fuel x decompress = .ok out) :
    (PassesLater x i ∧ FindsContents D x decompress hs → readZip D out = readZip D x) ∧
    (PassesLater x i → StreamsDeclared D x decompress hs → readZip D out = readZip D x →
      FindsContents D x decompress hs) ∧
    ((∀ h ∈ hs, (LocalHeader.decode (x.drop h.offset.toNat)).lengthExtra = h.lengthExtra) →
      FindsContents D x decompress hs) := by
  refine ⟨?_, ?_, fun hextra => finds_contents_of_extra hwf hextra⟩
  · rintro ⟨hlast, hfinds⟩
    exact (read_zip_iff_finds hZ hwf hsize hrange hlast (streams_declared_of_finds hwf hfinds)
      hrun).2 hfinds
  · intro hlast hstreams
    exact (read_zip_iff_finds hZ hwf hsize hrange hlast hstreams hrun).1

/-- The archive of two deflated members is well-formed. -/
theorem well_formed_pair :
    WellFormed storedBlock deflatedPair 173 (CentralFooter.decode (deflatedPair.drop 173))
      pairHeaders := by
  decide +kernel

/-- The search passes by the record in the comment of `deflatedPair`. -/
theorem passes_later_pair : PassesLater deflatedPair 173 := by
  decide +kernel

/-- The members of `deflatedPair` are the members of `storedPair`. -/
theorem zipadjust_contents_pair :
    readZip storedBlock storedPair = readZip storedBlock deflatedPair := by
  obtain ⟨hkeeps, -, hextra⟩ := zipadjust_contents stored_block_sound well_formed_pair
    (by decide +kernel) (by decide +kernel) zipadjust_deflated_pair
  exact hkeeps ⟨passes_later_pair, hextra (by decide +kernel)⟩

/-- The archive `storedHi` with an extra field in the local header only. -/
def storedHiExtra : Bytes :=
  Member.archive ⟨[0x61], [0xfe, 0xca, 0, 0], [], 0, 0xd8932aac, 2, [0x68, 0x69]⟩

/-- The rewriter takes the extra field of `storedHiExtra` for the content of its member. -/
theorem zipadjust_loses_content :
    WellFormed storedBlock storedHiExtra 84 (CentralFooter.decode (storedHiExtra.drop 84))
      [CentralHeader.decode (storedHiExtra.drop 37)] ∧
    readZip storedBlock storedHiExtra = some [([0x61], [0x68, 0x69])] ∧
    ∃ out, zipadjust (.ofDecoder storedBlock) 0 storedHiExtra false = .ok out ∧
      readZip storedBlock out = some [([0x61], [0xfe, 0xca])] :=
  ⟨by decide +kernel, by decide +kernel,
    Member.archive ⟨[0x61], [], [], 0, 0xd8932aac, 2, [0xfe, 0xca]⟩, by decide +kernel,
    by decide +kernel⟩

end NamelessCenter.Zip
