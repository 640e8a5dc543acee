import NamelessCenter.Zip.Rewrite

/-!
# The layout of a rewritten archive

`read_directory_mem` says what is known of an entry that was read. When every entry's data has the
size its corrected headers give and the output stays below 4 GiB, no index wraps and every write of
the rewriter is an append, so that the output is the entries' regions, the directory and the end
record, one after another (`rewritten_layout`).
-/

namespace NamelessCenter.Zip

open Bytes Native

/-! ## Entries that were read -/

section Reading

variable {D : RawDeflate} {fin : Bytes} {decompress : Bool}

/-- What `readEntry` guarantees of the entry at the start of `dir`. -/
structure ReadAt (D : RawDeflate) (fin : Bytes) (decompress : Bool) (dir : Bytes) (e : Entry) :
    Prop where
  header : e.header = CentralHeader.decode dir
  room : 46 + e.header.lengthFilename.toNat ≤ dir.length
  short : e.header.lengthFilename.toNat < 1024
  filename : e.filename = slice dir 46 e.header.lengthFilename.toNat
  localRoom : e.header.offset.toNat + 30 ≤ fin.length
  localHeader : e.localHeader = LocalHeader.decode (slice fin e.header.offset.toNat 30)
  payload : payloadOf D fin decompress e.header = some e.payload

/-- An entry is read as `ReadAt` says. -/
theorem read_entry_eq_some {dir : Bytes} {e : Entry} :
    readEntry D fin decompress dir = some e ↔ ReadAt D fin decompress dir e := by
  unfold readEntry
  constructor
  · intro h
    generalize hheader : CentralHeader.decode dir = header at h
    simp only at h
    split at h
    · cases h
    · rename_i hguard
      split at h
      · cases h
      · rename_i buf hlocal
        obtain ⟨hroom, rfl⟩ := (xseekread_eq_some (by omega)).1 hlocal
        obtain ⟨payload, hpayload, rfl⟩ := Option.map_eq_some_iff.1 h
        exact ⟨hheader.symm, by simp only; omega, by simp only; omega, rfl, hroom, rfl, hpayload⟩
  · intro h
    have hroom := h.room
    have hshort := h.short
    rw [h.header] at hroom hshort
    simp only
    rw [if_neg (by omega), ← h.header, xseekread_of_le h.localRoom]
    simp only [h.payload, Option.map_some, ← h.localHeader, ← h.filename]

/-- The name is as long as its header says. -/
theorem ReadAt.length_filename {dir : Bytes} {e : Entry} (h : ReadAt D fin decompress dir e) :
    e.filename.length = e.header.lengthFilename.toNat := by
  rw [h.filename, length_slice_of_le h.room]

/-- Every entry of a directory was read at a central header of it. -/
theorem read_directory_mem {rounds : Nat} {dir : Bytes} {es : List Entry}
    (h : readDirectory D fin decompress rounds dir = some es) {e : Entry} (he : e ∈ es) :
    ∃ rest, ReadAt D fin decompress rest e ∧ e.header.signature = MAGIC_CENTRAL_HEADER := by
  induction rounds generalizing dir es with
  | zero => cases h
  | succ rounds ih =>
      obtain ⟨-, ⟨-, rfl⟩ | ⟨hsignature, first, rest, hentry, hrest, rfl⟩⟩ := read_directory_cases h
      · cases he
      · rcases List.mem_cons.1 he with rfl | htail
        · have hread := read_entry_eq_some.1 hentry
          refine ⟨dir, hread, ?_⟩
          rw [hread.header]
          exact hsignature
        · exact ih hrest htail

/-- The output directory is no longer than the directory buffer it was read from. -/
theorem length_directory_le {rounds : Nat} {dir : Bytes} {es : List Entry}
    (h : readDirectory D fin decompress rounds dir = some es) (o : UInt32) :
    (directory decompress o es).length ≤ dir.length := by
  induction rounds generalizing dir es o with
  | zero => cases h
  | succ rounds ih =>
      obtain ⟨-, ⟨-, rfl⟩ | ⟨-, e, rest, hentry, hrest, rfl⟩⟩ := read_directory_cases h
      · exact Nat.zero_le _
      · have hread := read_entry_eq_some.1 hentry
        have hroom := hread.room
        have hname := hread.length_filename
        have htail := ih hrest (e.next decompress o)
        rw [List.length_drop, headerSpan] at htail
        simp only [directory, Entry.record, List.length_append, CentralHeader.length_encode]
        omega

/-- The directory buffer of a file holds less than 4 GiB. -/
theorem entries_of_directory_lt {es : List Entry} (h : entriesOf D fin decompress = some es)
    (o : UInt32) : (directory decompress o es).length < 2 ^ 32 := by
  obtain ⟨i, footer, dir, -, hbuffer, hread⟩ := entries_of_eq_some_iff.1 h
  have hlen := (directory_buffer_eq_some hbuffer).1
  have hle := length_directory_le hread o
  have hlt := (sizeOf fin - footer.centralDirectoryOffset).toNat_lt
  omega

/-- Every entry was read somewhere in the directory. -/
theorem entries_of_mem {es : List Entry} (h : entriesOf D fin decompress = some es) {e : Entry}
    (he : e ∈ es) :
    ∃ rest, ReadAt D fin decompress rest e ∧ e.header.signature = MAGIC_CENTRAL_HEADER := by
  obtain ⟨i, footer, dir, -, -, hread⟩ := entries_of_eq_some_iff.1 h
  exact read_directory_mem hread he

end Reading

/-! ## Selected end records -/

/-- What the selected end record is. -/
theorem select_footer_spec {fin : Bytes} {i : Nat} {footer : CentralFooter}
    (h : selectFooter fin = some (i, footer)) :
    i + 22 ≤ fin.length ∧ footer = CentralFooter.decode (slice fin i 22) ∧
      footer.signature = MAGIC_CENTRAL_FOOTER ∧
      u32At fin footer.centralDirectoryOffset.toNat = MAGIC_CENTRAL_HEADER := by
  unfold selectFooter at h
  split at h
  · rename_i position found hscan
    split at h
    · cases h
    · cases h
      obtain ⟨-, hroom, hmagic, hfooter, -, hcentral⟩ := scan_footer_found hscan
      refine ⟨hroom, hfooter, ?_, hcentral⟩
      rw [hfooter, CentralFooter.decode, u32_at_slice (by omega), Nat.add_zero, hmagic]
  · cases h

/-- A selected directory holds at least one entry. -/
theorem entries_of_ne_nil {D : RawDeflate} {fin : Bytes} {decompress : Bool} {i : Nat}
    {footer : CentralFooter} {es : List Entry} (hselect : selectFooter fin = some (i, footer))
    (h : entriesOf D fin decompress = some es) : es ≠ [] := by
  intro hnil
  obtain ⟨-, -, -, hcentral⟩ := select_footer_spec hselect
  obtain ⟨dir, hbuffer, hread⟩ := entries_of_selected hselect h
  obtain ⟨-, hslice⟩ := directory_buffer_eq_some hbuffer
  unfold readDirectory at hread
  split at hread
  · cases hread
  · split at hread
    · rename_i hroom hsignature
      -- the search has found a central header at the directory's offset
      rw [hslice, u32_at_slice (by omega), Nat.add_zero] at hsignature
      exact hsignature hcentral
    · split at hread
      · cases hread
      · rw [hnil, Option.map_eq_some_iff] at hread
        obtain ⟨rest, -, hcons⟩ := hread
        cases hcons

/-! ## Sizes -/

/-- The entry's name and data have the sizes its corrected headers give. -/
structure Entry.Sized (decompress : Bool) (e : Entry) : Prop where
  name : e.filename.length = e.header.lengthFilename.toNat
  data : e.payload.length = (e.localOut decompress).sizeCompressed.toNat

/-- Only the size of an inflated entry is not given by the way it is read. -/
theorem sized_of_read {D : RawDeflate} {fin dir : Bytes} {decompress : Bool} {e : Entry}
    (hread : ReadAt D fin decompress dir e)
    (hdeclared : inflates decompress e.header = true →
      e.payload.length = e.header.sizeUncompressed.toNat) : e.Sized decompress := by
  refine ⟨hread.length_filename, ?_⟩
  have hpayload := hread.payload
  unfold payloadOf at hpayload
  cases hmode : inflates decompress e.header with
  | true =>
      rw [hdeclared hmode]
      unfold inflates at hmode
      simp [Entry.localOut, Entry.central, correctLocal, correctCentral, hmode]
  | false =>
      simp only [hmode, Bool.false_eq_true, if_false] at hpayload
      unfold inflates at hmode
      split at hpayload
      · rename_i hroom
        rw [Option.some.injEq] at hpayload
        simp only [Entry.localOut, Entry.central, correctLocal, correctCentral, hmode,
          Bool.false_eq_true, if_false]
        rw [← hpayload, length_slice]
        rcases hroom with hroom | hzero
        · omega
        · rw [hzero, UInt32.toNat_zero, Nat.zero_min]
      · cases hpayload

/-- Every inflated entry that the rewriter reads has its declared uncompressed size. -/
def DeclaredSizes (D : RawDeflate) (fin : Bytes) (decompress : Bool) : Prop :=
  ∀ es, entriesOf D fin decompress = some es → ∀ e ∈ es, inflates decompress e.header = true →
    e.payload.length = e.header.sizeUncompressed.toNat

/-- With declared sizes, the corrected sizes of all entries are right. -/
theorem sized_of_declared {D : RawDeflate} {fin : Bytes} {decompress : Bool} {es : List Entry}
    (hsizes : DeclaredSizes D fin decompress) (h : entriesOf D fin decompress = some es) :
    ∀ e ∈ es, e.Sized decompress := by
  intro e he
  obtain ⟨rest, hread, -⟩ := entries_of_mem h he
  exact sized_of_read hread (hsizes es h e he)

/-! ## Appends -/

/-- A sum that does not wrap around. -/
theorem to_nat_add_of_lt {a b : UInt32} (h : a.toNat + b.toNat < 2 ^ 32) :
    (a + b).toNat = a.toNat + b.toNat := by
  rw [UInt32.toNat_add, Nat.mod_eq_of_lt h]

section Appends

variable {decompress : Bool}

/-- The entries' regions, one after another. -/
def body (decompress : Bool) (es : List Entry) : Bytes := es.flatMap (Entry.emit decompress)

/-- An entry takes its header, its name and its data. -/
theorem Entry.length_emit (e : Entry) (decompress : Bool) :
    (e.emit decompress).length = 30 + (e.filename.length + e.payload.length) := by
  simp [Entry.emit]

/-- Writing an entry does not make the file shorter. -/
theorem le_length_write (e : Entry) (fout : Bytes) (o : UInt32) :
    fout.length ≤ (e.write decompress fout o).length :=
  (le_length_splice _ _ _).trans ((le_length_splice _ _ _).trans (le_length_splice _ _ _))

/-- Nor does writing several. -/
theorem le_length_place (es : List Entry) (fout : Bytes) (o : UInt32) :
    fout.length ≤ (place decompress fout o es).length := by
  induction es generalizing fout o with
  | nil => exact Nat.le_refl _
  | cons e es ih => exact (le_length_write e fout o).trans (ih _ _)

/-- An entry written at the end of the file is appended, unless its region reaches 4 GiB. -/
theorem write_eq_append {e : Entry} (hsized : e.Sized decompress) {fout : Bytes} {o : UInt32}
    (hend : o.toNat = fout.length)
    (hfit : (e.write decompress fout o).length < 2 ^ 32 ∨
      fout.length + (e.emit decompress).length < 2 ^ 32) :
    e.write decompress fout o = fout ++ e.emit decompress ∧
      (e.next decompress o).toNat = fout.length + (e.emit decompress).length := by
  have hname := hsized.name
  have hdata := hsized.data
  have hemit := e.length_emit decompress
  have hthirty : (30 : UInt32).toNat = 30 := rfl
  have hnameNat : (UInt32.ofNat e.header.lengthFilename.toNat).toNat = e.filename.length := by
    have hlt := e.header.lengthFilename.toNat_lt
    rw [hname, UInt32.toNat_ofNat', Nat.mod_eq_of_lt (by omega)]
  unfold Entry.write at hfit ⊢
  unfold Entry.next
  rw [splice_at_end hend] at hfit ⊢
  have hfirst : fout.length + 30 < 2 ^ 32 := by
    rcases hfit with hfit | hfit
    · have hle := (le_length_splice (fout ++ (e.localOut decompress).encode)
        (o + 30).toNat e.filename).trans (le_length_splice _
          (o + 30 + UInt32.ofNat e.header.lengthFilename.toNat).toNat e.payload)
      rw [List.length_append, LocalHeader.length_encode] at hle
      omega
    · omega
  have hindex : (o + 30).toNat = (fout ++ (e.localOut decompress).encode).length := by
    rw [to_nat_add_of_lt (by omega), List.length_append, LocalHeader.length_encode]
    omega
  rw [splice_at_end hindex] at hfit ⊢
  rw [List.length_append, LocalHeader.length_encode] at hindex
  have hsecond : fout.length + 30 + e.filename.length < 2 ^ 32 := by
    rcases hfit with hfit | hfit
    · have hle := le_length_splice (fout ++ (e.localOut decompress).encode ++ e.filename)
        (o + 30 + UInt32.ofNat e.header.lengthFilename.toNat).toNat e.payload
      simp only [List.length_append, LocalHeader.length_encode] at hle
      omega
    · omega
  have hindex' : (o + 30 + UInt32.ofNat e.header.lengthFilename.toNat).toNat =
      (fout ++ (e.localOut decompress).encode ++ e.filename).length := by
    rw [to_nat_add_of_lt (by omega)]
    simp only [List.length_append, LocalHeader.length_encode]
    omega
  rw [splice_at_end hindex'] at hfit ⊢
  simp only [List.length_append, LocalHeader.length_encode] at hfit hindex'
  refine ⟨by simp only [Entry.emit, List.append_assoc], ?_⟩
  rw [to_nat_add_of_lt (by omega)]
  omega

/-- Entries written from the end of the file on are appended. -/
theorem place_eq_append {es : List Entry} (hsized : ∀ e ∈ es, e.Sized decompress) {fout : Bytes}
    {o : UInt32} (hend : o.toNat = fout.length)
    (hfit : (place decompress fout o es).length < 2 ^ 32 ∨
      fout.length + (body decompress es).length < 2 ^ 32) :
    place decompress fout o es = fout ++ body decompress es ∧
      (advance decompress o es).toNat = fout.length + (body decompress es).length := by
  induction es generalizing fout o with
  | nil => exact ⟨(List.append_nil fout).symm, hend⟩
  | cons e es ih =>
      have hbody : body decompress (e :: es) = e.emit decompress ++ body decompress es := rfl
      rw [hbody, List.length_append] at hfit
      have hfirst : (e.write decompress fout o).length < 2 ^ 32 ∨
          fout.length + (e.emit decompress).length < 2 ^ 32 := by
        rcases hfit with hfit | hfit
        · exact .inl ((le_length_place es _ _).trans_lt hfit)
        · exact .inr (by omega)
      obtain ⟨hwrite, hnext⟩ := write_eq_append (hsized e List.mem_cons_self) hend hfirst
      have hend' : (e.next decompress o).toNat = (e.write decompress fout o).length := by
        rw [hnext, hwrite, List.length_append]
      obtain ⟨hplace, hadvance⟩ := ih (fun e' he' => hsized e' (List.mem_cons_of_mem _ he')) hend'
        (by
          rcases hfit with hfit | hfit
          · exact .inl hfit
          · refine .inr ?_
            rw [hwrite, List.length_append]
            omega)
      refine ⟨?_, ?_⟩
      · rw [place, hplace, hwrite, hbody, List.append_assoc]
      · rw [advance, hadvance, hwrite, hbody, List.length_append, List.length_append]
        omega

/-- The output of the rewriter is the entries, the directory and the end record. -/
theorem rewritten_layout (footer : CentralFooter) {es : List Entry}
    (hsized : ∀ e ∈ es, e.Sized decompress)
    (hdirectory : (directory decompress 0 es).length < 2 ^ 32)
    (hfit : (rewritten decompress footer es).length < 2 ^ 32 ∨
      (body decompress es).length + (directory decompress 0 es).length + 22 < 2 ^ 32) :
    rewritten decompress footer es = body decompress es ++ (directory decompress 0 es ++
        (closingFooter (UInt32.ofNat (directory decompress 0 es).length)
          (UInt32.ofNat (body decompress es).length) footer).encode) ∧
      (body decompress es).length + (directory decompress 0 es).length + 22 < 2 ^ 32 := by
  have hsize : (UInt32.ofNat (directory decompress 0 es).length).toNat =
      (directory decompress 0 es).length := by
    rw [UInt32.toNat_ofNat', Nat.mod_eq_of_lt hdirectory]
  unfold rewritten finish xseekwrite at hfit ⊢
  simp only [hsize, List.take_length] at hfit ⊢
  have hstart : (0 : UInt32).toNat = ([] : Bytes).length := rfl
  obtain ⟨hplace, hadvance⟩ := place_eq_append hsized hstart (by
    rcases hfit with hfit | hfit
    · exact .inl (((le_length_splice _ _ _).trans (le_length_splice _ _ _)).trans_lt hfit)
    · exact .inr (by rw [List.length_nil]; omega))
  rw [List.nil_append] at hplace
  rw [List.length_nil, Nat.zero_add] at hadvance
  have hindex : advance decompress 0 es = UInt32.ofNat (body decompress es).length := by
    rw [← hadvance, UInt32.ofNat_toNat]
  rw [hplace, splice_at_end hadvance] at hfit ⊢
  have hlt : (body decompress es).length + (directory decompress 0 es).length < 2 ^ 32 := by
    rcases hfit with hfit | hfit
    · have hle := (le_length_splice (body decompress es ++ directory decompress 0 es) _ _).trans_lt
        hfit
      rwa [List.length_append] at hle
    · omega
  have hend : (advance decompress 0 es +
      UInt32.ofNat (directory decompress 0 es).length).toNat =
      (body decompress es ++ directory decompress 0 es).length := by
    rw [to_nat_add_of_lt (by omega), hadvance, hsize, List.length_append]
  rw [splice_at_end hend] at hfit ⊢
  simp only [List.length_append, CentralFooter.length_encode] at hfit
  refine ⟨?_, by omega⟩
  rw [hindex, List.append_assoc]

end Appends

end NamelessCenter.Zip
