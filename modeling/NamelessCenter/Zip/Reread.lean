import NamelessCenter.Zip.Layout

/-!
# Reading a rewritten archive again

The regions of a rewritten archive lie where its directory says (`LaidOut`). Reading its directory
gives back the entries that were written, with their corrected headers (`read_directory_written`),
and the corrections leave corrected headers as they are, so that the entries read from a rewritten
archive are rewritten to the same bytes (`rewritten_reread`).
-/

namespace NamelessCenter.Zip

open Bytes Native

section Positions

variable {decompress : Bool}

/-- The region of the entry `e` lies at position `pos` of `z`. -/
structure EntryAt (decompress : Bool) (z : Bytes) (pos : Nat) (e : Entry) : Prop where
  localHeader : slice z pos 30 = (e.localOut decompress).encode
  filename : slice z (pos + 30) e.filename.length = e.filename
  payload : slice z (pos + 30 + e.filename.length) e.payload.length = e.payload
  room : pos + (e.emit decompress).length ≤ z.length

/-- The regions of the entries lie in `z` one after another, from position `pos` on. -/
def LaidOut (decompress : Bool) (z : Bytes) : Nat → List Entry → Prop
  | _, [] => True
  | pos, e :: es =>
      EntryAt decompress z pos e ∧ LaidOut decompress z (pos + (e.emit decompress).length) es

/-- An entry stands where it was written. -/
theorem entry_at_append (front rest : Bytes) (e : Entry) :
    EntryAt decompress (front ++ (e.emit decompress ++ rest)) front.length e := by
  have hfile : front ++ (e.emit decompress ++ rest) =
      front ++ ((e.localOut decompress).encode ++ (e.filename ++ (e.payload ++ rest))) := by
    simp only [Entry.emit, List.append_assoc]
  refine ⟨?_, ?_, ?_, ?_⟩
  · have hpart := slice_append_append front (e.localOut decompress).encode
      (e.filename ++ (e.payload ++ rest))
    rw [LocalHeader.length_encode] at hpart
    rw [hfile, hpart]
  · have hpart := slice_append_append (front ++ (e.localOut decompress).encode) e.filename
      (e.payload ++ rest)
    rw [List.length_append, LocalHeader.length_encode, List.append_assoc] at hpart
    rw [hfile, hpart]
  · have hpart := slice_append_append (front ++ ((e.localOut decompress).encode ++ e.filename))
      e.payload rest
    rw [List.length_append, List.length_append, LocalHeader.length_encode, List.append_assoc,
      List.append_assoc, ← Nat.add_assoc] at hpart
    rw [hfile, hpart]
  · simp only [List.length_append]
    omega

/-- The regions of a body lie one after another. -/
theorem laid_out_body (decompress : Bool) (es : List Entry) (front rest : Bytes) :
    LaidOut decompress (front ++ (body decompress es ++ rest)) front.length es := by
  induction es generalizing front with
  | nil => trivial
  | cons e es ih =>
      have hbody : body decompress (e :: es) = e.emit decompress ++ body decompress es := rfl
      rw [hbody, List.append_assoc]
      refine ⟨entry_at_append front _ e, ?_⟩
      have hrest := ih (front ++ e.emit decompress)
      rwa [List.length_append, List.append_assoc] at hrest

/-- The output index moves by the length of the entry's region. -/
theorem next_to_nat {e : Entry} (hsized : e.Sized decompress) {o : UInt32}
    (hfit : o.toNat + (e.emit decompress).length < 2 ^ 32) :
    (e.next decompress o).toNat = o.toNat + (e.emit decompress).length := by
  have hend : o.toNat = (List.replicate o.toNat (0 : UInt8)).length := by
    rw [List.length_replicate]
  have hwrite := write_eq_append hsized hend (.inr (by rwa [List.length_replicate]))
  rw [hwrite.2, List.length_replicate]

/-- Behind the region of the first entry those of the others are laid out. -/
theorem LaidOut.tail {z : Bytes} {e : Entry} {es : List Entry} {o : UInt32}
    (hlaid : LaidOut decompress z o.toNat (e :: es)) (hsized : e.Sized decompress)
    (hfit : o.toNat + (body decompress (e :: es)).length < 2 ^ 32) :
    (e.next decompress o).toNat = o.toNat + (e.emit decompress).length ∧
      LaidOut decompress z (e.next decompress o).toNat es ∧
      (e.next decompress o).toNat + (body decompress es).length =
        o.toNat + (body decompress (e :: es)).length := by
  have hbody : (body decompress (e :: es)).length =
      (e.emit decompress).length + (body decompress es).length := List.length_append
  have hnext := next_to_nat hsized (o := o) (by omega)
  rw [hnext]
  exact ⟨rfl, hlaid.2, by omega⟩

end Positions

/-! ## Entries that are read again -/

section Again

variable (decompress : Bool)

/-- The entry as it is read from the rewritten archive. -/
def Entry.reread (e : Entry) (o : UInt32) : Entry :=
  ⟨e.central decompress o, e.filename, e.localOut decompress, e.payload⟩

/-- The entries as they are read from the rewritten archive. -/
def reread : UInt32 → List Entry → List Entry
  | _, [] => []
  | o, e :: es => e.reread decompress o :: reread (e.next decompress o) es

variable {decompress : Bool}

/-- Nothing is left to inflate in a corrected entry. -/
theorem inflates_correct_central (decompress : Bool) (o : UInt32) (h : CentralHeader) :
    inflates decompress (correctCentral decompress o h) = false := by
  unfold inflates
  cases hmode : decompress && h.compressionMethod == 8 with
  | true => simp [correctCentral, hmode]
  | false => simp [correctCentral, hmode]

/-- Correcting a corrected header only moves it. -/
theorem correct_central_twice (o o' : UInt32) (h : CentralHeader) :
    correctCentral decompress o' (correctCentral decompress o h) =
      correctCentral decompress o' h := by
  have htwice := inflates_correct_central decompress o h
  unfold inflates at htwice
  unfold correctCentral at htwice ⊢
  simp only [htwice, Bool.false_eq_true, if_false, UInt16.and_zero]

/-- Its local header is written as before. -/
theorem local_out_reread (e : Entry) (o : UInt32) :
    (e.reread decompress o).localOut decompress = e.localOut decompress := by
  unfold Entry.localOut Entry.central Entry.reread
  simp only [Entry.central, Entry.localOut, correct_central_twice]
  rfl

/-- The next entry goes where it went before. -/
theorem next_reread (e : Entry) (o o' : UInt32) :
    (e.reread decompress o).next decompress o' = e.next decompress o' := by
  unfold Entry.next
  rw [local_out_reread]
  rfl

/-- The directory describes it as before. -/
theorem record_reread (e : Entry) (o o' : UInt32) :
    (e.reread decompress o).record decompress o' = e.record decompress o' := by
  unfold Entry.record Entry.central Entry.reread Entry.central
  simp only [correct_central_twice]

/-- It is written as before. -/
theorem write_reread (e : Entry) (o o' : UInt32) (fout : Bytes) :
    (e.reread decompress o).write decompress fout o' = e.write decompress fout o' := by
  unfold Entry.write
  rw [local_out_reread]
  rfl

/-- So is the directory of all entries. -/
theorem directory_reread (es : List Entry) (o o' : UInt32) :
    directory decompress o' (reread decompress o es) = directory decompress o' es := by
  induction es generalizing o o' with
  | nil => rfl
  | cons e es ih => simp only [reread, directory, record_reread, next_reread, ih]

/-- They end where they ended before. -/
theorem advance_reread (es : List Entry) (o o' : UInt32) :
    advance decompress o' (reread decompress o es) = advance decompress o' es := by
  induction es generalizing o o' with
  | nil => rfl
  | cons e es ih => simp only [reread, advance, next_reread, ih]

/-- They are written as before. -/
theorem place_reread (es : List Entry) (o o' : UInt32) (fout : Bytes) :
    place decompress fout o' (reread decompress o es) = place decompress fout o' es := by
  induction es generalizing o o' fout with
  | nil => rfl
  | cons e es ih => simp only [reread, place, next_reread, write_reread, ih]

/-- Entries read from a rewritten archive are rewritten to the same bytes. -/
theorem rewritten_reread (es : List Entry) (footer : CentralFooter) :
    rewritten decompress footer (reread decompress 0 es) = rewritten decompress footer es := by
  unfold rewritten
  rw [directory_reread, advance_reread, place_reread]

/-- None of them is inflated again. -/
theorem reread_copies {es : List Entry} {o : UInt32} :
    ∀ e ∈ reread decompress o es, inflates decompress e.header = false := by
  induction es generalizing o with
  | nil => intro e he; cases he
  | cons e es ih =>
      intro e' he'
      rcases List.mem_cons.1 he' with rfl | htail
      · exact inflates_correct_central decompress o e.header
      · exact ih e' htail

end Again

/-! ## Reading -/

section Reading

variable {D : RawDeflate} {decompress : Bool} {z : Bytes}

/-- An entry whose region and directory record were written can be read. -/
theorem read_at_written (D : RawDeflate) (rest : Bytes) {e : Entry} {o : UInt32}
    (hsized : e.Sized decompress) (hshort : e.header.lengthFilename.toNat < 1024)
    (hat : EntryAt decompress z o.toNat e) :
    ReadAt D z decompress (e.record decompress o ++ rest) (e.reread decompress o) := by
  have hroom := hat.room
  rw [Entry.length_emit] at hroom
  have hname : (e.central decompress o).lengthFilename.toNat = e.filename.length :=
    hsized.name.symm
  have hrecord : e.record decompress o ++ rest =
      (e.central decompress o).encode ++ (e.filename ++ rest) := by
    rw [Entry.record, List.append_assoc]
  refine ⟨?_, ?_, hshort, ?_, ?_, ?_, ?_⟩
  · rw [hrecord, CentralHeader.decode_encode_append]
    rfl
  · show 46 + (e.central decompress o).lengthFilename.toNat ≤ _
    rw [hrecord, hname]
    simp only [List.length_append, CentralHeader.length_encode]
    omega
  · show e.filename = slice _ 46 (e.central decompress o).lengthFilename.toNat
    have hpart := slice_append_append (e.central decompress o).encode e.filename rest
    rw [CentralHeader.length_encode] at hpart
    rw [hname, hrecord, hpart]
  · show o.toNat + 30 ≤ z.length
    omega
  · show e.localOut decompress = LocalHeader.decode (slice z o.toNat 30)
    rw [hat.localHeader, LocalHeader.decode_encode]
  · show payloadOf D z decompress (e.central decompress o) = some e.payload
    have hstart : dataStart (e.central decompress o) = o.toNat + 30 + e.filename.length := by
      rw [hsized.name]
      rfl
    have hsize : (e.central decompress o).sizeCompressed.toNat = e.payload.length :=
      hsized.data.symm
    have hcopies : inflates decompress (e.central decompress o) = false :=
      inflates_correct_central decompress o e.header
    rw [payloadOf, hcopies, if_neg (by simp), hstart, hsize, if_pos (.inl (by omega)),
      hat.payload]

/-- Reading the directory of a rewritten archive gives back its entries. -/
theorem read_directory_written {es : List Entry} {o : UInt32} {tail : Bytes} {rounds : Nat}
    (hsized : ∀ e ∈ es, e.Sized decompress)
    (hread : ∀ e ∈ es, e.header.lengthFilename.toNat < 1024 ∧
      e.header.signature = MAGIC_CENTRAL_HEADER)
    (hlaid : LaidOut decompress z o.toNat es)
    (hfit : o.toNat + (body decompress es).length < 2 ^ 32)
    (htail : 4 ≤ tail.length) (hend : u32At tail 0 ≠ MAGIC_CENTRAL_HEADER)
    (hrounds : es.length < rounds) :
    readDirectory D z decompress rounds (directory decompress o es ++ tail) =
      some (reread decompress o es) := by
  induction es generalizing o rounds with
  | nil =>
      obtain ⟨rounds, rfl⟩ := Nat.exists_eq_succ_of_ne_zero (by omega : rounds ≠ 0)
      rw [directory, List.nil_append, readDirectory, if_neg (by omega), if_pos hend]
      rfl
  | cons e es ih =>
      obtain ⟨rounds, rfl⟩ := Nat.exists_eq_succ_of_ne_zero (by omega : rounds ≠ 0)
      have hself := List.mem_cons_self (a := e) (l := es)
      obtain ⟨-, hlaid', hstop⟩ := hlaid.tail (hsized e hself) hfit
      have hentry := read_at_written D (directory decompress (e.next decompress o) es ++ tail)
        (hsized e hself) (hread e hself).1 hlaid.1
      have hrounds' : es.length < rounds := by simpa using hrounds
      have hrest := ih (fun e' he' => hsized e' (List.mem_cons_of_mem _ he'))
        (fun e' he' => hread e' (List.mem_cons_of_mem _ he')) hlaid' (by omega) hrounds'
      have hsignature : u32At (directory decompress o (e :: es) ++ tail) 0 =
          MAGIC_CENTRAL_HEADER := by
        rw [directory, Entry.record, List.append_assoc, List.append_assoc,
          CentralHeader.u32_at_encode_append]
        exact (hread e hself).2
      have hroom := hentry.room
      have hspan : headerSpan (e.reread decompress o).header = (e.record decompress o).length := by
        rw [Entry.record, List.length_append, CentralHeader.length_encode, (hsized e hself).name]
        rfl
      rw [← List.append_assoc] at hroom hentry
      have hlen : ¬ (directory decompress o (e :: es) ++ tail).length < 4 := by
        rw [directory, List.append_assoc] at *
        omega
      rw [readDirectory, if_neg hlen, if_neg (by rw [hsignature]; simp), directory,
        read_entry_eq_some.2 hentry]
      simp only
      rw [hspan, List.append_assoc, List.drop_left, hrest]
      rfl

end Reading

end NamelessCenter.Zip
