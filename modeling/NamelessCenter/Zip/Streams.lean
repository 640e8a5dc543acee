import NamelessCenter.Lib.Writes
import NamelessCenter.Zip.Contents

/-!
# Inflated entries

The inflater decides by itself where a deflated stream ends and how long its inflation is, while the
rewriting loop moves on by the sizes that the headers declare. `StreamsWritten` says that the two
agree on every deflated entry, and that the output holds the inflation where the entry was written.
The loop checks nothing of this: `streams_written_iff` says of which archives it holds.
-/

namespace NamelessCenter.Zip

open Bytes Native

/-! ## Streams of the declared sizes -/

/-- A complete stream lies within the compressed size that the header declares, and its inflation
`content` has the uncompressed size. -/
def Inflates (D : RawDeflate) (fin : Bytes) (h : CentralHeader) (content : Bytes) : Prop :=
  (∃ used, D.decode (slice fin (dataStart h) h.sizeCompressed.toNat) = some (content, used)) ∧
    content.length = h.sizeUncompressed.toNat

/-- The position of an entry's data in the output, when its local header is at `o`. -/
def Entry.dataPosition (e : Entry) (o : UInt32) : Nat :=
  (o + 30 + UInt32.ofNat e.header.lengthFilename.toNat).toNat

/-- For each deflated entry, a complete stream within its declared compressed size inflates to its
declared uncompressed size, and the output holds the inflation in the entry's region. The indices
are those that the rewriter has at the entries. -/
def StreamsWritten (D : RawDeflate) (fin out : Bytes) : UInt32 → List Entry → Prop
  | _, [] => True
  | o, e :: es =>
      (inflates true e.header = true → ∃ content, Inflates D fin e.header content ∧
        slice out (e.dataPosition o) content.length = content) ∧
      StreamsWritten D fin out (e.next true o) es

/-- Every deflated entry has a stream of its declared sizes. -/
def StreamsFit (D : RawDeflate) (fin : Bytes) (es : List Entry) : Prop :=
  ∀ e ∈ es, inflates true e.header = true → ∃ content, Inflates D fin e.header content

/-! ## The writes of a call -/

/-- The writes for an entry: header, name and data. -/
def Entry.writes (decompress : Bool) (e : Entry) (o : UInt32) : List Write :=
  [(o.toNat, (e.localOut decompress).encode), ((o + 30).toNat, e.filename),
    (e.dataPosition o, e.payload)]

/-- The writes for a list of entries. -/
def entryWrites (decompress : Bool) : UInt32 → List Entry → List Write
  | _, [] => []
  | o, e :: es => e.writes decompress o ++ entryWrites decompress (e.next decompress o) es

/-- The writes behind the loop: the directory and the end record. -/
def closingWrites (decompress : Bool) (footer : CentralFooter) (es : List Entry) : List Write :=
  let centralOut := directory decompress 0 es
  let outIndex := advance decompress 0 es
  let size := UInt32.ofNat centralOut.length
  [(outIndex.toNat, centralOut.take size.toNat),
    ((outIndex + size).toNat, (closingFooter size outIndex footer).encode)]

/-- What is written behind a deflated entry changes no byte of its data. -/
def Undisturbed (closing : List Write) : UInt32 → List Entry → Prop
  | _, [] => True
  | o, e :: es =>
      (inflates true e.header = true → ∀ k < e.payload.length,
        ∀ b ∈ lastByte (entryWrites true (e.next true o) es ++ closing) (e.dataPosition o + k),
          e.payload[k]? = some b) ∧
      Undisturbed closing (e.next true o) es

/-- The entries are written one after the other. -/
theorem place_eq_write_all (decompress : Bool) (es : List Entry) (fout : Bytes) (o : UInt32) :
    place decompress fout o es = writeAll fout (entryWrites decompress o es) := by
  induction es generalizing fout o with
  | nil => rfl
  | cons e es ih =>
      rw [place, ih, entryWrites, write_all_append]
      rfl

/-- Behind them, the directory and the end record are. -/
theorem rewritten_eq_write_all (decompress : Bool) (footer : CentralFooter) (es : List Entry) :
    rewritten decompress footer es =
      writeAll [] (entryWrites decompress 0 es ++ closingWrites decompress footer es) := by
  rw [write_all_append, ← place_eq_write_all]
  rfl

/-! ## When the streams are written -/

section Written

variable {D : RawDeflate} {fin : Bytes}

/-- The stream that was inflated is the one of the declared sizes, if there is one. -/
theorem inflates_payload {dir content : Bytes} {e : Entry} (hat : ReadAt D fin true dir e)
    (hmode : inflates true e.header = true) (h : Inflates D fin e.header content) :
    content = e.payload := by
  obtain ⟨⟨used, hdecode⟩, -⟩ := h
  have hpayload := hat.payload
  rw [payloadOf, if_pos hmode] at hpayload
  have hinitial : slice fin (dataStart e.header) e.header.sizeCompressed.toNat <+:
      fin.drop (dataStart e.header) := List.take_prefix _ _
  rw [D.decode_mono hinitial hdecode, Option.map_some, Option.some.injEq] at hpayload
  exact hpayload

/-- One entry: its stream is written exactly if it has the declared sizes and nothing behind it
changes the data. -/
theorem stream_written_iff (fout : Bytes) (o : UInt32) (later : List Write) {dir : Bytes}
    {e : Entry} (hat : ReadAt D fin true dir e) (hmode : inflates true e.header = true) :
    (∃ content, Inflates D fin e.header content ∧
        slice (writeAll fout (e.writes true o ++ later)) (e.dataPosition o) content.length =
          content) ↔
      (∃ content, Inflates D fin e.header content) ∧
        ∀ k < e.payload.length, ∀ b ∈ lastByte later (e.dataPosition o + k),
          e.payload[k]? = some b := by
  have hregion := slice_write_all_iff
    (splice (splice fout o.toNat (e.localOut true).encode) (o + 30).toNat e.filename) e.payload
    (e.dataPosition o) later
  rw [write_all_append]
  constructor
  · rintro ⟨content, hinflates, hslice⟩
    have hsame := inflates_payload hat hmode hinflates
    rw [hsame] at hslice
    exact ⟨⟨content, hinflates⟩, hregion.1 hslice⟩
  · rintro ⟨⟨content, hinflates⟩, hlater⟩
    have hsame := inflates_payload hat hmode hinflates
    refine ⟨content, hinflates, ?_⟩
    rw [hsame]
    exact hregion.2 hlater

/-- All entries, by induction on the list that is written from `o` on. -/
theorem streams_written_write_all_iff (fout : Bytes) (o : UInt32) (closing : List Write)
    {es : List Entry} (hread : ∀ e ∈ es, ∃ dir, ReadAt D fin true dir e) :
    StreamsWritten D fin (writeAll fout (entryWrites true o es ++ closing)) o es ↔
      StreamsFit D fin es ∧ Undisturbed closing o es := by
  induction es generalizing fout o with
  | nil => exact iff_of_true trivial ⟨fun _ he => absurd he List.not_mem_nil, trivial⟩
  | cons e es ih =>
      obtain ⟨dir, hat⟩ := hread e List.mem_cons_self
      have hrest := ih (writeAll fout (e.writes true o)) (e.next true o)
        fun e' he' => hread e' (List.mem_cons_of_mem e he')
      rw [← write_all_append, ← List.append_assoc] at hrest
      have hfirst := forall_congr' fun hmode : inflates true e.header = true =>
        stream_written_iff fout o (entryWrites true (e.next true o) es ++ closing) hat hmode
      rw [← List.append_assoc] at hfirst
      unfold StreamsWritten Undisturbed StreamsFit
      rw [entryWrites, hfirst, hrest, List.forall_mem_cons, imp_and]
      unfold StreamsFit
      exact and_and_and_comm

/-- Entries that lie one after another hold their data where the rewriter has put them. -/
theorem streams_written_of_laid_out {es : List Entry} {out : Bytes} {o : UInt32}
    (hread : ∀ e ∈ es, ∃ dir, ReadAt D fin true dir e) (hsized : ∀ e ∈ es, e.Sized true)
    (hstreams : StreamsFit D fin es) (hlaid : LaidOut true out o.toNat es)
    (hfit : o.toNat + (body true es).length < 2 ^ 32) : StreamsWritten D fin out o es := by
  induction es generalizing o with
  | nil => trivial
  | cons e es ih =>
      have hself := List.mem_cons_self (a := e) (l := es)
      have hbody : (body true (e :: es)).length =
          (e.emit true).length + (body true es).length := List.length_append
      have hemit := e.length_emit true
      have hnext := next_to_nat (hsized e hself) (o := o) (by omega)
      have hlaid' := hlaid.2
      rw [← hnext] at hlaid'
      refine ⟨fun hmode => ?_, ih (fun e' he' => hread e' (List.mem_cons_of_mem e he'))
        (fun e' he' => hsized e' (List.mem_cons_of_mem e he'))
        (fun e' he' => hstreams e' (List.mem_cons_of_mem e he')) hlaid' (by omega)⟩
      obtain ⟨dir, hat⟩ := hread e hself
      obtain ⟨content, hinflates⟩ := hstreams e hself hmode
      have hposition : e.dataPosition o = o.toNat + 30 + e.filename.length := by
        have hlt := e.header.lengthFilename.toNat_lt
        have hname := (hsized e hself).name
        have hthirty : (o + 30).toNat = (o.toNat + 30) % 2 ^ 32 := UInt32.toNat_add o 30
        rw [Entry.dataPosition, UInt32.toNat_add, hthirty, UInt32.toNat_ofNat']
        omega
      refine ⟨content, hinflates, ?_⟩
      rw [inflates_payload hat hmode hinflates, hposition]
      exact hlaid.1.payload

/-- In every call in inflating mode that returns 1, the streams are written exactly if they have
their declared sizes and what is written behind an entry changes none of its bytes. Nothing is
changed while the output stays below 4 GiB, so there the declared sizes alone decide. -/
theorem streams_written_iff {Z : Inflater} (hZ : Z.Sound D) {fuel : Nat} {out : Bytes}
    (hrun : zipadjust Z fuel fin true = .ok out) :
    ∃ footer es, (selectFooter fin).map Prod.snd = some footer ∧ entriesOf D fin true = some es ∧
      (StreamsWritten D fin out 0 es ↔
        StreamsFit D fin es ∧ Undisturbed (closingWrites true footer es) 0 es) ∧
      (StreamsFit D fin es → ((es.map Entry.header).map (outputSize true)).sum + 22 < 2 ^ 32 →
        Undisturbed (closingWrites true footer es) 0 es) ∧
      (((es.map Entry.header).map (outputSize true)).sum + 22 < 2 ^ 32 →
        (StreamsWritten D fin out 0 es ↔ StreamsFit D fin es)) := by
  obtain ⟨i, footer, es, hselect, hentries, rfl⟩ := zipadjust_sound hZ hrun
  have hread : ∀ e ∈ es, ∃ dir, ReadAt D fin true dir e := fun e he =>
    ⟨_, (entries_of_mem hentries he).choose_spec.1⟩
  have hiff : StreamsWritten D fin (rewritten true footer es) 0 es ↔
      StreamsFit D fin es ∧ Undisturbed (closingWrites true footer es) 0 es := by
    rw [rewritten_eq_write_all]
    exact streams_written_write_all_iff [] 0 _ hread
  have hbelow : StreamsFit D fin es →
      ((es.map Entry.header).map (outputSize true)).sum + 22 < 2 ^ 32 →
        Undisturbed (closingWrites true footer es) 0 es := by
    intro hstreams hsum
    have hsized : ∀ e ∈ es, e.Sized true := fun e he => by
      obtain ⟨dir, hat⟩ := hread e he
      refine sized_of_read hat fun hmode => ?_
      obtain ⟨content, hinflates⟩ := hstreams e he hmode
      rw [← inflates_payload hat hmode hinflates]
      exact hinflates.2
    rw [← output_size_eq hsized 0] at hsum
    obtain ⟨hlayout, -⟩ := rewritten_layout footer hsized (by omega) (.inr hsum)
    have hlaid : LaidOut true (rewritten true footer es) 0 es := by
      rw [hlayout]
      exact laid_out_body true es [] _
    exact (hiff.1 (streams_written_of_laid_out hread hsized hstreams hlaid
      (by rw [UInt32.toNat_zero]; omega))).2
  exact ⟨footer, es, by rw [hselect]; rfl, hentries, hiff, hbelow, fun hsum =>
    ⟨fun hwritten => (hiff.1 hwritten).1, fun hstreams => hiff.2 ⟨hstreams, hbelow hstreams hsum⟩⟩⟩

end Written

/-- The stream of `deflatedPair` is written. -/
theorem streams_written_pair : ∃ es, entriesOf storedBlock deflatedPair true = some es ∧
    StreamsWritten storedBlock deflatedPair storedPair 0 es := by
  obtain ⟨footer, es, -, hentries, -, -, hiff⟩ :=
    streams_written_iff stored_block_sound zipadjust_deflated_pair
  have hheaders : es.map Entry.header = pairHeaders := by
    have hmap : (entriesOf storedBlock deflatedPair true).map (List.map Entry.header) =
        some pairHeaders := by decide +kernel
    rw [hentries] at hmap
    exact Option.some.inj hmap
  have hstreams : ∀ h ∈ pairHeaders, inflates true h = true →
      storedBlock.decode (slice deflatedPair (dataStart h) h.sizeCompressed.toNat) =
        some ([0x68, 0x69], 7) ∧ 2 = h.sizeUncompressed.toNat := by decide +kernel
  have hfits : StreamsFit storedBlock deflatedPair es := by
    intro e he hmode
    have hmem := List.mem_map_of_mem (f := Entry.header) he
    rw [hheaders] at hmem
    obtain ⟨hdecode, hsize⟩ := hstreams e.header hmem hmode
    exact ⟨[0x68, 0x69], ⟨7, hdecode⟩, hsize⟩
  exact ⟨es, hentries, (hiff (by rw [hheaders]; decide +kernel)).2 hfits⟩

/-- The archive `deflatedHi` whose member announces an uncompressed size of 3 bytes. -/
def shortHi : Bytes :=
  Member.archive ⟨[0x61], [], [], 8, 0xd8932aac, 3, [1, 2, 0, 0xfd, 0xff, 0x68, 0x69]⟩

/-- The call returns 1, although the stream has two bytes. -/
theorem short_stream_accepted :
    (zipadjust (.ofDecoder storedBlock) 2 shortHi true).isOk = true ∧
      ∃ es, entriesOf storedBlock shortHi true = some es ∧
        ∀ out, ¬ StreamsWritten storedBlock shortHi out 0 es := by
  refine ⟨by decide +kernel, ?_⟩
  have hmap : (entriesOf storedBlock shortHi true).map (List.map Entry.header) =
      some [CentralHeader.decode (shortHi.drop 38)] := by decide +kernel
  obtain ⟨es, hentries, hheaders⟩ := Option.map_eq_some_iff.1 hmap
  refine ⟨es, hentries, fun out hwritten => ?_⟩
  have hstream : storedBlock.decode (slice shortHi
      (dataStart (CentralHeader.decode (shortHi.drop 38)))
      (CentralHeader.decode (shortHi.drop 38)).sizeCompressed.toNat) = some ([0x68, 0x69], 7) := by
    decide +kernel
  have hdeclared : (CentralHeader.decode (shortHi.drop 38)).sizeUncompressed.toNat = 3 := by
    decide +kernel
  cases es with
  | nil => cases hheaders
  | cons e es =>
      have hheader : e.header = CentralHeader.decode (shortHi.drop 38) :=
        (List.cons.inj hheaders).1
      obtain ⟨content, ⟨⟨used, hdecode⟩, hlen⟩, -⟩ :=
        hwritten.1 (by rw [hheader]; decide +kernel)
      rw [hheader, hstream] at hdecode
      rw [hheader, hdeclared] at hlen
      cases hdecode
      cases hlen

end NamelessCenter.Zip
