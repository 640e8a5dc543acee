import NamelessCenter.Zip.Zipadjust

/-!
# What the archive rewriter computes

The loop of `zipadjust` on buffers and positions is described here without them. `readDirectory`
reads the entries the loop visits, each with the bytes that become its data, and `place` and
`directory` write an entry list. `zipadjust_sound` says that every successful call reads a list of
entries and writes that list; `zipadjust_complete` says that a call that has nothing to inflate
succeeds on every list that can be read.
-/

namespace NamelessCenter.Zip

open Bytes Native

/-! ## Entries -/

/-- An entry as the rewriter takes it from the input: its headers before any correction, its name,
and the bytes that will be its data in the output. -/
structure Entry where
  header : CentralHeader
  filename : Bytes
  localHeader : LocalHeader
  payload : Bytes
  deriving DecidableEq

/-- The entries that are inflated. -/
def inflates (decompress : Bool) (h : CentralHeader) : Bool :=
  decompress && h.compressionMethod == 8

/-- The only stream of `deflatedPair` has its declared size. -/
theorem decode_deflated_pair : ∀ h ∈ pairHeaders, inflates true h = true →
    storedBlock.decode (deflatedPair.drop (dataStart h)) = some ([0x68, 0x69], 7) ∧
      h.sizeUncompressed.toNat = 2 := by
  decide +kernel

/-- The bytes the rewriter takes as the data of an entry. -/
def payloadOf (D : RawDeflate) (fin : Bytes) (decompress : Bool) (h : CentralHeader) :
    Option Bytes :=
  if inflates decompress h then (D.decode (fin.drop (dataStart h))).map Prod.fst
  else if dataStart h + h.sizeCompressed.toNat ≤ fin.length ∨ h.sizeCompressed = 0 then
    some (slice fin (dataStart h) h.sizeCompressed.toNat)
  else none

/-- The entry whose central header starts the directory bytes `dir`. -/
def readEntry (D : RawDeflate) (fin : Bytes) (decompress : Bool) (dir : Bytes) : Option Entry :=
  let h := CentralHeader.decode dir
  if dir.length < 46 + h.lengthFilename.toNat ∨ 1024 ≤ h.lengthFilename.toNat then none
  else
    match xseekread fin h.offset.toNat 30 with
    | none => none
    | some buf =>
        (payloadOf D fin decompress h).map fun payload =>
          ⟨h, slice dir 46 h.lengthFilename.toNat, LocalHeader.decode buf, payload⟩

/-- The entries up to the first position that does not hold a central header. -/
def readDirectory (D : RawDeflate) (fin : Bytes) (decompress : Bool) :
    Nat → Bytes → Option (List Entry)
  | 0, _ => none
  | rounds + 1, dir =>
      if dir.length < 4 then none
      else if u32At dir 0 ≠ MAGIC_CENTRAL_HEADER then some []
      else
        match readEntry D fin decompress dir with
        | none => none
        | some e =>
            (readDirectory D fin decompress rounds (dir.drop (headerSpan e.header))).map (e :: ·)

/-- The end record the rewriter selects, with its position. -/
def selectFooter (fin : Bytes) : Option (Nat × CentralFooter) :=
  match scanFooter fin (scanPositions (sizeOf fin)) with
  | .found i footer => if footer.centralDirectoryOffset = 0 then none else some (i, footer)
  | _ => none

/-- The directory buffer: everything from the directory offset to the end of the file. -/
def directoryBuffer (fin : Bytes) (footer : CentralFooter) : Option Bytes :=
  xseekread fin footer.centralDirectoryOffset.toNat
    (sizeOf fin - footer.centralDirectoryOffset).toNat

/-- The entries a call of `zipadjust` reads. -/
def entriesOf (D : RawDeflate) (fin : Bytes) (decompress : Bool) : Option (List Entry) :=
  match selectFooter fin with
  | none => none
  | some (_, footer) =>
      match directoryBuffer fin footer with
      | none => none
      | some dir =>
          readDirectory D fin decompress ((sizeOf fin - footer.centralDirectoryOffset).toNat + 1)
            dir

namespace Entry

variable (decompress : Bool)

/-- The entry's corrected central header, for the given output offset. -/
def central (e : Entry) (outIndex : UInt32) : CentralHeader :=
  correctCentral decompress outIndex e.header

/-- The entry's corrected local header. -/
def localOut (e : Entry) : LocalHeader :=
  correctLocal (e.central decompress 0) e.localHeader

/-- The entry's region in the output file. -/
def emit (e : Entry) : Bytes :=
  (e.localOut decompress).encode ++ (e.filename ++ e.payload)

/-- The entry's record in the output directory. -/
def record (e : Entry) (outIndex : UInt32) : Bytes :=
  (e.central decompress outIndex).encode ++ e.filename

/-- The output index after the entry. -/
def next (e : Entry) (outIndex : UInt32) : UInt32 :=
  outIndex + 30 + UInt32.ofNat e.header.lengthFilename.toNat +
    (e.localOut decompress).sizeCompressed

/-- The output file after the entry. -/
def write (e : Entry) (fout : Bytes) (outIndex : UInt32) : Bytes :=
  splice
    (splice (splice fout outIndex.toNat (e.localOut decompress).encode)
      (outIndex + 30).toNat e.filename)
    (outIndex + 30 + UInt32.ofNat e.header.lengthFilename.toNat).toNat e.payload

end Entry

/-! ## Entry lists -/

section Lists

variable (decompress : Bool)

/-- The output index after a list of entries. -/
def advance : UInt32 → List Entry → UInt32
  | o, [] => o
  | o, e :: es => advance (e.next decompress o) es

/-- The output file after a list of entries. -/
def place : Bytes → UInt32 → List Entry → Bytes
  | fout, _, [] => fout
  | fout, o, e :: es => place (e.write decompress fout o) (e.next decompress o) es

/-- The output directory of a list of entries. -/
def directory : UInt32 → List Entry → Bytes
  | _, [] => []
  | o, e :: es => e.record decompress o ++ directory (e.next decompress o) es

end Lists

/-! ## One iteration -/

/-- The cursor `c'` comes from `c` by rewriting the entry `e`. -/
structure Advances (decompress : Bool) (c : Cursor) (e : Entry) (c' : Cursor) : Prop where
  buffer : c'.centralIn.drop c'.inIndex = c.centralIn.drop (c.inIndex + headerSpan e.header)
  centralOut : c'.centralOut = c.centralOut ++ e.record decompress c.outIndex
  outIndex : c'.outIndex = e.next decompress c.outIndex
  fout : c'.fout = e.write decompress c.fout c.outIndex

/-- What an iteration leaves of the directory buffer: the rest of it is as before, and the header
with its name is the corrected header with the old name. -/
theorem overwritten_header {buffer : Bytes} {index nameLen : Nat} (h : CentralHeader)
    (hroom : index + 46 + nameLen ≤ buffer.length) :
    slice (splice buffer index h.encode) index (46 + nameLen) =
      h.encode ++ slice buffer (index + 46) nameLen := by
  have hlen : index + h.encode.length ≤ buffer.length := by
    rw [CentralHeader.length_encode]
    omega
  have htake : (buffer.take index).length = index := by
    rw [List.length_take]
    omega
  rw [splice_inside hlen, List.append_assoc, slice_append_right (by omega), htake, Nat.sub_self,
    slice_add, Nat.zero_add]
  have hhead : slice (h.encode ++ buffer.drop (index + h.encode.length)) 0 46 = h.encode := by
    rw [slice_append_of_le (by simp), ← h.length_encode, slice_zero_length]
  have htail : slice (h.encode ++ buffer.drop (index + h.encode.length)) 46 nameLen =
      slice buffer (index + 46) nameLen := by
    rw [slice_append_right (by simp), slice_drop, h.length_encode, Nat.sub_self, Nat.add_zero]
  rw [hhead, htail]

section Iteration

variable {Z : Inflater} {D : RawDeflate} {fuel : Nat} {decompress : Bool} {fin : Bytes}

/-- A successful transfer writes the entry's data. -/
theorem move_data_sound (hZ : Z.Sound D) {fout result : Bytes} {h : CentralHeader} {pos : Nat}
    (hmoved : moveData Z fuel decompress fin fout h pos = some (true, result)) :
    ∃ payload, payloadOf D fin decompress h = some payload ∧ result = splice fout pos payload := by
  have hsize : h.sizeCompressed.toUInt64.toNat = h.sizeCompressed.toNat :=
    UInt32.toNat_toUInt64 _
  unfold moveData at hmoved
  unfold payloadOf inflates
  cases hmode : decompress && h.compressionMethod == 8 with
  | true =>
      simp only [hmode, if_true] at hmoved ⊢
      obtain ⟨out, used, hdecode, hout⟩ := xdecompress_sound hZ hmoved
      exact ⟨out, by rw [hdecode, Option.map_some], hout⟩
  | false =>
      simp only [hmode, Bool.false_eq_true, if_false, Option.some.injEq] at hmoved ⊢
      obtain ⟨hcopied, hfailed⟩ :=
        xfilecopy_eq fin fout (dataStart h) pos h.sizeCompressed.toUInt64
      rw [hsize] at hcopied hfailed
      by_cases havail : dataStart h + h.sizeCompressed.toNat ≤ fin.length ∨
          h.sizeCompressed.toUInt64 = 0
      · have hcopy := hcopied havail
        rw [hmoved, Prod.mk.injEq] at hcopy
        refine ⟨_, if_pos ?_, hcopy.2⟩
        rcases havail with hroom | hzero
        · exact .inl hroom
        · refine .inr (UInt32.toNat_inj.1 ?_)
          rw [← hsize, hzero]
          rfl
      · have hshort := hfailed havail
        rw [hmoved] at hshort
        cases hshort

/-- A copy whose data can be read succeeds. -/
theorem move_data_complete {fout payload : Bytes} {h : CentralHeader} {pos : Nat}
    (hcopies : inflates decompress h = false)
    (hpayload : payloadOf D fin decompress h = some payload) :
    moveData Z fuel decompress fin fout h pos = some (true, splice fout pos payload) := by
  have hsize : h.sizeCompressed.toUInt64.toNat = h.sizeCompressed.toNat :=
    UInt32.toNat_toUInt64 _
  simp only [payloadOf, hcopies, Bool.false_eq_true, if_false] at hpayload
  simp only [inflates] at hcopies
  simp only [moveData, hcopies, Bool.false_eq_true, if_false, Option.some.injEq]
  split at hpayload
  · rename_i havail
    cases hpayload
    rw [(xfilecopy_eq fin fout (dataStart h) pos h.sizeCompressed.toUInt64).1, hsize]
    rcases havail with hroom | hzero
    · rw [hsize]
      exact .inl hroom
    · rw [hzero]
      exact .inr rfl
  · cases hpayload

/-- The cursor after rewriting an entry. -/
theorem advances_of_read {c : Cursor} {h : CentralHeader} {l : LocalHeader} {payload : Bytes}
    (hroom : c.inIndex + 46 + h.lengthFilename.toNat ≤ c.centralIn.length) :
    let e : Entry := ⟨h, slice c.centralIn (c.inIndex + 46) h.lengthFilename.toNat, l, payload⟩
    let centralIn := splice c.centralIn c.inIndex (e.central decompress c.outIndex).encode
    Advances decompress c e
      { centralIn
        inIndex := c.inIndex + headerSpan h
        centralOut := c.centralOut ++ slice centralIn c.inIndex (46 + h.lengthFilename.toNat)
        outIndex := e.next decompress c.outIndex
        fout := e.write decompress c.fout c.outIndex } := by
  intro e centralIn
  refine ⟨?_, ?_, rfl, rfl⟩
  · have hspan : c.inIndex + (e.central decompress c.outIndex).encode.length ≤
        c.inIndex + headerSpan h := by
      rw [CentralHeader.length_encode, headerSpan]
      omega
    exact drop_splice hspan
  · simp only [centralIn, Entry.record]
    rw [overwritten_header _ hroom]

/-- An iteration that succeeds has read an entry and rewritten it. -/
theorem rewrite_entry_sound (hZ : Z.Sound D) {c c' : Cursor}
    (h : rewriteEntry Z fuel decompress fin c = .ok c') :
    ∃ e, readEntry D fin decompress (c.centralIn.drop c.inIndex) = some e ∧
      Advances decompress c e c' := by
  unfold rewriteEntry at h
  unfold readEntry
  generalize CentralHeader.decode (c.centralIn.drop c.inIndex) = header at h ⊢
  simp only at h ⊢
  split at h
  · cases h
  · rename_i hguard
    rw [not_or, Nat.not_lt] at hguard
    cases hlocal : xseekread fin header.offset.toNat 30 with
    | none => simp [hlocal] at h
    | some buf =>
        simp only [hlocal] at h
        split at h
        · cases h
        · cases h
        · rename_i fout hmoved
          obtain ⟨payload, hpayload, rfl⟩ := move_data_sound hZ hmoved
          rw [if_neg (by rw [List.length_drop]; omega), hpayload, slice_drop]
          refine ⟨_, rfl, ?_⟩
          cases h
          exact advances_of_read hguard.1

/-- An iteration at an entry that can be read and is copied succeeds. -/
theorem rewrite_entry_complete (Z : Inflater) (fuel : Nat) {c : Cursor} {e : Entry}
    (hread : readEntry D fin decompress (c.centralIn.drop c.inIndex) = some e)
    (hcopies : inflates decompress e.header = false) :
    ∃ c', rewriteEntry Z fuel decompress fin c = .ok c' ∧ Advances decompress c e c' := by
  unfold readEntry at hread
  unfold rewriteEntry
  generalize CentralHeader.decode (c.centralIn.drop c.inIndex) = header at hread ⊢
  simp only at hread ⊢
  split at hread
  · cases hread
  · rename_i hguard
    rw [not_or, Nat.not_lt, List.length_drop] at hguard
    cases hlocal : xseekread fin header.offset.toNat 30 with
    | none => simp [hlocal] at hread
    | some buf =>
        simp only [hlocal, Option.map_eq_some_iff] at hread
        obtain ⟨payload, hpayload, rfl⟩ := hread
        simp only at hcopies
        have hroom : c.inIndex + 46 + header.lengthFilename.toNat ≤ c.centralIn.length := by
          omega
        rw [if_neg (by omega)]
        simp only
        rw [move_data_complete hcopies hpayload, slice_drop]
        exact ⟨_, rfl, advances_of_read hroom⟩

end Iteration

/-! ## The loop -/

section Loop

variable {Z : Inflater} {D : RawDeflate} {fuel : Nat} {decompress : Bool} {fin : Bytes}

/-- The cursor `c'` comes from `c` by rewriting the entries `es`. -/
structure Rewrites (decompress : Bool) (c : Cursor) (es : List Entry) (c' : Cursor) : Prop where
  centralOut : c'.centralOut = c.centralOut ++ directory decompress c.outIndex es
  outIndex : c'.outIndex = advance decompress c.outIndex es
  fout : c'.fout = place decompress c.fout c.outIndex es

/-- No entry is rewritten. -/
theorem Rewrites.refl (decompress : Bool) (c : Cursor) : Rewrites decompress c [] c :=
  ⟨by simp [directory], rfl, rfl⟩

/-- An entry is rewritten, and those behind it. -/
theorem Rewrites.cons {c c₁ c' : Cursor} {e : Entry} {es : List Entry}
    (hstep : Advances decompress c e c₁) (hrest : Rewrites decompress c₁ es c') :
    Rewrites decompress c (e :: es) c' := by
  refine ⟨?_, ?_, ?_⟩
  · rw [hrest.centralOut, hstep.centralOut, hstep.outIndex, List.append_assoc]
    rfl
  · rw [hrest.outIndex, hstep.outIndex]
    rfl
  · rw [hrest.fout, hstep.fout, hstep.outIndex]
    rfl

/-- A round of `readDirectory` comes to the end of the directory, or reads one entry of it. -/
theorem read_directory_cases {rounds : Nat} {dir : Bytes} {es : List Entry}
    (h : readDirectory D fin decompress (rounds + 1) dir = some es) :
    4 ≤ dir.length ∧
      (u32At dir 0 ≠ MAGIC_CENTRAL_HEADER ∧ es = [] ∨
        u32At dir 0 = MAGIC_CENTRAL_HEADER ∧ ∃ e rest,
          readEntry D fin decompress dir = some e ∧
          readDirectory D fin decompress rounds (dir.drop (headerSpan e.header)) = some rest ∧
          es = e :: rest) := by
  unfold readDirectory at h
  split at h
  · cases h
  · rename_i hroom
    refine ⟨by omega, ?_⟩
    split at h
    · rename_i hend
      cases h
      exact .inl ⟨hend, rfl⟩
    · rename_i hheader
      cases hentry : readEntry D fin decompress dir with
      | none => simp [hentry] at h
      | some e =>
          simp only [hentry, Option.map_eq_some_iff] at h
          obtain ⟨rest, hrest, rfl⟩ := h
          exact .inr ⟨not_not.1 hheader, e, rest, rfl, hrest, rfl⟩

/-- A loop that ends normally has read the entries of its buffer and rewritten them. -/
theorem zipadjust_loop_sound (hZ : Z.Sound D) {rounds : Nat} {c c' : Cursor}
    (h : zipadjustLoop Z fuel decompress fin rounds c = .ok c') :
    ∃ es, readDirectory D fin decompress rounds (c.centralIn.drop c.inIndex) = some es ∧
      Rewrites decompress c es c' := by
  induction rounds generalizing c with
  | zero => cases h
  | succ rounds ih =>
      unfold zipadjustLoop at h
      unfold readDirectory
      rw [u32_at_drop, Nat.add_zero, List.length_drop]
      split at h
      · cases h
      · rename_i hroom
        rw [if_neg (by omega)]
        split at h
        · rename_i hend
          cases h
          exact ⟨[], if_pos hend, .refl _ _⟩
        · rename_i hheader
          rw [if_neg hheader]
          cases hentry : rewriteEntry Z fuel decompress fin c with
          | error stop => simp [hentry] at h
          | ok c₁ =>
              simp only [hentry] at h
              obtain ⟨e, hread, hstep⟩ := rewrite_entry_sound hZ hentry
              obtain ⟨es, hes, hrest⟩ := ih h
              refine ⟨e :: es, ?_, .cons hstep hrest⟩
              simp only [hread]
              rw [List.drop_drop, ← hstep.buffer, hes, Option.map_some]

/-- A loop over entries that can be read and are copied ends normally. -/
theorem zipadjust_loop_complete (Z : Inflater) (fuel : Nat) {rounds : Nat} {c : Cursor}
    {es : List Entry}
    (hread : readDirectory D fin decompress rounds (c.centralIn.drop c.inIndex) = some es)
    (hcopies : ∀ e ∈ es, inflates decompress e.header = false) :
    ∃ c', zipadjustLoop Z fuel decompress fin rounds c = .ok c' ∧
      Rewrites decompress c es c' := by
  induction rounds generalizing c es with
  | zero => cases hread
  | succ rounds ih =>
      obtain ⟨hroom, hcases⟩ := read_directory_cases hread
      rw [List.length_drop] at hroom
      rw [u32_at_drop, Nat.add_zero] at hcases
      unfold zipadjustLoop
      rw [if_neg (by omega)]
      rcases hcases with ⟨hend, rfl⟩ | ⟨hheader, e, rest, hentry, hrest, rfl⟩
      · exact ⟨c, if_pos hend, .refl _ _⟩
      · rw [if_neg (not_not.2 hheader)]
        obtain ⟨c₁, hrun, hstep⟩ := rewrite_entry_complete Z fuel hentry
          (hcopies e List.mem_cons_self)
        rw [List.drop_drop, ← hstep.buffer] at hrest
        obtain ⟨c', hloop, hlist⟩ :=
          ih hrest fun e' he' => hcopies e' (List.mem_cons_of_mem _ he')
        refine ⟨c', ?_, .cons hstep hlist⟩
        simp only [hrun, hloop]

end Loop

/-! ## The whole function -/

section Whole

variable {Z : Inflater} {D : RawDeflate} {fuel : Nat} {decompress : Bool} {fin : Bytes}

/-- The output for a list of entries. -/
def rewritten (decompress : Bool) (footer : CentralFooter) (es : List Entry) : Bytes :=
  finish footer (directory decompress 0 es) (advance decompress 0 es) (place decompress [] 0 es)

/-- The directory buffer holds the bytes from the directory's offset on. -/
theorem directory_buffer_eq_some {dir : Bytes} {footer : CentralFooter}
    (h : directoryBuffer fin footer = some dir) :
    dir.length = (sizeOf fin - footer.centralDirectoryOffset).toNat ∧
      dir = slice fin footer.centralDirectoryOffset.toNat dir.length := by
  unfold directoryBuffer xseekread at h
  split at h
  · rename_i hlen
    cases h
    exact ⟨hlen, by rw [hlen]⟩
  · cases h

/-- What a call reads: the end record, the directory buffer, and the entries in it. -/
theorem entries_of_eq_some_iff {es : List Entry} :
    entriesOf D fin decompress = some es ↔ ∃ i footer dir, selectFooter fin = some (i, footer) ∧
      directoryBuffer fin footer = some dir ∧
        readDirectory D fin decompress (dir.length + 1) dir = some es := by
  unfold entriesOf
  constructor
  · intro h
    split at h
    · cases h
    · rename_i i footer hselect
      split at h
      · cases h
      · rename_i dir hbuffer
        rw [← (directory_buffer_eq_some hbuffer).1] at h
        exact ⟨i, footer, dir, hselect, hbuffer, h⟩
  · intro ⟨i, footer, dir, hselect, hbuffer, hread⟩
    rw [hselect]
    dsimp only
    rw [hbuffer]
    dsimp only
    rw [← (directory_buffer_eq_some hbuffer).1, hread]

/-- The entries are those in the directory of the selected end record. -/
theorem entries_of_selected {i : Nat} {footer : CentralFooter} {es : List Entry}
    (hselect : selectFooter fin = some (i, footer)) (h : entriesOf D fin decompress = some es) :
    ∃ dir, directoryBuffer fin footer = some dir ∧
      readDirectory D fin decompress (dir.length + 1) dir = some es := by
  obtain ⟨i', footer', dir, hselect', hbuffer, hread⟩ := entries_of_eq_some_iff.1 h
  rw [hselect, Option.some.injEq] at hselect'
  cases hselect'
  exact ⟨dir, hbuffer, hread⟩

/-- The function in terms of the selected end record and the directory buffer. -/
theorem zipadjust_eq (Z : Inflater) (fuel : Nat) (fin : Bytes) (decompress : Bool) :
    zipadjust Z fuel fin decompress =
      match selectFooter fin with
      | none => .error (.returns0 none)
      | some (_, footer) =>
          match directoryBuffer fin footer with
          | none => .error (.returns0 none)
          | some dir =>
              match zipadjustLoop Z fuel decompress fin (dir.length + 1) ⟨dir, 0, [], 0, []⟩ with
              | .error stop => .error stop
              | .ok c => .ok (finish footer c.centralOut c.outIndex c.fout) := by
  unfold zipadjust selectFooter
  simp only
  cases scanFooter fin (scanPositions (sizeOf fin)) with
  | readFailed => rfl
  | notFound => rfl
  | found i footer =>
      simp only
      by_cases hzero : footer.centralDirectoryOffset = 0
      · rw [if_pos hzero, if_pos hzero]
      · rw [if_neg hzero, if_neg hzero]
        simp only
        cases hbuffer : directoryBuffer fin footer with
        | none =>
            rw [directoryBuffer] at hbuffer
            rw [hbuffer]
        | some dir =>
            have hlen := (directory_buffer_eq_some hbuffer).1
            rw [directoryBuffer] at hbuffer
            rw [hbuffer]
            generalize (sizeOf fin - footer.centralDirectoryOffset).toNat = size at hlen ⊢
            subst hlen
            rfl

/-- A successful call has read the entries of the selected directory and written them. -/
theorem zipadjust_sound (hZ : Z.Sound D) {out : Bytes}
    (h : zipadjust Z fuel fin decompress = .ok out) :
    ∃ i footer es, selectFooter fin = some (i, footer) ∧
      entriesOf D fin decompress = some es ∧ out = rewritten decompress footer es := by
  rw [zipadjust_eq] at h
  cases hselect : selectFooter fin with
  | none =>
      rw [hselect] at h
      cases h
  | some selected =>
      obtain ⟨i, footer⟩ := selected
      rw [hselect] at h
      simp only at h
      cases hbuffer : directoryBuffer fin footer with
      | none =>
          rw [hbuffer] at h
          cases h
      | some dir =>
          rw [hbuffer] at h
          simp only at h
          split at h
          · cases h
          · rename_i c' hloop
            obtain ⟨es, hes, hrewrites⟩ := zipadjust_loop_sound hZ hloop
            refine ⟨i, footer, es, rfl,
              entries_of_eq_some_iff.2 ⟨i, footer, dir, hselect, hbuffer, hes⟩, ?_⟩
            cases h
            rw [rewritten, hrewrites.centralOut, hrewrites.outIndex, hrewrites.fout,
              List.nil_append]

/-- A call that has nothing to inflate succeeds on every directory that can be read. -/
theorem zipadjust_complete {i : Nat} {footer : CentralFooter} {es : List Entry}
    (hselect : selectFooter fin = some (i, footer)) (hread : entriesOf D fin decompress = some es)
    (hcopies : ∀ e ∈ es, inflates decompress e.header = false) :
    zipadjust Z fuel fin decompress = .ok (rewritten decompress footer es) := by
  obtain ⟨dir, hbuffer, hdir⟩ := entries_of_selected hselect hread
  obtain ⟨c', hloop, hrewrites⟩ :=
    zipadjust_loop_complete Z fuel (c := ⟨dir, 0, [], 0, []⟩) hdir hcopies
  rw [zipadjust_eq, hselect]
  dsimp only
  rw [hbuffer]
  dsimp only
  rw [hloop]
  dsimp only
  rw [rewritten, hrewrites.centralOut, hrewrites.outIndex, hrewrites.fout, List.nil_append]

end Whole

end NamelessCenter.Zip
