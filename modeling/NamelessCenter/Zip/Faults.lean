import Mathlib.Logic.Relation
import NamelessCenter.Delta.Dedelta
import NamelessCenter.Zip.Zipadjust

/-!
# zipadjust on an operating system that can fail

`zipadjustOn` is the function of `zipadjust.c` with every call to the operating system, the
allocator and `inflateInit2` taking its result from a sequence of answers. `prepare` is the part up
to the `open` of the output file, and `rewriteArchive` the part behind it. None of the early
returns of the second part removes the file, so a call cleans up exactly if nothing fails there
(`zipadjust_cleans_up_iff`).
-/

namespace NamelessCenter.Zip

open Bytes Native
open Delta (readResult writeResult)

/-! ## Descriptors -/

/-- The results of the calls, in the order in which they are made. `none` is -1, a null pointer or
an error code. For `open` the number is the descriptor, for `read` and `write` it bounds how much
the call moves, and for the other calls it has no meaning. `memory` is what lies in memory from the
buffer on when as many calls have been made. -/
structure Answers where
  result : Nat → Option Nat
  memory : Nat → Bytes

instance : CoeFun Answers fun _ => Nat → Option Nat := ⟨Answers.result⟩

/-- The two open files with the number of calls made so far. -/
structure Fds extends Files where
  calls : Nat

section Calls

variable (os : Answers)

/-- `lseek(fdIn, offset, SEEK_SET)`. -/
def seekIn (s : Fds) (offset : Nat) : Bool × Fds :=
  match os s.calls with
  | none => (false, { s with calls := s.calls + 1 })
  | some _ => (true, { s with inPos := offset, calls := s.calls + 1 })

/-- `lseek(fdOut, offset, SEEK_SET)`. -/
def seekOut (s : Fds) (offset : Nat) : Bool × Fds :=
  match os s.calls with
  | none => (false, { s with calls := s.calls + 1 })
  | some _ => (true, { s with outPos := offset, calls := s.calls + 1 })

/-- A call without an effect on the open files: `malloc`, `inflateInit2` or `unlink`. -/
def attempt (s : Fds) : Bool × Fds :=
  ((os s.calls).isSome, { s with calls := s.calls + 1 })

/-- The device whose calls take the next answer. What a write takes from behind the end of its
buffer is left out. -/
def answeringDevice : Device Fds where
  read s wanted :=
    let r := readResult (os s.calls) wanted (s.input.length - s.inPos)
    (r.map fun n => slice s.input s.inPos n,
      { s with inPos := s.inPos + r.getD 0, calls := s.calls + 1 })
  write s buf count :=
    let r := writeResult (os s.calls) count.toNat
    (r,
      { s with
        output := splice s.output s.outPos (buf.take (r.getD 0))
        outPos := s.outPos + r.getD 0
        calls := s.calls + 1 })
  memory s := os.memory s.calls

/-- `xseekread`: the bytes read, or `none` when the seek fails or the read does not fill the
buffer. -/
def xseekreadOn (s : Fds) (offset bytes : Nat) : Option Bytes × Fds :=
  match seekIn os s offset with
  | (false, s) => (none, s)
  | (true, s) =>
      match (answeringDevice os).read s bytes with
      | (none, s) => (none, s)
      | (some data, s) => (if data.length = bytes then some data else none, s)

/-- `xseekwrite`. -/
def xseekwriteOn (s : Fds) (offset : Nat) (buf : Bytes) : Bool × Fds :=
  match seekOut os s offset with
  | (false, s) => (false, s)
  | (true, s) =>
      let (written, s) := (answeringDevice os).write s buf (UInt64.ofNat buf.length)
      (written == some buf.length, s)

/-- `xfilecopy`, with the given number of rounds for its loop. -/
def xfilecopyOn (fuel : Nat) (s : Fds) (offsetIn offsetOut : Nat) (bytes : UInt64) :
    Option (Bool × Fds) :=
  match seekIn os s offsetIn with
  | (false, s) => some (false, s)
  | (true, s) =>
      match seekOut os s offsetOut with
      | (false, s) => some (false, s)
      | (true, s) =>
          match attempt os s with
          | (false, s) => some (false, s)
          | (true, s) => xfilecopyLoop (answeringDevice os) fuel bytes s

/-- `xdecompress`, with the given number of rounds for its loops. -/
def xdecompressOn (Z : Inflater) (fuel : Nat) (s : Fds) (offsetIn offsetOut : Nat) :
    Option (Bool × Fds) :=
  match seekIn os s offsetIn with
  | (false, s) => some (false, s)
  | (true, s) =>
      match seekOut os s offsetOut with
      | (false, s) => some (false, s)
      | (true, s) =>
          match attempt os s with
          | (false, s) => some (false, s)
          | (true, s) => xdecompressLoop Z (answeringDevice os) fuel fuel .ok Z.init s

end Calls

/-! ## Up to the output file -/

/-- The backward search. -/
def scanFooterOn (os : Answers) : Nat → Fds → Scan × Fds
  | 0, s => (.notFound, s)
  | i + 1, s =>
      match xseekreadOn os s i 4 with
      | (none, s) => (.readFailed, s)
      | (some magic, s) =>
          if u32At magic 0 = MAGIC_CENTRAL_FOOTER then
            match xseekreadOn os s i 22 with
            | (none, s) => (.readFailed, s)
            | (some record, s) =>
                let footer := CentralFooter.decode record
                match xseekreadOn os s footer.centralDirectoryOffset.toNat 46 with
                | (none, s) => (.readFailed, s)
                | (some header, s) =>
                    if (CentralHeader.decode header).signature = MAGIC_CENTRAL_HEADER then
                      (.found i footer, s)
                    else scanFooterOn os i s
          else scanFooterOn os i s

/-- How the first part ends: it returns 0 with this file at the output path, it crashes, or it has
opened the output file under a descriptor. -/
inductive Prepared where
  | returns0 (atOut : Option Bytes)
  | outOfBounds
  | created (fd : Nat) (footer : CentralFooter) (centralIn : Bytes) (s : Fds)

/-- The calls behind a successful search: two allocations, the read of the directory, and `unlink`
and `open` for the output path. -/
def createOutput (os : Answers) (before : Option Bytes) (size : UInt32) (footer : CentralFooter)
    (s : Fds) : Prepared :=
  let inSize := (size - footer.centralDirectoryOffset).toNat
  let (centralIn?, s) := attempt os s
  let (centralOut?, s) := attempt os s
  match xseekreadOn os s footer.centralDirectoryOffset.toNat inSize with
  | (none, _) => .returns0 before
  | (some centralIn, s) =>
      -- A read into a null pointer fails, and `memset` on one crashes.
      if centralIn? = false ∧ inSize ≠ 0 then .returns0 before
      else if centralOut? = false ∧ inSize ≠ 0 then .outOfBounds
      else
        let (unlinked, s) := attempt os s
        let atOut := if unlinked then none else before
        match os s.calls with
        | none => .returns0 atOut
        | some fd =>
            .created fd footer centralIn
              { s with output := atOut.getD [], outPos := 0, calls := s.calls + 1 }

/-- The first part, where `before` is the file at the output path, if there is one. -/
def prepare (os : Answers) (before : Option Bytes) (fin : Bytes) : Prepared :=
  match os 0 with
  | none => .returns0 before
  | some 0 => .returns0 before
  | some (_ + 1) =>
      -- A failed `lseek` stores -1 in the unsigned `size`; the second `lseek` is not looked at.
      let size := if (os 1).isSome then sizeOf fin else UInt32.ofNat (2 ^ 32 - 1)
      match scanFooterOn os (scanPositions size) ⟨⟨fin, 0, [], 0⟩, 3⟩ with
      | (.readFailed, _) => .returns0 before
      | (.notFound, _) => .returns0 before
      | (.found _ footer, s) =>
          if footer.centralDirectoryOffset = 0 then .returns0 before
          else createOutput os before size footer s

/-! ## Behind the output file -/

/-- The buffers, indices and files of the rewriting loop. -/
structure Rewriting where
  centralIn : Bytes
  inIndex : Nat
  centralOut : Bytes
  outIndex : UInt32
  fds : Fds

namespace Rewriting

/-- The header at the cursor. -/
def header (c : Rewriting) : CentralHeader := CentralHeader.decode (c.centralIn.drop c.inIndex)

/-- The bytes copied to `filename`. -/
def filename (c : Rewriting) : Bytes :=
  slice c.centralIn (c.inIndex + 46) c.header.lengthFilename.toNat

/-- `out_index` when the local header and the name have been written. -/
def dataIndex (c : Rewriting) : UInt32 :=
  c.outIndex + 30 + UInt32.ofNat c.header.lengthFilename.toNat

/-- The local header that goes with the bytes read for it. -/
def localOut (decompress : Bool) (c : Rewriting) (buf : Bytes) : LocalHeader :=
  correctLocal (correctCentral decompress c.outIndex c.header) (LocalHeader.decode buf)

/-- The buffers and indices at the end of an iteration. -/
def advance (decompress : Bool) (c : Rewriting) (localOut : LocalHeader) (s : Fds) : Rewriting :=
  let centralIn :=
    splice c.centralIn c.inIndex (correctCentral decompress c.outIndex c.header).encode
  { centralIn
    inIndex := c.inIndex + headerSpan c.header
    centralOut := c.centralOut ++ slice centralIn c.inIndex (46 + c.header.lengthFilename.toNat)
    outIndex := c.dataIndex + localOut.sizeCompressed
    fds := s }

end Rewriting

section Rewriting

variable (os : Answers) (Z : Inflater) (fuel : Nat) (decompress : Bool)

/-- The transfer of an entry's data. -/
def moveDataOn (s : Fds) (h : CentralHeader) (outIndex : Nat) : Option (Bool × Fds) :=
  if decompress && h.compressionMethod == 8 then
    xdecompressOn os Z fuel s (dataStart h) outIndex
  else xfilecopyOn os fuel s (dataStart h) outIndex h.sizeCompressed.toUInt64

/-- The reads and writes of an iteration before the transfer, with the local header written. -/
def writeHeadersOn (c : Rewriting) : Option LocalHeader × Fds :=
  match xseekreadOn os c.fds c.header.offset.toNat 30 with
  | (none, s) => (none, s)
  | (some buf, s) =>
      match xseekwriteOn os s c.outIndex.toNat (c.localOut decompress buf).encode with
      | (false, s) => (none, s)
      | (true, s) =>
          match xseekwriteOn os s (c.outIndex + 30).toNat c.filename with
          | (false, s) => (none, s)
          | (true, s) => (some (c.localOut decompress buf), s)

/-- One iteration of the rewriting loop, at a central header. -/
def rewriteEntryOn (c : Rewriting) : Except Stop Rewriting :=
  if c.centralIn.length < c.inIndex + 46 + c.header.lengthFilename.toNat ∨
      1024 ≤ c.header.lengthFilename.toNat then .error .outOfBounds
  else
    match writeHeadersOn os decompress c with
    | (none, s) => .error (.returns0 (some s.output))
    | (some localOut, s) =>
        match moveDataOn os Z fuel decompress s c.header c.dataIndex.toNat with
        | none => .error .outOfFuel
        | some (false, s) => .error (.returns0 (some s.output))
        | some (true, s) => .ok (c.advance decompress localOut s)

/-- The rewriting loop, for at most the given number of iterations. -/
def zipadjustLoopOn : Nat → Rewriting → Except Stop Rewriting
  | 0, _ => .error .outOfFuel
  | rounds + 1, c =>
      if c.centralIn.length < c.inIndex + 4 then .error .outOfBounds
      else if u32At c.centralIn c.inIndex ≠ MAGIC_CENTRAL_HEADER then .ok c
      else
        match rewriteEntryOn os Z fuel decompress c with
        | .error stop => .error stop
        | .ok c => zipadjustLoopOn rounds c

/-- The writes after the loop. -/
def finishOn (footer : CentralFooter) (c : Rewriting) : Except Stop Fds :=
  let size := UInt32.ofNat c.centralOut.length
  match xseekwriteOn os c.fds c.outIndex.toNat (c.centralOut.take size.toNat) with
  | (false, s) => .error (.returns0 (some s.output))
  | (true, s) =>
      match xseekwriteOn os s (c.outIndex + size).toNat
        (closingFooter size c.outIndex footer).encode with
      | (false, s) => .error (.returns0 (some s.output))
      | (true, s) => .ok s

/-- The statements under `if (fout > 0)`. -/
def rewriteArchive (footer : CentralFooter) (centralIn : Bytes) (s : Fds) : Except Stop Fds :=
  match zipadjustLoopOn os Z fuel decompress (centralIn.length + 1) ⟨centralIn, 0, [], 0, s⟩ with
  | .error stop => .error stop
  | .ok c => finishOn os footer c

/-- `zipadjust(fin, fout, decompress)`. Descriptor 0 is taken for a failed `open`. -/
def zipadjustOn (before : Option Bytes) (fin : Bytes) : Except Stop Ending :=
  match prepare os before fin with
  | .returns0 atOut => .ok ⟨false, false, atOut⟩
  | .outOfBounds => .error .outOfBounds
  | .created 0 _ _ s => .ok ⟨false, true, some s.output⟩
  | .created (_ + 1) footer centralIn s =>
      match rewriteArchive os Z fuel decompress footer centralIn s with
      | .error (.returns0 output) => .ok ⟨false, true, output⟩
      | .error .outOfBounds => .error .outOfBounds
      | .error .outOfFuel => .error .outOfFuel
      | .ok s => .ok ⟨true, true, some s.output⟩

end Rewriting

/-! ## The steps behind the output file -/

/-- A positioned read of `wanted` bytes, of which `available` follow the position, fails if its
calls are the ones from number `k` on. -/
def SeekReadFails (os : Answers) (k wanted available : Nat) : Prop :=
  os k = none ∨ readResult (os (k + 1)) wanted available ≠ some wanted

/-- A positioned write of `count` bytes fails if its calls are the ones from number `k` on. -/
def SeekWriteFails (os : Answers) (k count : Nat) : Prop :=
  os k = none ∨ writeResult (os (k + 1)) count ≠ some count

namespace Rewriting

/-- The loop is at a central header that lies in the buffer, with a name that fits `filename`. -/
structure AtHeader (c : Rewriting) : Prop where
  magic : u32At c.centralIn c.inIndex = MAGIC_CENTRAL_HEADER
  room : c.inIndex + 46 + c.header.lengthFilename.toNat ≤ c.centralIn.length
  name : c.header.lengthFilename.toNat < 1024

/-- The loop ends here. -/
structure AtEnd (c : Rewriting) : Prop where
  room : c.inIndex + 4 ≤ c.centralIn.length
  magic : u32At c.centralIn c.inIndex ≠ MAGIC_CENTRAL_HEADER

/-- The files when the local header and the name have been written. -/
def named (decompress : Bool) (c : Rewriting) : Fds where
  input := c.fds.input
  inPos := c.header.offset.toNat + 30
  output := splice
    (splice c.fds.output c.outIndex.toNat
      (c.localOut decompress (slice c.fds.input c.header.offset.toNat 30)).encode)
    (c.outIndex + 30).toNat c.filename
  outPos := (c.outIndex + 30).toNat + c.filename.length
  calls := c.fds.calls + 6

end Rewriting

section Steps

variable (os : Answers) (Z : Inflater) (fuel : Nat) (decompress : Bool)

/-- The read of the local header fails, or its write or that of the name. -/
inductive HeadersFail (c : Rewriting) : Prop where
  | readLocal
      (h : SeekReadFails os c.fds.calls 30 (c.fds.input.length - c.header.offset.toNat))
  | writeLocal (h : SeekWriteFails os (c.fds.calls + 2) 30)
  | writeName (h : SeekWriteFails os (c.fds.calls + 4) c.header.lengthFilename.toNat)

/-- One of the steps of the iteration at `c` fails. -/
inductive EntryFails (c : Rewriting) : Prop where
  | headers (h : HeadersFail os c)
  | moveData (s : Fds)
      (h : moveDataOn os Z fuel decompress (c.named decompress) c.header c.dataIndex.toNat =
        some (false, s))

/-- One of the writes behind the loop fails. -/
inductive FinishFails (c : Rewriting) : Prop where
  | directory (h : SeekWriteFails os c.fds.calls
      (min (UInt32.ofNat c.centralOut.length).toNat c.centralOut.length))
  | footer (h : SeekWriteFails os (c.fds.calls + 2) 22)

/-- The loop goes from one header to the next position. -/
def Next (c c' : Rewriting) : Prop :=
  c.AtHeader ∧ rewriteEntryOn os Z fuel decompress c = .ok c'

/-- No step that the loop comes to fails, and no write behind it. -/
def NothingFails (c : Rewriting) : Prop :=
  ∀ c', Relation.ReflTransGen (Next os Z fuel decompress) c c' →
    (c'.AtHeader → ¬ EntryFails os Z fuel decompress c') ∧ (c'.AtEnd → ¬ FinishFails os c')

end Steps

/-! ## What fails when a call fails -/

section Failures

variable {os : Answers} {Z : Inflater} {fuel : Nat} {decompress : Bool}

/-- A read that succeeds has not failed. -/
theorem not_fails_of_xseekread_on {s s' : Fds} {offset bytes : Nat} {buf : Bytes}
    (h : xseekreadOn os s offset bytes = (some buf, s')) :
    ¬ SeekReadFails os s.calls bytes (s.input.length - offset) := by
  unfold xseekreadOn seekIn at h
  cases hseek : os s.calls with
  | none => simp [hseek] at h
  | some n =>
      simp only [hseek, answeringDevice] at h
      cases hresult : readResult (os (s.calls + 1)) bytes (s.input.length - offset) with
      | none => simp [hresult] at h
      | some m =>
          have hle := (Delta.read_result_le hresult).2
          have hlen : (slice s.input offset m).length = m := by
            rw [length_slice]
            omega
          simp only [hresult, Option.map_some, hlen] at h
          split at h
          · rename_i heq
            intro hfails
            rcases hfails with hnone | hshort
            · simp [hseek] at hnone
            · exact hshort (by rw [hresult, heq])
          · cases h

/-- A read that does not fail gives its bytes. -/
theorem xseekread_on_of_not_fails {s : Fds} {offset bytes : Nat}
    (h : ¬ SeekReadFails os s.calls bytes (s.input.length - offset)) :
    xseekreadOn os s offset bytes =
      (some (slice s.input offset bytes),
        { s with inPos := offset + bytes, calls := s.calls + 2 }) := by
  obtain ⟨hseek, hread⟩ := not_or.1 h
  rw [not_not] at hread
  obtain ⟨n, hn⟩ := Option.ne_none_iff_exists'.1 hseek
  have hle := (Delta.read_result_le hread).2
  have hlen : (slice s.input offset bytes).length = bytes := by
    rw [length_slice]
    omega
  simp only [xseekreadOn, seekIn, hn, answeringDevice, hread, Option.map_some, hlen, if_pos,
    Option.getD_some]

/-- A write that succeeds has not failed. -/
theorem not_fails_of_xseekwrite_on {s s' : Fds} {offset : Nat} {buf : Bytes}
    (hsmall : buf.length < 2 ^ 64) (h : xseekwriteOn os s offset buf = (true, s')) :
    ¬ SeekWriteFails os s.calls buf.length := by
  have hcount : (UInt64.ofNat buf.length).toNat = buf.length := by
    rw [UInt64.toNat_ofNat', Nat.mod_eq_of_lt hsmall]
  unfold xseekwriteOn seekOut at h
  cases hseek : os s.calls with
  | none => simp [hseek] at h
  | some n =>
      simp only [hseek, answeringDevice, hcount, Prod.mk.injEq, beq_iff_eq] at h
      intro hfails
      rcases hfails with hnone | hshort
      · simp [hseek] at hnone
      · exact hshort h.1

/-- A write that does not fail writes its bytes. -/
theorem xseekwrite_on_of_not_fails {s : Fds} {offset : Nat} {buf : Bytes}
    (hsmall : buf.length < 2 ^ 64) (h : ¬ SeekWriteFails os s.calls buf.length) :
    xseekwriteOn os s offset buf =
      (true,
        { s with
          output := splice s.output offset buf
          outPos := offset + buf.length
          calls := s.calls + 2 }) := by
  have hcount : (UInt64.ofNat buf.length).toNat = buf.length := by
    rw [UInt64.toNat_ofNat', Nat.mod_eq_of_lt hsmall]
  obtain ⟨hseek, hwrite⟩ := not_or.1 h
  rw [not_not] at hwrite
  obtain ⟨n, hn⟩ := Option.ne_none_iff_exists'.1 hseek
  simp only [xseekwriteOn, seekOut, hn, answeringDevice, hcount, hwrite, Option.getD_some,
    List.take_length, beq_self_eq_true]

/-- The calls for the local header and the name fail, or the state behind them is known. -/
theorem write_headers_iff {c : Rewriting} (hc : c.AtHeader) {l : LocalHeader} {s : Fds} :
    writeHeadersOn os decompress c = (some l, s) ↔
      ¬ HeadersFail os c ∧ s = c.named decompress ∧
        l = c.localOut decompress (slice c.fds.input c.header.offset.toNat 30) := by
  have hlength : c.filename.length = c.header.lengthFilename.toNat := by
    rw [Rewriting.filename, length_slice_of_le hc.room]
  have hsmall : c.filename.length < 2 ^ 64 := by
    have hfits := hc.name
    omega
  have hlocal (buf : Bytes) : (c.localOut decompress buf).encode.length < 2 ^ 64 := by
    rw [LocalHeader.length_encode]
    omega
  constructor
  · intro h
    unfold writeHeadersOn at h
    split at h
    · cases h
    · rename_i hcall
      have hread := not_fails_of_xseekread_on hcall
      rw [xseekread_on_of_not_fails hread] at hcall
      cases hcall
      split at h
      · cases h
      · rename_i hcall
        have hwrite := not_fails_of_xseekwrite_on (hlocal _) hcall
        rw [xseekwrite_on_of_not_fails (hlocal _) hwrite] at hcall
        cases hcall
        split at h
        · cases h
        · rename_i hcall
          have hname := not_fails_of_xseekwrite_on hsmall hcall
          rw [xseekwrite_on_of_not_fails hsmall hname] at hcall
          cases hcall
          cases h
          rw [LocalHeader.length_encode] at hwrite
          rw [hlength] at hname
          refine ⟨?_, rfl, rfl⟩
          intro hfails
          cases hfails with
          | readLocal hfails => exact hread hfails
          | writeLocal hfails => exact hwrite hfails
          | writeName hfails => exact hname hfails
  · intro h
    obtain ⟨hfails, rfl, rfl⟩ := h
    rw [writeHeadersOn, xseekread_on_of_not_fails fun hread => hfails (.readLocal hread)]
    simp only
    rw [xseekwrite_on_of_not_fails (hlocal _) fun hwrite => hfails (.writeLocal (by
      rwa [LocalHeader.length_encode] at hwrite))]
    simp only
    rw [xseekwrite_on_of_not_fails hsmall fun hname => hfails (.writeName (by
      rwa [hlength] at hname))]
    rfl

/-- An iteration returns 0 exactly if one of its steps fails, and leaves the file where it is. -/
theorem rewrite_entry_returns0_iff {c : Rewriting} (hc : c.AtHeader) :
    (∃ output, rewriteEntryOn os Z fuel decompress c = .error (.returns0 (some output))) ↔
      EntryFails os Z fuel decompress c := by
  have hbounds : ¬ (c.centralIn.length < c.inIndex + 46 + c.header.lengthFilename.toNat ∨
      1024 ≤ c.header.lengthFilename.toNat) := by
    have hroom := hc.room
    have hfits := hc.name
    omega
  rw [rewriteEntryOn, if_neg hbounds]
  by_cases hheaders : HeadersFail os c
  · rcases hcall : writeHeadersOn os decompress c with ⟨_ | localOut, s⟩
    · exact ⟨fun _ => .headers hheaders, fun _ => ⟨s.output, rfl⟩⟩
    · exact absurd hheaders ((write_headers_iff hc).1 hcall).1
  · rw [(write_headers_iff hc).2 ⟨hheaders, rfl, rfl⟩]
    simp only
    rcases hmove : moveDataOn os Z fuel decompress (c.named decompress) c.header
      c.dataIndex.toNat with _ | ⟨_ | _, s⟩
    · refine ⟨fun h => ?_, fun h => ?_⟩
      · obtain ⟨output, h⟩ := h
        cases h
      · cases h with
        | headers h => exact absurd h hheaders
        | moveData s h => simp [hmove] at h
    · exact ⟨fun _ => .moveData s hmove, fun _ => ⟨s.output, rfl⟩⟩
    · refine ⟨fun h => ?_, fun h => ?_⟩
      · obtain ⟨output, h⟩ := h
        cases h
      · cases h with
        | headers h => exact absurd h hheaders
        | moveData s' h => simp [hmove] at h

/-- An iteration ends outside a buffer or leaves its file. -/
theorem rewrite_entry_stop {c : Rewriting} {output : Option Bytes}
    (h : rewriteEntryOn os Z fuel decompress c = .error (.returns0 output)) :
    (c.inIndex + 46 + c.header.lengthFilename.toNat ≤ c.centralIn.length ∧
      c.header.lengthFilename.toNat < 1024) ∧ ∃ out, output = some out := by
  unfold rewriteEntryOn at h
  split at h
  · cases h
  · rename_i hbounds
    refine ⟨by omega, ?_⟩
    split at h
    · cases h
      exact ⟨_, rfl⟩
    · split at h
      · cases h
      · cases h
        exact ⟨_, rfl⟩
      · cases h

/-- An iteration that ends normally moves forward in a buffer of the same length. -/
theorem rewrite_entry_advances {c c' : Rewriting}
    (h : rewriteEntryOn os Z fuel decompress c = .ok c') :
    c'.centralIn.length = c.centralIn.length ∧ c.inIndex < c'.inIndex ∧
      c.inIndex + 46 + c.header.lengthFilename.toNat ≤ c.centralIn.length ∧
      c.header.lengthFilename.toNat < 1024 := by
  unfold rewriteEntryOn at h
  split at h
  · cases h
  · rename_i hbounds
    split at h
    · cases h
    · split at h
      · cases h
      · cases h
      · cases h
        have hinside : c.inIndex + (correctCentral decompress c.outIndex c.header).encode.length ≤
            c.centralIn.length := by
          rw [CentralHeader.length_encode]
          omega
        refine ⟨?_, ?_, by omega, by omega⟩
        · show (splice c.centralIn c.inIndex
            (correctCentral decompress c.outIndex c.header).encode).length = c.centralIn.length
          rw [splice_inside hinside]
          simp only [List.length_append, List.length_take, List.length_drop,
            CentralHeader.length_encode]
          omega
        · show c.inIndex < c.inIndex + headerSpan c.header
          rw [headerSpan]
          omega

/-! ## Runs of the loop -/

/-- What some position of the run satisfies, the first one satisfies or one after it. -/
theorem reaches_iff {P : Rewriting → Prop} {c : Rewriting} :
    (∃ c', Relation.ReflTransGen (Next os Z fuel decompress) c c' ∧ P c') ↔
      P c ∨ ∃ next, Next os Z fuel decompress c next ∧
        ∃ c', Relation.ReflTransGen (Next os Z fuel decompress) next c' ∧ P c' := by
  constructor
  · intro h
    obtain ⟨c', hrun, hP⟩ := h
    rcases Relation.ReflTransGen.cases_head hrun with rfl | ⟨next, hnext, hrest⟩
    · exact .inl hP
    · exact .inr ⟨next, hnext, c', hrest, hP⟩
  · intro h
    rcases h with hP | ⟨next, hnext, c', hrest, hP⟩
    · exact ⟨c, .refl, hP⟩
    · exact ⟨c', .head hnext hrest, hP⟩

/-- There is nothing to read so close to the end of the buffer. -/
theorem not_at_of_short {c : Rewriting} (hshort : c.centralIn.length < c.inIndex + 4) :
    ¬ c.AtHeader ∧ ¬ c.AtEnd := by
  constructor
  · intro h
    have hroom := h.room
    omega
  · intro h
    have hroom := h.room
    omega

/-- The loop ends with 0 exactly if it comes to an entry that fails, and with 1 exactly if it comes
to the end of the headers. -/
theorem zipadjust_loop_ends (os : Answers) (Z : Inflater) (fuel : Nat) (decompress : Bool)
    {rounds : Nat} {c : Rewriting} (hrounds : c.centralIn.length < c.inIndex + rounds) :
    ((∃ output, zipadjustLoopOn os Z fuel decompress rounds c = .error (.returns0 output)) ↔
        ∃ c', Relation.ReflTransGen (Next os Z fuel decompress) c c' ∧
          c'.AtHeader ∧ EntryFails os Z fuel decompress c') ∧
      ∀ d, zipadjustLoopOn os Z fuel decompress rounds c = .ok d ↔
        ∃ c', Relation.ReflTransGen (Next os Z fuel decompress) c c' ∧ c'.AtEnd ∧ c' = d := by
  induction rounds generalizing c with
  | zero =>
      obtain ⟨hheader, hend⟩ := not_at_of_short (c := c) (by omega)
      refine ⟨?_, fun d => ?_⟩
      · rw [reaches_iff]
        simp [zipadjustLoopOn, hheader, Next]
      · rw [reaches_iff]
        simp [zipadjustLoopOn, hheader, hend, Next]
  | succ rounds ih =>
      unfold zipadjustLoopOn
      by_cases hroom : c.centralIn.length < c.inIndex + 4
      · obtain ⟨hheader, hend⟩ := not_at_of_short hroom
        refine ⟨?_, fun d => ?_⟩
        · rw [reaches_iff]
          simp [hroom, hheader, Next]
        · rw [reaches_iff]
          simp [hroom, hheader, hend, Next]
      by_cases hmagic : u32At c.centralIn c.inIndex = MAGIC_CENTRAL_HEADER
      · have hend : ¬ c.AtEnd := fun h => h.magic hmagic
        rw [if_neg hroom, if_neg (not_not.2 hmagic)]
        cases hentry : rewriteEntryOn os Z fuel decompress c with
        | error stop =>
            refine ⟨?_, fun d => ?_⟩
            · rw [reaches_iff]
              simp only [Except.error.injEq]
              constructor
              · intro h
                obtain ⟨output, rfl⟩ := h
                obtain ⟨⟨hbounds, hname⟩, out, rfl⟩ := rewrite_entry_stop hentry
                have hc : c.AtHeader := ⟨hmagic, hbounds, hname⟩
                exact .inl ⟨hc, (rewrite_entry_returns0_iff hc).1 ⟨out, hentry⟩⟩
              · intro h
                rcases h with ⟨hc, hfails⟩ | ⟨next, ⟨-, hnext⟩, -⟩
                · obtain ⟨out, hstop⟩ := (rewrite_entry_returns0_iff hc).2 hfails
                  rw [hentry, Except.error.injEq] at hstop
                  exact ⟨some out, hstop⟩
                · rw [hentry] at hnext
                  cases hnext
            · rw [reaches_iff]
              simp [hentry, hend, Next]
        | ok next =>
            obtain ⟨hlength, hforward, hbounds, hname⟩ := rewrite_entry_advances hentry
            have hc : c.AtHeader := ⟨hmagic, hbounds, hname⟩
            have hfails : ¬ EntryFails os Z fuel decompress c := fun h => by
              obtain ⟨out, hstop⟩ := (rewrite_entry_returns0_iff hc).2 h
              rw [hentry] at hstop
              cases hstop
            have hnext (c' : Rewriting) : Next os Z fuel decompress c c' ↔ next = c' := by
              simp [Next, hc, hentry]
            obtain ⟨hzero, hone⟩ := ih (c := next) (by omega)
            refine ⟨?_, fun d => ?_⟩
            · rw [reaches_iff]
              simpa [hnext, hfails] using hzero
            · rw [reaches_iff]
              simpa [hnext, hend] using hone d
      · have hheader : ¬ c.AtHeader := fun h => hmagic h.magic
        have hend : c.AtEnd := ⟨by omega, hmagic⟩
        rw [if_neg hroom, if_pos hmagic]
        refine ⟨?_, fun d => ?_⟩
        · rw [reaches_iff]
          simp [hheader, Next]
        · rw [reaches_iff]
          simp [hheader, hend, Next]

/-- The writes behind the loop return 0 exactly if one of them fails. -/
theorem finish_returns0_iff {footer : CentralFooter} {c : Rewriting} :
    (∃ output, finishOn os footer c = .error (.returns0 output)) ↔ FinishFails os c := by
  generalize hsize : UInt32.ofNat c.centralOut.length = size
  have hlength : (c.centralOut.take size.toNat).length = min size.toNat c.centralOut.length :=
    List.length_take
  have hsmall : (c.centralOut.take size.toNat).length < 2 ^ 64 := by
    have hbound := size.toNat_lt
    omega
  have hfooter : (closingFooter size c.outIndex footer).encode.length < 2 ^ 64 := by
    rw [CentralFooter.length_encode]
    omega
  rw [finishOn, hsize]
  by_cases hdirectory : SeekWriteFails os c.fds.calls (min size.toNat c.centralOut.length)
  · refine iff_of_true ?_ (.directory (by rwa [hsize]))
    rw [← hlength] at hdirectory
    split
    · exact ⟨_, rfl⟩
    · rename_i hcall
      exact absurd hdirectory (not_fails_of_xseekwrite_on hsmall hcall)
  rw [← hlength] at hdirectory
  rw [xseekwrite_on_of_not_fails hsmall hdirectory]
  simp only
  by_cases hend : SeekWriteFails os (c.fds.calls + 2) 22
  · refine iff_of_true ?_ (.footer hend)
    split
    · exact ⟨_, rfl⟩
    · rename_i hcall
      refine absurd ?_ (not_fails_of_xseekwrite_on hfooter hcall)
      rwa [CentralFooter.length_encode]
  · rw [xseekwrite_on_of_not_fails hfooter (by rwa [CentralFooter.length_encode])]
    refine iff_of_false (fun h => ?_) fun h => ?_
    · obtain ⟨output, h⟩ := h
      cases h
    · cases h with
      | directory h => exact hdirectory (by rwa [hlength, ← hsize])
      | footer h => exact hend h

/-- The part behind the `open` returns 0 exactly if something fails there. -/
theorem rewrite_archive_returns0_iff {footer : CentralFooter} {centralIn : Bytes} {s : Fds} :
    (∃ output, rewriteArchive os Z fuel decompress footer centralIn s =
      .error (.returns0 output)) ↔
      ¬ NothingFails os Z fuel decompress ⟨centralIn, 0, [], 0, s⟩ := by
  obtain ⟨hzero, hone⟩ := zipadjust_loop_ends os Z fuel decompress
    (c := ⟨centralIn, 0, [], 0, s⟩)
    (show centralIn.length < 0 + (centralIn.length + 1) by omega)
  have hsplit : ¬ NothingFails os Z fuel decompress ⟨centralIn, 0, [], 0, s⟩ ↔
      (∃ c', Relation.ReflTransGen (Next os Z fuel decompress) ⟨centralIn, 0, [], 0, s⟩ c' ∧
        c'.AtHeader ∧ EntryFails os Z fuel decompress c') ∨
      ∃ c', Relation.ReflTransGen (Next os Z fuel decompress) ⟨centralIn, 0, [], 0, s⟩ c' ∧
        c'.AtEnd ∧ FinishFails os c' := by
    simp only [NothingFails, not_forall, not_and_or, not_not, exists_prop, exists_or, and_or_left]
  rw [hsplit, ← hzero, rewriteArchive]
  cases hloop : zipadjustLoopOn os Z fuel decompress (centralIn.length + 1)
    ⟨centralIn, 0, [], 0, s⟩ with
  | error stop =>
      simp only [Except.error.injEq]
      refine (or_iff_left fun h => ?_).symm
      obtain ⟨c', hrun, hend, -⟩ := h
      have hok := (hone c').2 ⟨c', hrun, hend, rfl⟩
      rw [hloop] at hok
      cases hok
  | ok c =>
      simp only [finish_returns0_iff]
      obtain ⟨c', hrun, hend, rfl⟩ := (hone c).1 hloop
      constructor
      · intro hfails
        exact .inr ⟨c', hrun, hend, hfails⟩
      · intro h
        rcases h with ⟨output, h⟩ | ⟨d, hrun', hend', hfails⟩
        · cases h
        · have hok := (hone d).2 ⟨d, hrun', hend', rfl⟩
          rw [hloop, Except.ok.injEq] at hok
          rwa [hok]

/-- Nothing behind the `open` removes the file. -/
theorem rewrite_archive_keeps {footer : CentralFooter} {centralIn : Bytes} {s : Fds}
    {output : Option Bytes}
    (h : rewriteArchive os Z fuel decompress footer centralIn s = .error (.returns0 output)) :
    ∃ out, output = some out := by
  have hloop : ∀ {rounds : Nat} {c : Rewriting},
      zipadjustLoopOn os Z fuel decompress rounds c = .error (.returns0 output) →
      ∃ out, output = some out := by
    intro rounds
    induction rounds with
    | zero => exact nofun
    | succ rounds ih =>
        intro c hrun
        unfold zipadjustLoopOn at hrun
        split at hrun
        · cases hrun
        · split at hrun
          · cases hrun
          · split at hrun
            · rename_i hentry
              cases hrun
              exact (rewrite_entry_stop hentry).2
            · exact ih hrun
  unfold rewriteArchive at h
  split at h
  · rename_i hstop
    cases h
    exact hloop hstop
  · unfold finishOn at h
    simp only at h
    split at h
    · cases h
      exact ⟨_, rfl⟩
    · split at h
      · cases h
        exact ⟨_, rfl⟩
      · cases h

/-- A call that gets as far as creating its output cleans up exactly if it has a descriptor that it
takes for valid, and nothing fails behind the `open`. -/
theorem zipadjust_cleans_up_iff {before : Option Bytes} {fin : Bytes} :
    (∀ e, zipadjustOn os Z fuel decompress before fin = .ok e → e.CleansUp) ↔
      ∀ fd footer centralIn s, prepare os before fin = .created fd footer centralIn s →
        fd ≠ 0 ∧ NothingFails os Z fuel decompress ⟨centralIn, 0, [], 0, s⟩ := by
  unfold zipadjustOn
  cases hprepare : prepare os before fin with
  | returns0 atOut =>
      refine iff_of_true (fun e h => ?_) nofun
      cases h
      exact fun _ => nofun
  | outOfBounds => exact iff_of_true nofun nofun
  | created fd footer centralIn s =>
      cases fd with
      | zero =>
          refine iff_of_false (fun h => ?_) fun h => ?_
          · cases h _ rfl rfl rfl
          · exact (h _ _ _ _ rfl).1 rfl
      | succ fd =>
          have hiff : (∃ output, rewriteArchive os Z fuel decompress footer centralIn s =
              .error (.returns0 output)) ↔
              ¬ NothingFails os Z fuel decompress ⟨centralIn, 0, [], 0, s⟩ :=
            rewrite_archive_returns0_iff
          simp only
          constructor
          · intro h fd' footer' centralIn' s' heq
            cases heq
            refine ⟨Nat.succ_ne_zero fd, ?_⟩
            by_contra hfails
            obtain ⟨output, hstop⟩ := hiff.2 hfails
            obtain ⟨out, rfl⟩ := rewrite_archive_keeps hstop
            rw [hstop] at h
            cases h _ rfl rfl rfl
          · intro h e he
            have hfine := (h _ _ _ _ rfl).2
            split at he
            · rename_i output hstop
              exact absurd hfine (hiff.1 ⟨output, hstop⟩)
            · cases he
            · cases he
            · cases he
              exact nofun

end Failures

end NamelessCenter.Zip
