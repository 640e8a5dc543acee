import NamelessCenter.Vcdiff.Format

/-!
# The decoder

`decodeInput` is `xd3_decode_input`, a state machine that is given the delta in pieces. It returns
to its caller when it needs more input or a block of the source, and when it has decoded a window.
The cases of its `switch` fall through: each is a definition that ends with the next one, so they
are read from the last to the first. A case leaves with a return code by throwing it. An access
outside of the memory it is meant for is the return code `overrun`, as C says nothing about what
follows. Allocations succeed.
-/

namespace NamelessCenter.Vcdiff

open Bytes

/-! ## Data -/

/-- The error codes of `xdelta3.h`, and `ENOMEM`. -/
inductive ErrorCode where
  | invalidInput
  | internal
  | unimplemented
  | noMemory
  deriving DecidableEq, Repr

/-- The return codes of `xd3_decode_input`; an error has the text of `stream->msg`. -/
inductive Ret where
  | input
  | output
  | getsrcblk
  | gotheader
  | winstart
  | winfinish
  | error (code : ErrorCode) (msg : String)
  | overrun
  deriving DecidableEq, Repr

/-- The ends of a call that has not stopped on the way. -/
inductive Done where
  | output
  | gotheader
  | winstart
  | winfinish
  deriving DecidableEq, Repr

/-- The result that a notice is returned as. -/
def Done.ret : Done → Ret
  | .output => .output
  | .gotheader => .gotheader
  | .winstart => .winstart
  | .winfinish => .winfinish

/-- `xd3_decode_state`. -/
inductive DecState where
  | vchead | hdrind | secondid | tablen | near | same | tabdat | applen | appdat
  | winind | cpylen | cpyoff | enclen | tgtlen | delind | datalen | instlen | addrlen | cksum
  | data | inst | addr | emit | finish
  deriving DecidableEq, Repr

/-- The unit of the allocations. -/
def XD3_ALLOCSIZE : Nat := 2 ^ 14

/-- `SRCORTGT`: exactly one of the two bits is set. -/
def srcOrTgt (x : Nat) : Prop := x &&& 3 = VCD_SOURCE ∨ x &&& 3 = VCD_TARGET

instance (x : Nat) : Decidable (srcOrTgt x) := inferInstanceAs (Decidable (_ ∨ _))

/-- `xd3_source`. -/
structure Source where
  shiftby : Nat
  curblkno : Nat
  curblk : Bytes
  onblk : Nat := 0
  getblkno : Nat := 0
  cpyoffBlocks : Nat := 0
  cpyoffBlkoff : Nat := 0
  deriving DecidableEq

/-- `blksize`, which `xd3_set_source` makes a power of two. -/
def Source.blksize (src : Source) : Nat := 2 ^ src.shiftby

/-- `xd3_blksize_div`. -/
def Source.blksizeDiv (src : Source) (offset : Nat) : Nat × Nat :=
  (offset >>> src.shiftby, offset % src.blksize)

/-- `xd3_blksize_add`. -/
def Source.blksizeAdd (src : Source) (blkno blkoff add : Nat) : Nat × Nat :=
  let blkoff := (blkoff + add) % 2 ^ 32
  let blkdiff := blkoff >>> src.shiftby
  if blkdiff ≠ 0 then (blkno + blkdiff, blkoff % src.blksize) else (blkno, blkoff)

/-- `xd3_desect`: while it is read, `taken` are its bytes so far; `buf` are those not yet used. -/
structure Desect where
  size : Nat := 0
  taken : Bytes := []
  buf : Bytes := []
  deriving DecidableEq

/-- The fields of `xd3_stream` that the decoder uses. `nextOut` is the output at `next_out`. The
buffers for it are numbered as they are allocated, with none for a null pointer: `outBuffer` is the
one that `next_out` points to, and `decBuffer` the only one that has not been freed. -/
structure Stream where
  availIn : Bytes := []
  nextOut : Bytes := []
  spaceOut : Nat := 0
  outBuffer : Option Nat := none
  decBuffer : Option Nat := none
  decLastwin : Option Nat := none
  decLastspace : Nat := 0
  src : Option Source := none
  codeTable : List Dinst := []
  acache : AddrCache := .init 0 0
  decState : DecState := .vchead
  decHdrInd : Nat := 0
  decWinInd : Nat := 0
  decDelInd : Nat := 0
  decMagic : Bytes := []
  decSecondid : Nat := 0
  decCodetblsz : Nat := 0
  decCodetbl : Bytes := []
  decAppheadsz : Nat := 0
  decAppheader : Bytes := []
  decCksum : Bytes := []
  decAdler32 : Nat := 0
  decEnclen : Nat := 0
  decTgtlen : Nat := 0
  decCpylen : Nat := 0
  decCpyoff : Nat := 0
  decWinstart : Nat := 0
  decLaststart : Nat := 0
  decWindowCount : Nat := 0
  currentWindow : Nat := 0
  decPosition : Nat := 0
  decMaxpos : Nat := 0
  decWinbytes : Nat := 0
  dec32part : Nat := 0
  dec64part : Nat := 0
  sNear : Nat := 0
  sSame : Nat := 0
  dataSect : Desect := {}
  instSect : Desect := {}
  addrSect : Desect := {}
  decCurrent1 : Hinst := {}
  decCurrent2 : Hinst := {}
  deriving DecidableEq

/-- A function of the decoder: it goes on with a result or leaves with a return code. -/
abbrev Decode := EStateM Ret Stream

/-- An error return. -/
def fail {α : Type} (code : ErrorCode) (msg : String) : Decode α := throw (.error code msg)

/-- An error return if the condition holds. -/
def failIf (cond : Prop) [Decidable cond] (code : ErrorCode) (msg : String) : Decode Unit :=
  if cond then fail code msg else pure ()

/-- An access outside of its memory if the condition holds. -/
def overrunIf (cond : Prop) [Decidable cond] : Decode Unit :=
  if cond then throw .overrun else pure ()

/-- A step that is only taken if the condition holds. -/
def onlyIf (cond : Prop) [Decidable cond] (action : Decode Unit) : Decode Unit :=
  if cond then action else pure ()

/-- Without the condition, there is no failure. -/
theorem fail_if_of_not {cond : Prop} [Decidable cond] (h : ¬ cond) (code : ErrorCode)
    (msg : String) : failIf cond code msg = pure () := if_neg h

/-- Without the condition, there is no overrun. -/
theorem overrun_if_of_not {cond : Prop} [Decidable cond] (h : ¬ cond) :
    overrunIf cond = pure () := if_neg h

/-- With the condition, the action is done. -/
theorem only_if_of {cond : Prop} [Decidable cond] (h : cond) (action : Decode Unit) :
    onlyIf cond action = action := if_pos h

/-- Without it, it is not. -/
theorem only_if_of_not {cond : Prop} [Decidable cond] (h : ¬ cond) (action : Decode Unit) :
    onlyIf cond action = pure () := if_neg h

/-! ## Reading the input -/

/-- `xd3_decode_byte`. -/
def decodeByte : Decode Nat := fun s =>
  match s.availIn with
  | [] => .error .input s
  | b :: rest => .ok b.toNat { s with availIn := rest }

/-- `xd3_decode_bytes`, for the buffer `buf` of `size` bytes. Its loop goes round a second time only
to see that the input is used up. -/
def decodeBytes (buf : Stream → Bytes) (store : Bytes → Stream → Stream) (size : Nat) :
    Decode Unit := fun s =>
  let take := min (size - (buf s).length) s.availIn.length
  let s' := { store (buf s ++ s.availIn.take take) s with availIn := s.availIn.drop take }
  if (buf s).length + take < size then .error .input s' else .ok () s'

/-- `xd3_decode_size`. -/
def decodeSize : Decode Nat := fun s =>
  match decodeInteger 32 s.dec32part s.availIn with
  | .done val rest => .ok val { s with availIn := rest, dec32part := 0 }
  | .more part => .error .input { s with availIn := [], dec32part := part }
  | .invalid msg part rest =>
      .error (.error .invalidInput msg) { s with availIn := rest, dec32part := part }

/-- `xd3_decode_offset`. -/
def decodeOffset : Decode Nat := fun s =>
  match decodeInteger 64 s.dec64part s.availIn with
  | .done val rest => .ok val { s with availIn := rest, dec64part := 0 }
  | .more part => .error .input { s with availIn := [], dec64part := part }
  | .invalid msg part rest =>
      .error (.error .invalidInput msg) { s with availIn := rest, dec64part := part }

/-- `BYTE_CASE`, `SIZE_CASE` and `OFFSET_CASE`, for the function that decodes the field. -/
def fieldCase (decode : Decode Nat) (expr : Prop) [Decidable expr] (store : Nat → Stream → Stream)
    (nstate : DecState) : Decode Unit := do
  onlyIf expr do
    let x ← decode
    modify (store x)
  modify fun s => { s with decState := nstate }

/-! ## The sections of a window -/

/-- The three sections. -/
inductive Section where
  | data
  | inst
  | addr

/-- The section of the stream. -/
def Stream.sect (s : Stream) : Section → Desect
  | .data => s.dataSect
  | .inst => s.instSect
  | .addr => s.addrSect

/-- Replace a section of the stream. -/
def Stream.setSect (s : Stream) (sect : Desect) : Section → Stream
  | .data => { s with dataSect := sect }
  | .inst => { s with instSect := sect }
  | .addr => { s with addrSect := sect }

/-- `xd3_round_blksize`. -/
def roundBlksize (sz blksz : Nat) : Nat :=
  if sz % blksz ≠ 0 then (sz + (blksz - sz % blksz)) % 2 ^ 32 else sz

/-- An allocation has the size that is asked for if it does not wrap around. -/
theorem le_round_blksize {sz : Nat} (h : sz + XD3_ALLOCSIZE ≤ 2 ^ 32) :
    sz ≤ roundBlksize sz XD3_ALLOCSIZE := by
  unfold XD3_ALLOCSIZE at h ⊢
  unfold roundBlksize
  split
  · rw [Nat.mod_eq_of_lt]
    · omega
    · omega
  · exact le_rfl

/-- The buffer was freed. -/
def Stream.Freed (s : Stream) (buffer : Option Nat) : Prop :=
  buffer ≠ none ∧ buffer ≠ s.decBuffer

instance (s : Stream) (buffer : Option Nat) : Decidable (s.Freed buffer) :=
  inferInstanceAs (Decidable (_ ∧ _))

/-- `xd3_decode_init_window`. -/
def decodeInitWindow : Decode Unit :=
  modify fun s => { s with
    decCpylen := 0
    decCpyoff := 0
    decCksum := []
    acache := .init s.sNear s.sSame }

/-- The buffers of a `VCD_TARGET` window. Whether `dec_lastwin` and `next_out` are equal is open if
one of them points to a freed buffer, as another one may have its address by now. -/
def setupTarget : Decode Unit := do
  let s ← get
  failIf (s.decCpyoff < s.decLaststart) .invalidInput "unsupported VCD_TARGET offset"
  overrunIf (s.Freed s.decLastwin ∨ s.Freed s.outBuffer)
  onlyIf (s.decLastwin = s.outBuffer) do
    modify fun s => { s with outBuffer := none, spaceOut := 0 }

/-- The next buffer is allocated for the output, and the last one freed. -/
def Stream.allocated (s : Stream) : Stream :=
  let buffer := some (s.decBuffer.elim 0 (· + 1))
  { s with
    spaceOut := roundBlksize s.decTgtlen XD3_ALLOCSIZE
    decBuffer := buffer
    outBuffer := buffer }

/-- `xd3_decode_setup_buffers`. -/
def decodeSetupBuffers : Decode Unit := do
  let s ← get
  onlyIf (s.decWinInd &&& VCD_TARGET ≠ 0) setupTarget
  let s ← get
  onlyIf (s.spaceOut < s.decTgtlen) (modify Stream.allocated)

/-- `xd3_decode_section` with `xd3_decode_allocate`. Without `copy` the section is taken to lie in
the input completely. A buffer that there is already is used if it has room for the section. -/
def decodeSection (which : Section) (nstate : DecState) (copy : Bool) : Decode Unit := fun s =>
  let sect := s.sect which
  let take := min (sect.size - sect.taken.length) s.availIn.length
  if sect.taken.length < sect.size ∧ s.availIn = [] then .error .input s
  else if sect.taken.length < sect.size ∧ copy = false ∧ sect.taken = [] ∧
      s.availIn.length < sect.size then .error .overrun s
  -- The size of a new buffer may wrap around, and it is too small only then.
  else if sect.taken.length < sect.size ∧ (copy = true ∨ sect.taken ≠ []) ∧
      roundBlksize sect.size XD3_ALLOCSIZE < sect.taken.length + take then .error .overrun s
  else
    let taken := sect.taken ++ s.availIn.take take
    let s := { s with
      availIn := s.availIn.drop take
      decWinbytes := (s.decWinbytes + take) % 2 ^ 32 }
    if taken.length < sect.size then .error .input (s.setSect { sect with taken } which)
    else
      .ok () ({ s with decState := nstate }.setSect { sect with taken := [], buf := taken } which)

/-- `xd3_decode_finish_window`. -/
def decodeFinishWindow : Decode Done := do
  modify fun s => { s with
    decWinbytes := 0
    decState := .finish
    dataSect := { s.dataSect with taken := [] }
    instSect := { s.instSect with taken := [] }
    addrSect := { s.addrSect with taken := [] } }
  pure .output

/-- The choice of `xd3_decode_sections` whether to copy: the rest of the sections is not in the
input. -/
def Stream.copies (s : Stream) : Bool :=
  let need := (s.instSect.size + s.addrSect.size + s.dataSect.size) % 2 ^ 32
  let more := usizeSub need s.decWinbytes
  let take := min more s.availIn.length
  take ≠ more

/-- The `switch` of `xd3_decode_sections`. -/
def sectionCase (copy : Bool) : DecState → Decode Unit
  | .data => do
      decodeSection .data .inst copy
      decodeSection .inst .addr copy
      decodeSection .addr .emit copy
  | .inst => do
      decodeSection .inst .addr copy
      decodeSection .addr .emit copy
  | .addr => decodeSection .addr .emit copy
  | _ => fail .invalidInput "internal error"

/-- `xd3_decode_sections`. -/
def decodeSections : Decode Unit := do
  let s ← get
  sectionCase s.copies s.decState
  decodeSetupBuffers

/-! ## The instructions of a window -/

/-- `xd3_read_size` in the instruction section. -/
def readInstSize : Decode Nat := fun s =>
  match readSize s.instSect.buf with
  | .ok (size, rest) => .ok size { s with instSect := { s.instSect with buf := rest } }
  | .error msg => .error (.error .invalidInput msg) s

/-- `xd3_decode_address` in the address section. -/
def decodeAddr (mode : Nat) : Decode Nat := fun s =>
  match decodeAddress s.acache s.decPosition mode s.addrSect.buf with
  | .ok (addr, rest, acache) =>
      .ok addr { s with addrSect := { s.addrSect with buf := rest }, acache }
  | .error msg => .error (.error .invalidInput msg) s

/-- The size of a half-instruction: that of the code table unless it is zero. -/
def halfSize (size : Nat) : Decode Nat := if size = 0 then readInstSize else pure size

/-- The address of a half-instruction, with its checks. -/
def halfAddr (inst : Hinst) (size : Nat) : Decode Nat :=
  match inst.type with
  | .cpy mode => do
      let addr ← decodeAddr mode
      let s ← get
      failIf (addr ≥ s.decPosition) .invalidInput "address too large"
      failIf (addr < s.decCpylen ∧ (addr + size) % 2 ^ 32 > s.decCpylen)
        .invalidInput "size too large"
      pure addr
  | _ => pure inst.addr

/-- `xd3_decode_parse_halfinst`. -/
def decodeParseHalfinst (inst : Hinst) : Decode Hinst := do
  let size ← halfSize inst.size
  let addr ← halfAddr inst size
  let s ← get
  failIf ((s.decPosition + size) % 2 ^ 32 > s.decMaxpos) .invalidInput "size too large"
  modify fun s => { s with decPosition := (s.decPosition + size) % 2 ^ 32 }
  pure { inst with size, addr }

/-- `*stream->inst_sect.buf++` as an index into the code table. -/
def readCode : Decode Nat := fun s =>
  match s.instSect.buf with
  | [] => .error (.error .invalidInput "instruction underflow") s
  | code :: rest => .ok code.toNat { s with instSect := { s.instSect with buf := rest } }

/-- `stream->dec_current1` and `stream->dec_current2`. -/
inductive Slot where
  | first
  | second

/-- The half-instruction in a slot. -/
def Stream.current (s : Stream) : Slot → Hinst
  | .first => s.decCurrent1
  | .second => s.decCurrent2

/-- Replace the half-instruction in a slot. -/
def Stream.setCurrent (s : Stream) (inst : Hinst) : Slot → Stream
  | .first => { s with decCurrent1 := inst }
  | .second => { s with decCurrent2 := inst }

/-- One of the two parses of `xd3_decode_instruction`. -/
def parseSlot (slot : Slot) : Decode Unit := do
  let s ← get
  onlyIf ((s.current slot).type ≠ .noop) do
    let inst ← decodeParseHalfinst (s.current slot)
    modify fun s => s.setCurrent inst slot

/-- `xd3_decode_instruction`. -/
def decodeInstruction : Decode Unit := do
  let code ← readCode
  modify fun s =>
    let inst := s.codeTable.getD code {}
    { s with
      decCurrent1 := { type := inst.type1, size := inst.size1 }
      decCurrent2 := { type := inst.type2, size := inst.size2 } }
  parseSlot .first
  parseSlot .second

/-! ## The output of a window -/

/-- The buffer has room for `n` more bytes at `stream->next_out + stream->avail_out`. -/
def room (n : Nat) : Decode Unit := do
  let s ← get
  overrunIf (s.spaceOut < s.nextOut.length + n ∨ n ≠ 0 ∧ s.Freed s.outBuffer)

/-- Bytes stored there. -/
def putOut (bs : Bytes) : Decode Unit := modify fun s => { s with nextOut := s.nextOut ++ bs }

/-- The loop of a copy from the target window, which may read what it has just written. -/
def putOverlap (src n : Nat) : Decode Unit := fun s =>
  match Copies.extend s.nextOut src n with
  | none => .error .overrun s
  | some nextOut => .ok () { s with nextOut }

/-- `xd3_getblk` without a callback. -/
def getblk (src : Source) (blkno : Nat) : Decode Unit :=
  if blkno ≠ src.curblkno then do
    modify fun s => { s with src := some { src with getblkno := blkno } }
    throw .getsrcblk
  else pure ()

/-- What a block supplies of a copy from its byte `blkoff` on, and the instruction that is left. -/
def Source.portion (src : Source) (blkoff : Nat) (inst : Hinst) : Nat × Hinst :=
  if (blkoff + inst.size) % 2 ^ 32 ≤ src.blksize then
    (inst.size, { inst with type := .noop, size := 0 })
  else
    let take := src.blksize - blkoff
    (take, { inst with size := inst.size - take, addr := (inst.addr + take) % 2 ^ 32 })

/-- Bytes copied from the current block to the output. -/
def putBlock (src : Source) (blkoff take : Nat) : Decode Unit := do
  overrunIf (src.curblk.length < blkoff + take)
  room take
  putOut (slice src.curblk blkoff take)

/-- The part of a source copy that the current block supplies. -/
def outputSource (src : Source) (inst : Hinst) : Decode Hinst := do
  let (block, blkoff) := src.blksizeAdd src.cpyoffBlocks src.cpyoffBlkoff inst.addr
  getblk src block
  failIf (src.onblk ≠ src.blksize ∧ (blkoff + inst.size) % 2 ^ 32 > src.onblk)
    .invalidInput "source file too short"
  let (take, inst) := src.portion blkoff inst
  putBlock src blkoff take
  pure inst

/-- `xd3_decode_output_halfinst`, for the instruction `inst` in a slot: the one that is left. -/
def decodeOutputHalfinst (slot : Slot) (inst : Hinst) : Decode Hinst := do
  let s ← get
  match inst.type with
  | .noop => pure inst
  | .run =>
      match s.dataSect.buf with
      | [] => fail .invalidInput "data underflow"
      | b :: rest => do
          room inst.size
          putOut (List.replicate inst.size b)
          modify fun s => { s with dataSect := { s.dataSect with buf := rest } }
          pure { inst with type := .noop }
  | .add => do
      failIf (s.dataSect.buf.length < inst.size) .invalidInput "data underflow"
      room inst.size
      putOut (s.dataSect.buf.take inst.size)
      modify fun s => { s with
        dataSect := { s.dataSect with buf := s.dataSect.buf.drop inst.size } }
      pure { inst with type := .noop }
  | .cpy _ =>
      if inst.addr < s.decCpylen then
        if s.decWinInd &&& VCD_TARGET ≠ 0 then do
          modify fun s => s.setCurrent { inst with type := .noop, size := 0 } slot
          fail .unimplemented "VCD_TARGET not implemented"
        else
          match s.src with
          | none => throw .overrun
          | some src => outputSource src inst
      else do
        room inst.size
        putOverlap (inst.addr - s.decCpylen) inst.size
        pure { inst with type := .noop, size := 0 }

/-- The loop that outputs one of the two instructions, for at most the given number of rounds. -/
def outputSlot (slot : Slot) : Nat → Decode Unit
  | 0 => pure ()
  | rounds + 1 => do
      let s ← get
      onlyIf ((s.current slot).type ≠ .noop) do
        let inst ← decodeOutputHalfinst slot (s.current slot)
        modify fun s => s.setCurrent inst slot
        outputSlot slot rounds

/-- The output of an instruction. Every round but the last one makes it smaller. -/
def outputAll (slot : Slot) : Decode Unit := do
  let s ← get
  outputSlot slot ((s.current slot).size + 1)

/-- The loop of `xd3_decode_emit`, for at most the given number of rounds. -/
def emitLoopOut : Nat → Decode Unit
  | 0 => pure ()
  | rounds + 1 => do
      let s ← get
      onlyIf (s.instSect.buf ≠ [] ∨ s.decCurrent1.type ≠ .noop ∨ s.decCurrent2.type ≠ .noop) do
        onlyIf (s.decCurrent1.type = .noop ∧ s.decCurrent2.type = .noop) decodeInstruction
        outputAll .first
        outputAll .second
        emitLoopOut rounds

/-- `xd3_decode_emit`. Every round of its loop but the first uses a byte of the instructions. -/
def decodeEmit : Decode Done := do
  let s ← get
  emitLoopOut (s.instSect.buf.length + 1)
  let s ← get
  failIf (s.nextOut.length ≠ s.decTgtlen) .invalidInput "wrong window length"
  failIf (s.dataSect.buf ≠ []) .invalidInput "extra data section"
  failIf (s.addrSect.buf ≠ []) .invalidInput "extra address section"
  failIf (s.decWinInd &&& VCD_ADLER32 ≠ 0 ∧ adler32 32 1 s.nextOut ≠ s.decAdler32)
    .invalidInput "target window checksum mismatch"
  decodeFinishWindow

/-! ## The state machine -/

/-- The buffers behind a `VCD_TARGET` window. -/
def Stream.swapped (s : Stream) : Stream :=
  if s.decLastwin = none then { s with decLastwin := s.outBuffer, decLastspace := s.spaceOut }
  else
    { s with
      decLastwin := s.outBuffer
      outBuffer := s.decLastwin
      decLastspace := s.spaceOut
      spaceOut := s.decLastspace }

/-- `case DEC_FINISH`. -/
def caseFinish : Decode Done := do
  let s ← get
  onlyIf (s.decWinInd &&& VCD_TARGET ≠ 0) (modify Stream.swapped)
  modify fun s => { s with
    decLaststart := s.decWinstart
    decWindowCount := s.decWindowCount + 1
    decState := .winind }
  pure .winfinish

/-- `case DEC_EMIT`. -/
def caseEmit : Decode Done := do
  let s ← get
  if s.decWinInd &&& VCD_SOURCE ≠ 0 then
    match s.src with
    | none => fail .invalidInput "source input required"
    | some src => do
        let (cpyoffBlocks, cpyoffBlkoff) := src.blksizeDiv s.decCpyoff
        modify fun s => { s with src := some { src with cpyoffBlocks, cpyoffBlkoff } }
        decodeEmit
  else decodeEmit

/-- `case DEC_DATA`, `case DEC_INST` and `case DEC_ADDR`. -/
def caseSections : Decode Done := do
  decodeSections
  caseEmit

/-- The length of a window's encoding, from the lengths in it. -/
def Stream.enclenCheck (s : Stream) : Nat :=
  (1 + (sizeofSize s.decTgtlen + sizeofSize s.dataSect.size + sizeofSize s.instSect.size +
    sizeofSize s.addrSect.size) + s.dataSect.size + s.instSect.size + s.addrSect.size +
    (if s.decWinInd &&& VCD_ADLER32 ≠ 0 then 4 else 0)) % 2 ^ 32

/-- The checksum of the target window. -/
def readCksum : Decode Unit := do
  decodeBytes (·.decCksum) (fun cksum s => { s with decCksum := cksum }) 4
  modify fun s => { s with
    decAdler32 := s.decCksum.foldl (fun a32 b => (a32 <<< 8 ||| b.toNat) % 2 ^ 32) s.decAdler32 }

/-- The end of `case DEC_CKSUM`. -/
def checkEnclen : Decode Done := do
  modify fun s => { s with decState := .data }
  let s ← get
  failIf (s.decEnclen ≠ s.enclenCheck) .invalidInput "incorrect encoding length (redundent)"
  pure (if s.currentWindow = 0 then .gotheader else .winstart)

/-- `case DEC_CKSUM`. -/
def caseCksum : Decode Done := do
  let s ← get
  onlyIf (s.decWinInd &&& VCD_ADLER32 ≠ 0) readCksum
  checkEnclen

/-- `case DEC_ADDRLEN`. -/
def caseAddrlen : Decode Done := do
  fieldCase decodeSize True (fun x s => { s with addrSect := { s.addrSect with size := x } }) .cksum
  caseCksum

/-- `case DEC_INSTLEN`. -/
def caseInstlen : Decode Done := do
  fieldCase decodeSize True (fun x s => { s with instSect := { s.instSect with size := x } })
    .addrlen
  caseAddrlen

/-- `case DEC_DATALEN`. -/
def caseDatalen : Decode Done := do
  fieldCase decodeSize True (fun x s => { s with dataSect := { s.dataSect with size := x } })
    .instlen
  caseInstlen

/-- `case DEC_DELIND`. There is no secondary compressor. -/
def caseDelind : Decode Done := do
  fieldCase decodeByte True (fun x s => { s with decDelInd := x }) .datalen
  let s ← get
  failIf (s.decDelInd &&& VCD_INVDEL ≠ 0) .invalidInput "unrecognized delta indicator bits set"
  failIf (s.decDelInd ≠ 0) .invalidInput "invalid delta indicator bits set"
  caseDatalen

/-- `case DEC_TGTLEN`. -/
def caseTgtlen : Decode Done := do
  fieldCase decodeSize True (fun x s => { s with decTgtlen := x }) .delind
  let s ← get
  failIf (2 ^ 32 - 1 - s.decCpylen < s.decTgtlen) .invalidInput
    "decoder target window overflows a usize_t"
  failIf (s.decTgtlen > XD3_HARDMAXWINSIZE) .invalidInput "hard window size exceeded"
  modify fun s => { s with decMaxpos := s.decCpylen + s.decTgtlen }
  caseDelind

/-- `case DEC_ENCLEN`. -/
def caseEnclen : Decode Done := do
  fieldCase decodeSize True (fun x s => { s with decEnclen := x }) .tgtlen
  caseTgtlen

/-- `case DEC_CPYOFF`. -/
def caseCpyoff : Decode Done := do
  let s ← get
  fieldCase decodeOffset (srcOrTgt s.decWinInd) (fun x s => { s with decCpyoff := x }) .enclen
  let s ← get
  failIf (2 ^ 64 - 1 - s.decCpyoff < s.decCpylen) .invalidInput
    "decoder copy window overflows a file offset"
  failIf (s.decWinInd &&& VCD_TARGET ≠ 0 ∧ s.decCpyoff + s.decCpylen > s.decWinstart) .invalidInput
    "VCD_TARGET window out of bounds"
  caseEnclen

/-- `case DEC_CPYLEN`. -/
def caseCpylen : Decode Done := do
  let s ← get
  fieldCase decodeSize (srcOrTgt s.decWinInd) (fun x s => { s with decCpylen := x }) .cpyoff
  modify fun s => { s with decPosition := s.decCpylen }
  caseCpyoff

/-- `case DEC_WININD`. -/
def caseWinind : Decode Done := do
  let x ← decodeByte
  modify fun s => { s with decWinInd := x, currentWindow := s.decWindowCount }
  let s ← get
  failIf (2 ^ 64 - 1 - s.decWinstart < s.decTgtlen) .invalidInput "decoder file offset overflow"
  modify fun s => { s with decWinstart := s.decWinstart + s.decTgtlen }
  failIf (s.decWinInd &&& VCD_INVWIN ≠ 0) .invalidInput "unrecognized window indicator bits set"
  decodeInitWindow
  modify fun s => { s with decState := .cpylen }
  caseCpylen

/-- The buffer of the application header gets one more byte; its size may wrap around to zero. -/
def decodeAppheader (size : Nat) : Decode Unit := do
  overrunIf (size + 1 = 2 ^ 32)
  decodeBytes (·.decAppheader) (fun appheader s => { s with decAppheader := appheader }) size

/-- `case DEC_APPDAT`. -/
def caseAppdat : Decode Done := do
  let s ← get
  onlyIf (s.decHdrInd &&& VCD_APPHEADER ≠ 0) (decodeAppheader s.decAppheadsz)
  modify fun s => { s with decState := .winind }
  caseWinind

/-- `case DEC_APPLEN`. -/
def caseApplen : Decode Done := do
  let s ← get
  fieldCase decodeSize (s.decHdrInd &&& VCD_APPHEADER ≠ 0) (fun x s => { s with decAppheadsz := x })
    .appdat
  caseAppdat

section CodeTable

-- `xd3_apply_table_encoding`: the code table that the bytes in the header describe, for the numbers
-- of near and of same modes.
variable (applyTableEncoding : Bytes → Nat → Nat → Except (ErrorCode × String) (List Dinst))

/-- The call of `xd3_apply_table_encoding`. -/
def applyTable : Decode Unit := fun s =>
  match applyTableEncoding s.decCodetbl s.sNear s.sSame with
  | .ok codeTable => .ok () { s with codeTable }
  | .error (code, msg) => .error (.error code msg) s

/-- The end of `case DEC_TABDAT`. -/
def initCache : Decode Done := do
  modify fun s => { s with acache := .init s.sNear s.sSame, decState := .applen }
  caseApplen

/-- `case DEC_TABDAT`. -/
def caseTabdat : Decode Done := do
  let s ← get
  if s.decHdrInd &&& VCD_CODETABLE ≠ 0 then do
    decodeBytes (·.decCodetbl) (fun codetbl s => { s with decCodetbl := codetbl }) s.decCodetblsz
    applyTable applyTableEncoding
    initCache
  else do
    modify fun s => { s with
      sNear := CodeTableDesc.rfc3284.nearModes
      sSame := CodeTableDesc.rfc3284.sameModes
      codeTable := rfc3284CodeTable }
    initCache

/-- `case DEC_SAME`. -/
def caseSame : Decode Done := do
  let s ← get
  fieldCase decodeByte (s.decHdrInd &&& VCD_CODETABLE ≠ 0) (fun x s => { s with sSame := x })
    .tabdat
  caseTabdat applyTableEncoding

/-- `case DEC_NEAR`. -/
def caseNear : Decode Done := do
  let s ← get
  fieldCase decodeByte (s.decHdrInd &&& VCD_CODETABLE ≠ 0) (fun x s => { s with sNear := x }) .same
  caseSame applyTableEncoding

/-- `case DEC_TABLEN`. -/
def caseTablen : Decode Done := do
  let s ← get
  fieldCase decodeSize (s.decHdrInd &&& VCD_CODETABLE ≠ 0) (fun x s => { s with decCodetblsz := x })
    .near
  let s ← get
  onlyIf (s.decHdrInd &&& VCD_CODETABLE ≠ 0) do
    failIf (s.decCodetblsz ≤ 2) .noMemory "invalid code table size"
    modify fun s => { s with decCodetblsz := s.decCodetblsz - 2 }
  caseNear applyTableEncoding

/-- The secondary compressors, none of which is compiled in. -/
def secondaryUnavailable (id : Nat) : Decode Unit :=
  if id = 16 then fail .internal "unavailable secondary compressor: FGK Adaptive Huffman"
  else if id = 1 then fail .internal "unavailable secondary compressor: DJW Static Huffman"
  else if id = 2 then fail .internal "unavailable secondary compressor: LZMA"
  else fail .invalidInput "unknown secondary compressor ID"

/-- `case DEC_SECONDID`. -/
def caseSecondid : Decode Done := do
  let s ← get
  onlyIf (s.decHdrInd &&& VCD_SECONDARY ≠ 0) do
    fieldCase decodeByte True (fun x s => { s with decSecondid := x }) .tablen
    let s ← get
    secondaryUnavailable s.decSecondid
  caseTablen applyTableEncoding

/-- `case DEC_HDRIND`. -/
def caseHdrind : Decode Done := do
  let x ← decodeByte
  modify fun s => { s with decHdrInd := x }
  failIf (x &&& VCD_INVHDR ≠ 0) .invalidInput "unrecognized header indicator bits set"
  modify fun s => { s with decState := .secondid }
  caseSecondid applyTableEncoding

/-- `case DEC_VCHEAD`. -/
def caseVchead : Decode Done := do
  decodeBytes (·.decMagic) (fun magic s => { s with decMagic := magic }) 4
  let s ← get
  failIf (s.decMagic.take 3 ≠ VCDIFF_MAGIC) .invalidInput "not a VCDIFF input"
  failIf (s.decMagic.drop 3 ≠ [0]) .invalidInput "VCDIFF input version > 0 is not supported"
  modify fun s => { s with decState := .hdrind }
  caseHdrind applyTableEncoding

/-- The `switch` of `xd3_decode_input`. -/
def decodeCase : DecState → Decode Done
  | .vchead => caseVchead applyTableEncoding
  | .hdrind => caseHdrind applyTableEncoding
  | .secondid => caseSecondid applyTableEncoding
  | .tablen => caseTablen applyTableEncoding
  | .near => caseNear applyTableEncoding
  | .same => caseSame applyTableEncoding
  | .tabdat => caseTabdat applyTableEncoding
  | .applen => caseApplen
  | .appdat => caseAppdat
  | .winind => caseWinind
  | .cpylen => caseCpylen
  | .cpyoff => caseCpyoff
  | .enclen => caseEnclen
  | .tgtlen => caseTgtlen
  | .delind => caseDelind
  | .datalen => caseDatalen
  | .instlen => caseInstlen
  | .addrlen => caseAddrlen
  | .cksum => caseCksum
  | .data | .inst | .addr => caseSections
  | .emit => caseEmit
  | .finish => caseFinish

/-- The return code of a call, and the stream. -/
def returned : EStateM.Result Ret Stream Done → Ret × Stream
  | .ok done s => (done.ret, s)
  | .error ret s => (ret, s)

/-- `xd3_decode_input`. -/
def decodeInput (s : Stream) : Ret × Stream :=
  returned (decodeCase applyTableEncoding s.decState s)

end CodeTable

end NamelessCenter.Vcdiff
