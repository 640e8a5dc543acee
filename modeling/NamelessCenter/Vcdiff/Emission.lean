import NamelessCenter.Lib.Resumable
import NamelessCenter.Vcdiff.Decoder

/-!
# The output of a window

When the sections of a window have been read, the decoder parses an instruction and carries it out
before it parses the next one, and it may stop in the middle of a copy and ask for a block of the
source. What it is at is its `Progress`. As long as the instructions that are left build the rest of
the target, every step of the decoder keeps it so (`emit_loop_out_emits`).
-/

namespace NamelessCenter.Vcdiff

open Bytes Copies Resumable Format

/-! ## Checks that are passed -/

section Checks

variable {α : Type} {cond : Prop} [Decidable cond] {s : Stream}

/-- A failure ends the computation. -/
theorem fail_if_bind_of {code : ErrorCode} {msg : String} {k : Decode α} (h : cond) :
    (failIf cond code msg >>= fun _ => k) s = .error (.error code msg) s := by
  unfold failIf
  rw [if_pos h]
  rfl

/-- Without it, the computation goes on. -/
theorem fail_if_bind {code : ErrorCode} {msg : String} {k : Decode α} (h : ¬ cond) :
    (failIf cond code msg >>= fun _ => k) s = k s := by
  rw [fail_if_of_not h, pure_bind]

/-- Without an overrun, the computation goes on. -/
theorem overrun_if_bind {k : Decode α} (h : ¬ cond) : (overrunIf cond >>= fun _ => k) s = k s := by
  rw [overrun_if_of_not h, pure_bind]

/-- An action that is done comes first. -/
theorem only_if_bind_of {action : Decode Unit} {k : Decode α} (h : cond) :
    (onlyIf cond action >>= fun _ => k) s = (action >>= fun _ => k) s := by
  rw [only_if_of h]

/-- One that is not done is skipped. -/
theorem only_if_bind_of_not {action : Decode Unit} {k : Decode α} (h : ¬ cond) :
    (onlyIf cond action >>= fun _ => k) s = k s := by
  rw [only_if_of_not h, pure_bind]

/-- A change of the state goes on with it. -/
theorem modify_bind {g : Stream → Stream} {k : Decode α} :
    (modify g >>= fun _ => k) s = k (g s) := rfl

end Checks

/-! ## Progress -/

/-- The fields of the stream that the output of a window changes. -/
structure Progress where
  out : Bytes
  data : Bytes
  cursor : Cursor
  current1 : Hinst
  current2 : Hinst

/-- The progress of a stream. -/
def Stream.progress (s : Stream) : Progress where
  out := s.nextOut
  data := s.dataSect.buf
  cursor := ⟨s.instSect.buf, s.addrSect.buf, s.acache, s.decPosition⟩
  current1 := s.decCurrent1
  current2 := s.decCurrent2

/-- The stream with other progress. -/
def Stream.at (s : Stream) (p : Progress) : Stream :=
  { s with
    nextOut := p.out
    dataSect := { s.dataSect with buf := p.data }
    instSect := { s.instSect with buf := p.cursor.inst }
    addrSect := { s.addrSect with buf := p.cursor.addr }
    acache := p.cursor.acache
    decPosition := p.cursor.here
    decCurrent1 := p.current1
    decCurrent2 := p.current2 }

/-- A stream stands where its progress says. -/
theorem at_progress (s : Stream) : s.at s.progress = s := rfl

/-- The half-instruction in a slot. -/
def Progress.current (p : Progress) : Slot → Hinst
  | .first => p.current1
  | .second => p.current2

/-- Replace the half-instruction in a slot. -/
def Progress.setCurrent (p : Progress) (inst : Hinst) : Slot → Progress
  | .first => { p with current1 := inst }
  | .second => { p with current2 := inst }

/-- The slots of a stream are those of its progress. -/
@[simp] theorem current_at (s : Stream) (p : Progress) (slot : Slot) :
    (s.at p).current slot = p.current slot := by cases slot <;> rfl

/-- Replacing a slot is progress. -/
@[simp] theorem set_current_at (s : Stream) (p : Progress) (inst : Hinst) (slot : Slot) :
    (s.at p).setCurrent inst slot = s.at (p.setCurrent inst slot) := by cases slot <;> rfl

/-- The slot has what was put in it. -/
@[simp] theorem current_set_current (p : Progress) (inst : Hinst) (slot : Slot) :
    (p.setCurrent inst slot).current slot = inst := by cases slot <;> rfl

/-- The instruction in a slot, if there is one. -/
def pending (inst : Hinst) : List Hinst := if inst.type = .noop then [] else [inst]

/-- An instruction that is there is pending. -/
theorem pending_of_ne {inst : Hinst} (h : inst.type ≠ .noop) : pending inst = [inst] := if_neg h

/-- An empty slot has none. -/
theorem pending_of_eq {inst : Hinst} (h : inst.type = .noop) : pending inst = [] := if_pos h

/-! ## Parsing -/

section Parsing

variable {s : Stream} {p : Progress}

/-- A size is read from the instruction section. -/
theorem read_inst_size_of {size : Nat} {rest : Bytes}
    (h : readSize s.instSect.buf = .ok (size, rest)) :
    readInstSize s = .ok size { s with instSect := { s.instSect with buf := rest } } := by
  unfold readInstSize
  rw [h]

/-- An address is read from the address section. -/
theorem decode_addr_of {mode addr : Nat} {rest : Bytes} {acache : AddrCache}
    (h : decodeAddress s.acache s.decPosition mode s.addrSect.buf = .ok (addr, rest, acache)) :
    decodeAddr mode s =
      .ok addr { s with addrSect := { s.addrSect with buf := rest }, acache } := by
  unfold decodeAddr
  rw [h]

/-- A code is read from the instruction section. -/
theorem read_code_of {code : UInt8} {rest : Bytes} (h : s.instSect.buf = code :: rest) :
    readCode s = .ok code.toNat { s with instSect := { s.instSect with buf := rest } } := by
  unfold readCode
  rw [h]

/-- The size of an instruction. -/
theorem half_size_at {size n : Nat} {c : Cursor} (h : p.cursor.size size = some (n, c)) :
    halfSize size (s.at p) = .ok n (s.at { p with cursor := c }) := by
  unfold Cursor.size at h
  unfold halfSize
  by_cases hzero : size = 0
  · rw [if_pos hzero] at h ⊢
    cases hsize : readSize p.cursor.inst with
    | ok read =>
        rw [hsize] at h
        cases h
        exact read_inst_size_of (s := s.at p) hsize
    | error msg =>
        rw [hsize] at h
        cases h
  · rw [if_neg hzero] at h ⊢
    cases h
    rfl

/-- The address of an instruction whose copy does not leave the segment. -/
theorem half_addr_at {inst : Hinst} {size addr : Nat} {c : Cursor}
    (h : p.cursor.address inst.type = some (addr, c)) (hzero : inst.addr = 0)
    (hfits : ∀ mode, inst.type = .cpy mode → addr < s.decCpylen → addr + size ≤ s.decCpylen)
    (hlimit : s.decCpylen < 2 ^ 32) :
    halfAddr inst size (s.at p) = .ok addr (s.at { p with cursor := c }) := by
  unfold Cursor.address at h
  unfold halfAddr
  cases htype : inst.type with
  | cpy mode =>
      rw [htype] at h
      simp only at h ⊢
      cases hdecode : decodeAddress p.cursor.acache p.cursor.here mode p.cursor.addr with
      | ok decoded =>
          obtain ⟨address, rest, acache⟩ := decoded
          simp only [hdecode] at h
          have hread := decode_addr_of (s := s.at p) hdecode
          split at h
          · rename_i hless
            cases h
            have hstraddle : ¬ (addr < s.decCpylen ∧ (addr + size) % 2 ^ 32 > s.decCpylen) := by
              rintro ⟨hseg, hover⟩
              have hle := hfits mode htype hseg
              rw [Nat.mod_eq_of_lt (by omega)] at hover
              omega
            rw [bind_ok hread, get_bind]
            refine Eq.trans (fail_if_bind ?_) (Eq.trans (fail_if_bind ?_) ?_)
            · exact Nat.not_le_of_lt hless
            · exact hstraddle
            · rfl
          · cases h
      | error msg =>
          simp only [hdecode] at h
          cases h
  | noop | add | run =>
      rw [htype] at h
      cases h
      rw [hzero]
      rfl

/-- A half-instruction within the limits of the window. -/
theorem decode_parse_halfinst_at (inst : Hinst) {size addr : Nat} {c c' : Cursor}
    (hsize : p.cursor.size inst.size = some (size, c))
    (haddr : c.address inst.type = some (addr, c')) (hzero : inst.addr = 0)
    (hfits : ∀ mode, inst.type = .cpy mode → addr < s.decCpylen → addr + size ≤ s.decCpylen)
    (hlimit : s.decCpylen < 2 ^ 32) (hroom : c'.here + size ≤ s.decMaxpos)
    (hmaxpos : s.decMaxpos < 2 ^ 32) :
    decodeParseHalfinst inst (s.at p) = .ok { inst with size, addr }
      (s.at { p with cursor := { c' with here := c'.here + size } }) := by
  have hmod : (c'.here + size) % 2 ^ 32 = c'.here + size := Nat.mod_eq_of_lt (by omega)
  have hroom' : ¬ ((c'.here + size) % 2 ^ 32 > s.decMaxpos) := by omega
  have haddr' : halfAddr inst size (s.at { p with cursor := c }) =
      .ok addr (s.at { p with cursor := c' }) := half_addr_at haddr hzero hfits hlimit
  unfold decodeParseHalfinst
  rw [bind_ok (half_size_at hsize), bind_ok haddr', get_bind]
  refine Eq.trans (fail_if_bind hroom') ?_
  show EStateM.Result.ok _
    (s.at { p with cursor := { c' with here := (c'.here + size) % 2 ^ 32 } }) = _
  rw [hmod]

/-- One of the two instructions of a code. -/
theorem parse_slot_at (slot : Slot) {type : Rtype} {size : Nat} {hs : List Hinst} {c : Cursor}
    (hslot : p.current slot = { type, size }) (h : half type size p.cursor = some (hs, c))
    (hfits : ∀ h ∈ hs, ∀ mode, h.type = .cpy mode → h.addr < s.decCpylen →
      h.addr + h.size ≤ s.decCpylen)
    (hlimit : s.decCpylen < 2 ^ 32) (hroom : p.cursor.here + totalSize hs ≤ s.decMaxpos)
    (hmaxpos : s.decMaxpos < 2 ^ 32) :
    ∃ inst, pending inst = hs ∧
      parseSlot slot (s.at p) = .ok () (s.at ({ p with cursor := c }.setCurrent inst slot)) := by
  unfold half at h
  unfold parseSlot
  rw [get_bind, current_at, hslot]
  by_cases hnoop : type = .noop
  · rw [if_pos hnoop] at h
    cases h
    refine ⟨{ type, size }, pending_of_eq hnoop, ?_⟩
    rw [only_if_of_not (not_not_intro hnoop), ← hslot]
    cases slot <;> rfl
  · rw [if_neg hnoop] at h
    obtain ⟨⟨n, c₁⟩, hsize, h⟩ := Option.bind_eq_some_iff.1 h
    obtain ⟨⟨addr, c₂⟩, haddr, h⟩ := Option.bind_eq_some_iff.1 h
    cases h
    refine ⟨{ type, size := n, addr }, pending_of_ne hnoop, ?_⟩
    have hhere : c₂.here = p.cursor.here :=
      (Cursor.address_eq haddr).1.trans (Cursor.size_eq hsize).1
    have hparse := decode_parse_halfinst_at { type, size } hsize haddr rfl
      (hfits _ (List.mem_singleton_self _)) hlimit (by simpa [hhere] using hroom) hmaxpos
    rw [only_if_of hnoop, bind_ok hparse]
    cases slot <;> rfl

/-- A code whose instructions are within the limits of the window. -/
theorem decode_instruction_at {hs : List Hinst} {c : Cursor}
    (h : instruction p.cursor = some (hs, c)) (htable : s.codeTable = rfc3284CodeTable)
    (hfits : ∀ h ∈ hs, ∀ mode, h.type = .cpy mode → h.addr < s.decCpylen →
      h.addr + h.size ≤ s.decCpylen)
    (hlimit : s.decCpylen < 2 ^ 32) (hroom : p.cursor.here + totalSize hs ≤ s.decMaxpos)
    (hmaxpos : s.decMaxpos < 2 ^ 32) :
    ∃ inst1 inst2, pending inst1 ++ pending inst2 = hs ∧ decodeInstruction (s.at p) =
      .ok () (s.at { p with cursor := c, current1 := inst1, current2 := inst2 }) := by
  unfold instruction at h
  cases hinst : p.cursor.inst with
  | nil => simp [hinst] at h
  | cons code inst =>
      simp only [hinst] at h
      obtain ⟨⟨first, c₁⟩, hfirst, h⟩ := Option.bind_eq_some_iff.1 h
      obtain ⟨⟨second, c₂⟩, hsecond, h⟩ := Option.bind_eq_some_iff.1 h
      obtain ⟨rfl, rfl⟩ := Prod.mk.inj (Option.some.inj h)
      generalize hentry : rfc3284CodeTable.getD code.toNat {} = entry at hfirst hsecond
      have hcode : readCode (s.at p) =
          .ok code.toNat (s.at { p with cursor := { p.cursor with inst } }) :=
        read_code_of (s := s.at p) hinst
      have hone := half_parsed hfirst
      have hroom' : p.cursor.here + (totalSize first + totalSize second) ≤ s.decMaxpos := by
        rw [← total_size_append]
        exact hroom
      have hroom₁ : p.cursor.here + totalSize first ≤ s.decMaxpos := by omega
      have hroom₂ : c₁.here + totalSize second ≤ s.decMaxpos := by
        rw [hone.here]
        show p.cursor.here + _ + _ ≤ _
        omega
      let p₁ : Progress := ⟨p.out, p.data, { p.cursor with inst }, ⟨entry.type1, entry.size1, 0⟩,
        ⟨entry.type2, entry.size2, 0⟩⟩
      obtain ⟨inst1, hinst1, hparse1⟩ := parse_slot_at (p := p₁) .first rfl hfirst
        (fun h hmem => hfits h (List.mem_append_left _ hmem)) hlimit hroom₁ hmaxpos
      obtain ⟨inst2, hinst2, hparse2⟩ :=
        parse_slot_at (p := { p₁ with cursor := c₁, current1 := inst1 }) .second rfl hsecond
          (fun h hmem => hfits h (List.mem_append_right _ hmem)) hlimit hroom₂ hmaxpos
      refine ⟨inst1, inst2, by rw [hinst1, hinst2], ?_⟩
      unfold decodeInstruction
      rw [bind_ok hcode, modify_bind]
      have hstart : (parseSlot .first >>= fun _ => parseSlot .second) (s.at p₁) =
          .ok () (s.at ⟨p.out, p.data, c₂, inst1, inst2⟩) := by
        rw [bind_ok hparse1]
        exact hparse2
      rw [← hstart]
      show _ = (parseSlot .first >>= fun _ => parseSlot .second) (s.at ⟨p.out, p.data,
        { p.cursor with inst }, ⟨entry.type1, entry.size1, 0⟩, ⟨entry.type2, entry.size2, 0⟩⟩)
      rw [← hentry, ← htable]
      rfl

end Parsing

/-! ## Blocks of the source -/

/-- The position that a block and an offset stand for. -/
theorem blksize_div_eq (src : Source) (offset : Nat) :
    (src.blksizeDiv offset).1 * src.blksize + (src.blksizeDiv offset).2 = offset ∧
      (src.blksizeDiv offset).2 < src.blksize := by
  have hpos : 0 < src.blksize := Nat.two_pow_pos _
  unfold Source.blksizeDiv
  rw [Nat.shiftRight_eq_div_pow]
  exact ⟨Nat.div_add_mod' offset src.blksize, Nat.mod_lt _ hpos⟩

/-- Adding to a position in blocks, carried over to the block number. -/
theorem blksize_add_eq (src : Source) (blkno : Nat) {blkoff add : Nat}
    (hfits : blkoff + add < 2 ^ 32) :
    (src.blksizeAdd blkno blkoff add).1 * src.blksize + (src.blksizeAdd blkno blkoff add).2 =
        blkno * src.blksize + blkoff + add ∧
      (src.blksizeAdd blkno blkoff add).2 < src.blksize := by
  have hpos : 0 < src.blksize := Nat.two_pow_pos _
  have hdiv : (blkoff + add) / src.blksize * src.blksize + (blkoff + add) % src.blksize =
      blkoff + add := Nat.div_add_mod' _ _
  have hshift : (blkoff + add) >>> src.shiftby = (blkoff + add) / src.blksize :=
    Nat.shiftRight_eq_div_pow _ _
  unfold Source.blksizeAdd
  simp only [Nat.mod_eq_of_lt hfits, hshift]
  by_cases hsame : (blkoff + add) / src.blksize = 0
  · simp only [ne_eq, hsame, not_true_eq_false, if_false]
    refine ⟨by omega, ?_⟩
    exact (Nat.div_eq_zero_iff_lt hpos).1 hsame
  · simp only [ne_eq, hsame, not_false_eq_true, if_true]
    refine ⟨?_, Nat.mod_lt _ hpos⟩
    rw [Nat.add_mul]
    omega

/-- The current block, if there is one, holds what the source has there. -/
def Source.Supplies (src : Source) (source : Bytes) : Prop :=
  src.curblkno < 2 ^ 64 - 1 → src.onblk ≤ src.curblk.length ∧
    src.curblk.take src.onblk <+: slice source (src.blksize * src.curblkno) src.blksize

/-- The current block, if there is one, holds all that the source has there. -/
def Source.Whole (src : Source) (source : Bytes) : Prop :=
  src.curblkno < 2 ^ 64 - 1 →
    src.onblk = (slice source (src.blksize * src.curblkno) src.blksize).length

/-- Bytes of the current block are bytes of the source. -/
theorem slice_of_supplies {src : Source} {source : Bytes} {blkoff take : Nat}
    (h : src.Supplies source) (hblk : src.curblkno < 2 ^ 64 - 1)
    (hon : blkoff + take ≤ src.onblk) :
    slice src.curblk blkoff take = slice source (src.curblkno * src.blksize + blkoff) take := by
  obtain ⟨hle, hstarts⟩ := h hblk
  have hcur : slice (src.curblk.take src.onblk) blkoff take = slice src.curblk blkoff take := by
    have hslice : slice (slice src.curblk 0 src.onblk) blkoff take =
        slice src.curblk (0 + blkoff) take := slice_slice hon
    rwa [Nat.zero_add] at hslice
  have hfit : src.onblk ≤ src.blksize := by
    have hlen := hstarts.length_le
    rw [List.length_take_of_le hle, length_slice] at hlen
    omega
  obtain ⟨more, hmore⟩ := hstarts
  have hblock : slice (src.curblk.take src.onblk ++ more) blkoff take =
      slice (slice source (src.blksize * src.curblkno) src.blksize) blkoff take := by rw [hmore]
  rw [slice_append_of_le (by rw [List.length_take_of_le hle]; exact hon), hcur,
    slice_slice (by omega)] at hblock
  rw [hblock, Nat.mul_comm]

/-- The block that a copy from the source begins in. -/
def Source.blockOf (src : Source) (inst : Hinst) : Nat :=
  (src.blksizeAdd src.cpyoffBlocks src.cpyoffBlkoff inst.addr).1

/-- The stream with a request for a block of the source. -/
def Stream.request (s : Stream) (blkno : Nat) : Stream :=
  { s with src := s.src.map fun src => { src with getblkno := blkno } }

section Source

variable {s : Stream} {p : Progress} {source : Bytes} {src : Source}

/-- The current block is there already. -/
theorem getblk_same {blkno : Nat} {t : Stream} {α : Type} {k : Decode α}
    (h : blkno = src.curblkno) : (getblk src blkno >>= fun _ => k) t = k t := by
  unfold getblk
  rw [if_neg (not_not_intro h), pure_bind]

/-- Another block is asked for. -/
theorem getblk_other {blkno : Nat} {α : Type} {k : Decode α} (hsrc : s.src = some src)
    (h : blkno ≠ src.curblkno) :
    (getblk src blkno >>= fun _ => k) (s.at p) = .error .getsrcblk ((s.request blkno).at p) := by
  unfold getblk Stream.request
  rw [if_pos h, hsrc]
  rfl

/-- There is room in a buffer that has not been freed. -/
theorem not_full {n : Nat} (hbuffer : s.outBuffer = s.decBuffer)
    (hroom : p.out.length + n ≤ s.spaceOut) :
    ¬ ((s.at p).spaceOut < (s.at p).nextOut.length + n ∨
      n ≠ 0 ∧ (s.at p).Freed (s.at p).outBuffer) :=
  not_or.2 ⟨Nat.not_lt_of_le hroom, fun hfreed => hfreed.2.2 hbuffer⟩

/-- A copy from the source to the output. -/
theorem put_block_at {blkoff take : Nat} (hcur : blkoff + take ≤ src.curblk.length)
    (hbuffer : s.outBuffer = s.decBuffer) (hroom : p.out.length + take ≤ s.spaceOut) :
    putBlock src blkoff take (s.at p) =
      .ok () (s.at { p with out := p.out ++ slice src.curblk blkoff take }) := by
  unfold putBlock room
  refine Eq.trans (overrun_if_bind (Nat.not_lt_of_le hcur)) ?_
  rw [bind_assoc, get_bind]
  exact overrun_if_bind (not_full hbuffer hroom)

/-- The part of a copy that the source supplies: the current block is another one, it is too short,
or the copy goes on up to the end of the block. -/
theorem output_source_at (hsrc : s.src = some src) (hsupplies : src.Supplies source) (inst : Hinst)
    {cpyoff : Nat} (hcpyoff : src.cpyoffBlocks * src.blksize + src.cpyoffBlkoff = cpyoff)
    (hblkoff : src.cpyoffBlkoff < src.blksize)
    (hlimit : src.blksize + inst.addr + inst.size ≤ 2 ^ 32)
    (hsource : cpyoff + inst.addr + inst.size ≤ source.length)
    (hfile : cpyoff + inst.addr < 2 ^ 64 - 1) (hbuffer : s.outBuffer = s.decBuffer)
    (hroom : p.out.length + inst.size ≤ s.spaceOut) :
    (src.blockOf inst < 2 ^ 64 - 1 ∧ src.blockOf inst ≠ src.curblkno ∧
      outputSource src inst (s.at p) = .error .getsrcblk ((s.request (src.blockOf inst)).at p)) ∨
    (¬ src.Whole source ∧ outputSource src inst (s.at p) =
      .error (.error .invalidInput "source file too short") (s.at p)) ∨
    ∃ take inst', outputSource src inst (s.at p) =
        .ok inst' (s.at { p with out := p.out ++ slice source (cpyoff + inst.addr) take }) ∧
      (take = inst.size ∧ inst' = { inst with type := .noop, size := 0 } ∨
        0 < take ∧ take < inst.size ∧
          inst' = { inst with size := inst.size - take, addr := inst.addr + take }) := by
  obtain ⟨hflat, hoff⟩ := blksize_add_eq src src.cpyoffBlocks
    (show src.cpyoffBlkoff + inst.addr < 2 ^ 32 by omega)
  rw [hcpyoff] at hflat
  unfold outputSource Source.blockOf
  generalize src.blksizeAdd src.cpyoffBlocks src.cpyoffBlkoff inst.addr = place at hflat hoff
  obtain ⟨block, blkoff⟩ := place
  simp only at hflat hoff ⊢
  have hpos : 1 ≤ src.blksize := Nat.two_pow_pos _
  have hblock : block < 2 ^ 64 - 1 := by
    have hle : block * 1 ≤ block * src.blksize := Nat.mul_le_mul_left block hpos
    omega
  have hmod : (blkoff + inst.size) % 2 ^ 32 = blkoff + inst.size := Nat.mod_eq_of_lt (by omega)
  by_cases hsame : block = src.curblkno
  · right
    by_cases hshort : src.onblk ≠ src.blksize ∧ (blkoff + inst.size) % 2 ^ 32 > src.onblk
    · refine .inl ⟨fun hwhole => ?_, ?_⟩
      · -- The source ends in this block, and the copy goes beyond its end.
        have hon := hwhole (hsame ▸ hblock)
        rw [length_slice, ← hsame, Nat.mul_comm] at hon
        omega
      · exact Eq.trans (getblk_same hsame) (fail_if_bind_of hshort)
    · refine .inr ?_
      have hon : ∀ take ≤ inst.size, blkoff + take ≤ src.blksize → blkoff + take ≤ src.onblk := by
        intro take htake hfit
        omega
      have hput : ∀ take ≤ inst.size, blkoff + take ≤ src.blksize →
          putBlock src blkoff take (s.at p) =
            .ok () (s.at { p with out := p.out ++ slice source (cpyoff + inst.addr) take }) := by
        intro take htake hfit
        have hbytes := slice_of_supplies hsupplies (hsame ▸ hblock) (hon take htake hfit)
        rw [← hsame, hflat] at hbytes
        rw [← hbytes]
        exact put_block_at ((hon take htake hfit).trans (hsupplies (hsame ▸ hblock)).1) hbuffer
          (by omega)
      have hportion : src.portion blkoff inst =
          if blkoff + inst.size ≤ src.blksize then
            (inst.size, { inst with type := .noop, size := 0 })
          else (src.blksize - blkoff, { inst with
            size := inst.size - (src.blksize - blkoff),
            addr := (inst.addr + (src.blksize - blkoff)) % 2 ^ 32 }) := by
        unfold Source.portion
        rw [hmod]
      by_cases hall : blkoff + inst.size ≤ src.blksize
      · refine ⟨inst.size, { inst with type := .noop, size := 0 }, ?_, .inl ⟨rfl, rfl⟩⟩
        refine Eq.trans (getblk_same hsame) (Eq.trans (fail_if_bind hshort) ?_)
        rw [hportion, if_pos hall]
        exact bind_ok (hput inst.size le_rfl hall)
      · have haddr : (inst.addr + (src.blksize - blkoff)) % 2 ^ 32 =
            inst.addr + (src.blksize - blkoff) := Nat.mod_eq_of_lt (by omega)
        refine ⟨src.blksize - blkoff, _, ?_, .inr ⟨by omega, by omega, rfl⟩⟩
        refine Eq.trans (getblk_same hsame) (Eq.trans (fail_if_bind hshort) ?_)
        rw [hportion, if_neg hall, haddr]
        exact bind_ok (hput _ (by omega) (by omega))
  · exact .inl ⟨hblock, hsame, getblk_other hsrc hsame⟩

end Source

/-! ## Output -/

/-- The instructions build what is left of the target. -/
def Renders (segment : Bytes) (start : Nat) (target out data : Bytes) (hs : List Hinst) : Prop :=
  ∃ is, withData hs data = some is ∧ build segment start is out = some target

/-- What the decoder knows of a window while it makes its target. -/
structure Layout (source target : Bytes) (s : Stream) : Prop where
  indicator : s.decWinInd &&& VCD_TARGET = 0
  tgtlen : s.decTgtlen = target.length
  cksum : s.decWinInd &&& VCD_ADLER32 ≠ 0 → adler32 32 1 target = s.decAdler32
  table : s.codeTable = rfc3284CodeTable
  space : target.length ≤ s.spaceOut
  buffer : s.outBuffer = s.decBuffer
  maxpos : s.decMaxpos = s.decCpylen + target.length
  maxpos_lt : s.decMaxpos < 2 ^ 32
  source_le : s.decCpyoff + s.decCpylen ≤ source.length
  file : s.decCpyoff + s.decCpylen < 2 ^ 64
  src : 0 < s.decCpylen → ∃ src, s.src = some src ∧ src.Supplies source ∧
    (src.cpyoffBlocks, src.cpyoffBlkoff) = src.blksizeDiv s.decCpyoff ∧
    s.decCpylen + src.blksize ≤ 2 ^ 32

/-- The segment of a window. -/
def Stream.segment (s : Stream) (source : Bytes) : Bytes := slice source s.decCpyoff s.decCpylen

/-- The decoder asks for another block of the source, at a progress of which `Q` tells more, or a
block is shorter than the source. -/
inductive Stops {α : Type} (source : Bytes) (s : Stream) (Q : Nat → Progress → Prop) :
    EStateM.Result Ret Stream α → Prop where
  | request {src : Source} {blkno : Nat} {p : Progress} (hsrc : s.src = some src)
      (hblkno : blkno < 2 ^ 64 - 1) (hother : blkno ≠ src.curblkno) (hQ : Q blkno p) :
      Stops source s Q (.error .getsrcblk ((s.request blkno).at p))
  | short {src : Source} {p : Progress} (hsrc : s.src = some src)
      (hshort : ¬ src.Whole source) :
      Stops source s Q (.error (.error .invalidInput "source file too short") (s.at p))

/-- A weaker condition on where it stops is enough. -/
theorem Stops.mono {α : Type} {source : Bytes} {s : Stream} {Q Q' : Nat → Progress → Prop}
    {r : EStateM.Result Ret Stream α} (h : Stops source s Q r)
    (hQ : ∀ src blkno p, s.src = some src → blkno ≠ src.curblkno → Q blkno p → Q' blkno p) :
    Stops source s Q' r := by
  cases h with
  | request hsrc hblkno hother h => exact .request hsrc hblkno hother (hQ _ _ _ hsrc hother h)
  | short hsrc hshort => exact .short hsrc hshort

/-- What follows is not reached. -/
theorem Stops.bind {α β : Type} {source : Bytes} {s s₀ : Stream} {Q : Nat → Progress → Prop}
    {m : Decode α} (h : Stops source s Q (m s₀)) (k : α → Decode β) :
    Stops source s Q ((m >>= k) s₀) := by
  cases hr : m s₀ with
  | ok a t =>
      rw [hr] at h
      cases h
  | error e t =>
      rw [bind_error hr]
      rw [hr] at h
      cases h with
      | request hsrc hblkno hother hQ => exact .request hsrc hblkno hother hQ
      | short hsrc hshort => exact .short hsrc hshort

/-- The current block is not the one in which a copy begins. -/
def Blocked (s : Stream) (inst : Hinst) : Prop :=
  ∃ src, s.src = some src ∧ src.blockOf inst ≠ src.curblkno

/-- The block is the one in which a copy begins. -/
def Asks (s : Stream) (inst : Hinst) (blkno : Nat) : Prop :=
  inst.type ≠ .noop ∧ ∃ src, s.src = some src ∧ src.blockOf inst = blkno

section Output

variable {source target : Bytes} {s : Stream} {p : Progress}

/-- A copy inside the target may overlap itself. -/
theorem put_overlap_of {src n : Nat} {nextOut : Bytes} (h : extend s.nextOut src n = some nextOut) :
    putOverlap src n s = .ok () { s with nextOut } := by
  unfold putOverlap
  rw [h]

/-- An instruction that fits finds room. -/
theorem room_at (hlayout : Layout source target s) {n : Nat}
    (h : p.out.length + n ≤ s.spaceOut) {α : Type} {k : Decode α} :
    (room n >>= fun _ => k) (s.at p) = k (s.at p) := by
  unfold room
  rw [bind_assoc, get_bind]
  exact overrun_if_bind (not_full hlayout.buffer h)

/-- An instruction of the target fits. -/
theorem room_le (hlayout : Layout source target s) {i : Inst UInt8} {is : List (Inst UInt8)}
    {segment out : Bytes} {start : Nat} (h : build segment start (i :: is) out = some target) :
    out.length + i.size ≤ s.spaceOut := by
  have hlen := length_of_build h
  have hspace := hlayout.space
  rw [total_cons] at hlen
  omega

/-- What is left after an instruction, part of which may be left as well. -/
def Advances (source target : Bytes) (s : Stream) (inst : Hinst) (hs : List Hinst) (p : Progress)
    (r : EStateM.Result Ret Stream Hinst) : Prop :=
  ∃ inst' out data, r = .ok inst' (s.at { p with out, data }) ∧
    Renders (s.segment source) s.decCpylen target out data (pending inst' ++ hs) ∧
    (inst'.type ≠ .noop → inst'.size < inst.size)

/-- An instruction that is done leaves an empty slot. -/
theorem advances_done {inst : Hinst} {hs : List Hinst} (inst' : Hinst) (out data : Bytes)
    {r : EStateM.Result Ret Stream Hinst} (htype : inst'.type = .noop)
    (hr : r = .ok inst' (s.at { p with out, data }))
    (h : Renders (s.segment source) s.decCpylen target out data hs) :
    Advances source target s inst hs p r :=
  ⟨inst', out, data, hr, by rwa [pending_of_eq htype], fun hne => absurd htype hne⟩

/-- A run is done at once. -/
theorem output_half_run (slot : Slot) (hlayout : Layout source target s) {inst : Hinst}
    {hs : List Hinst} (htype : inst.type = .run)
    (h : Renders (s.segment source) s.decCpylen target p.out p.data (inst :: hs)) :
    Advances source target s inst hs p (decodeOutputHalfinst slot inst (s.at p)) := by
  obtain ⟨is, hdata, hbuild⟩ := h
  simp only [withData, htype] at hdata
  cases hp : p.data with
  | nil => simp [hp] at hdata
  | cons b rest =>
      simp only [hp] at hdata
      obtain ⟨js, hrest, rfl⟩ := Option.map_eq_some_iff.1 hdata
      have hbuf : (s.at p).dataSect.buf = b :: rest := hp
      refine advances_done { inst with type := .noop } (p.out ++ List.replicate inst.size b) rest
        rfl ?_ ⟨js, hrest, hbuild⟩
      unfold decodeOutputHalfinst
      rw [get_bind]
      simp only [htype, hbuf]
      exact Eq.trans (room_at hlayout (room_le hlayout hbuild)) rfl

/-- So is an addition. -/
theorem output_half_add (slot : Slot) (hlayout : Layout source target s) {inst : Hinst}
    {hs : List Hinst} (htype : inst.type = .add)
    (h : Renders (s.segment source) s.decCpylen target p.out p.data (inst :: hs)) :
    Advances source target s inst hs p (decodeOutputHalfinst slot inst (s.at p)) := by
  obtain ⟨is, hdata, hbuild⟩ := h
  simp only [withData, htype] at hdata
  split at hdata
  · rename_i hle
    obtain ⟨js, hrest, rfl⟩ := Option.map_eq_some_iff.1 hdata
    have hroom := room_le hlayout hbuild
    rw [Inst.size, List.length_take_of_le hle] at hroom
    refine advances_done { inst with type := .noop } (p.out ++ p.data.take inst.size)
      (p.data.drop inst.size) rfl ?_ ⟨js, hrest, hbuild⟩
    unfold decodeOutputHalfinst
    rw [get_bind]
    simp only [htype]
    exact Eq.trans (fail_if_bind (Nat.not_lt_of_le hle)) (Eq.trans (room_at hlayout hroom) rfl)
  · cases hdata

/-- So is a copy from the target. -/
theorem output_half_target (slot : Slot) (hlayout : Layout source target s) {inst : Hinst}
    {hs : List Hinst} {mode : Nat} (htype : inst.type = .cpy mode)
    (hseg : ¬ inst.addr < s.decCpylen)
    (h : Renders (s.segment source) s.decCpylen target p.out p.data (inst :: hs)) :
    Advances source target s inst hs p (decodeOutputHalfinst slot inst (s.at p)) := by
  obtain ⟨is, hdata, hbuild⟩ := h
  simp only [withData, htype] at hdata
  obtain ⟨js, hrest, rfl⟩ := Option.map_eq_some_iff.1 hdata
  obtain ⟨out, happly, hbuild'⟩ := Option.bind_eq_some_iff.1 hbuild
  simp only [Inst.apply, if_neg hseg] at happly
  refine advances_done { inst with type := .noop, size := 0 } out p.data rfl ?_
    ⟨js, hrest, hbuild'⟩
  have hcopy : putOverlap (inst.addr - s.decCpylen) inst.size (s.at p) =
      .ok () (s.at { p with out }) := put_overlap_of (s := s.at p) happly
  unfold decodeOutputHalfinst
  rw [get_bind]
  simp only [htype]
  refine Eq.trans (congrFun (if_neg hseg) (s.at p)) ?_
  exact Eq.trans (room_at hlayout (room_le hlayout hbuild)) (bind_ok hcopy)

/-- A copy from the source. -/
theorem output_half_source (slot : Slot) (hlayout : Layout source target s) {inst : Hinst}
    {hs : List Hinst} {mode : Nat} (htype : inst.type = .cpy mode)
    (hseg : inst.addr < s.decCpylen)
    (h : Renders (s.segment source) s.decCpylen target p.out p.data (inst :: hs)) :
    Advances source target s inst hs p (decodeOutputHalfinst slot inst (s.at p)) ∨
      Stops source s (fun blkno p' => p' = p ∧ Asks s inst blkno)
        (decodeOutputHalfinst slot inst (s.at p)) := by
  obtain ⟨is, hdata, hbuild⟩ := h
  simp only [withData, htype] at hdata
  obtain ⟨js, hrest, rfl⟩ := Option.map_eq_some_iff.1 hdata
  obtain ⟨out, happly, hbuild'⟩ := Option.bind_eq_some_iff.1 hbuild
  obtain ⟨src, hsrc, hsupplies, hdiv, hlimit⟩ := hlayout.src (Nat.zero_lt_of_lt hseg)
  obtain ⟨hflat, hoff⟩ := blksize_div_eq src s.decCpyoff
  rw [← hdiv] at hflat hoff
  have hsource := hlayout.source_le
  have hfile := hlayout.file
  have hcopy := happly
  simp only [Inst.apply, if_pos hseg] at hcopy
  split at hcopy
  · rename_i hroom
    have hstep : decodeOutputHalfinst slot inst (s.at p) = outputSource src inst (s.at p) := by
      unfold decodeOutputHalfinst
      rw [get_bind]
      simp only [htype]
      refine Eq.trans (congrFun (if_pos hseg) (s.at p)) ?_
      refine Eq.trans (congrFun (if_neg (not_not_intro hlayout.indicator)) (s.at p)) ?_
      have hat : (s.at p).src = some src := hsrc
      rw [hat]
    rw [hstep]
    rcases output_source_at hsrc hsupplies inst hflat hoff (by omega) (by omega)
      (by omega) hlayout.buffer (room_le hlayout hbuild) with
        ⟨hblock, hother, hr⟩ | ⟨hshort, hr⟩ | ⟨take, inst', hr, htake⟩
    · rw [hr]
      have hne : inst.type ≠ .noop := by
        rw [htype]
        exact Rtype.noConfusion
      exact .inr (.request hsrc hblock hother ⟨rfl, hne, src, hsrc, rfl⟩)
    · rw [hr]
      exact .inr (.short hsrc hshort)
    · left
      have hslice : ∀ k ≤ inst.size, slice source (s.decCpyoff + inst.addr) k =
          ((s.segment source).drop inst.addr).take k := by
        intro k hk
        exact (slice_slice (by omega)).symm
      rcases htake with ⟨rfl, rfl⟩ | ⟨hpos, hless, rfl⟩
      · cases hcopy
        rw [hslice _ le_rfl] at hr
        exact advances_done _ _ _ rfl hr ⟨js, hrest, hbuild'⟩
      · rw [hslice _ hless.le] at hr
        have hne : ({ inst with size := inst.size - take, addr := inst.addr + take } : Hinst).type ≠
            .noop := by
          rw [htype]
          exact Rtype.noConfusion
        refine ⟨_, _, p.data, hr, ?_, fun _ => Nat.sub_lt (by omega) hpos⟩
        rw [pending_of_ne hne]
        refine ⟨.copy (inst.addr + take) (inst.size - take) :: js, ?_, ?_⟩
        · simp only [List.singleton_append, withData, htype, hrest]
          rfl
        · rw [build_cons, Inst.apply_copy_rest happly hseg hless]
          exact hbuild'
  · cases hcopy

/-- One step of the output of an instruction. -/
theorem output_half_at (slot : Slot) (hlayout : Layout source target s) {inst : Hinst}
    {hs : List Hinst} (htype : inst.type ≠ .noop)
    (h : Renders (s.segment source) s.decCpylen target p.out p.data (inst :: hs)) :
    Advances source target s inst hs p (decodeOutputHalfinst slot inst (s.at p)) ∨
      Stops source s (fun blkno p' => p' = p ∧ Asks s inst blkno)
        (decodeOutputHalfinst slot inst (s.at p)) := by
  cases hkind : inst.type with
  | noop => exact absurd hkind htype
  | run => exact .inl (output_half_run slot hlayout hkind h)
  | add => exact .inl (output_half_add slot hlayout hkind h)
  | cpy mode =>
      by_cases hseg : inst.addr < s.decCpylen
      · exact output_half_source slot hlayout hkind hseg h
      · exact .inl (output_half_target slot hlayout hkind hseg h)

/-- Where the output of a slot may stop. -/
structure Stopped (source target : Bytes) (s : Stream) (slot : Slot) (hs : List Hinst)
    (p : Progress) (blkno : Nat) (p' : Progress) : Prop where
  cursor : p'.cursor = p.cursor
  other : ∀ other, other ≠ slot → p'.current other = p.current other
  started : (p.current slot).type ≠ .noop
  asks : Asks s (p'.current slot) blkno
  renders : Renders (s.segment source) s.decCpylen target p'.out p'.data
    (pending (p'.current slot) ++ hs)
  size_le : (p'.current slot).size ≤ (p.current slot).size
  size_lt : ¬ Blocked s (p.current slot) → (p'.current slot).size < (p.current slot).size

/-- The end of the output of a slot. -/
structure Emptied (source target : Bytes) (s : Stream) (slot : Slot) (hs : List Hinst)
    (p p' : Progress) : Prop where
  cursor : p'.cursor = p.cursor
  other : ∀ other, other ≠ slot → p'.current other = p.current other
  type : (p'.current slot).type = .noop
  renders : Renders (s.segment source) s.decCpylen target p'.out p'.data hs

/-- The other slot stays. -/
theorem current_set_current_ne {slot other : Slot} (h : other ≠ slot) (p : Progress)
    (inst : Hinst) : (p.setCurrent inst slot).current other = p.current other := by
  cases slot <;> cases other <;> first | rfl | exact absurd rfl h

/-- The sections stay where they are read. -/
theorem cursor_set_current (p : Progress) (inst : Hinst) (slot : Slot) :
    (p.setCurrent inst slot).cursor = p.cursor := by cases slot <;> rfl

/-- So does the output. -/
theorem out_set_current (p : Progress) (inst : Hinst) (slot : Slot) :
    (p.setCurrent inst slot).out = p.out := by cases slot <;> rfl

/-- So does the data section. -/
theorem data_set_current (p : Progress) (inst : Hinst) (slot : Slot) :
    (p.setCurrent inst slot).data = p.data := by cases slot <;> rfl

/-- The output of a slot in enough rounds. -/
theorem output_slot_at (hlayout : Layout source target s) (slot : Slot) {rounds : Nat}
    {hs : List Hinst} (hrounds : (p.current slot).type ≠ .noop → (p.current slot).size < rounds)
    (h : Renders (s.segment source) s.decCpylen target p.out p.data
      (pending (p.current slot) ++ hs)) :
    (∃ p', outputSlot slot rounds (s.at p) = .ok () (s.at p') ∧
      Emptied source target s slot hs p p') ∨
    Stops source s (Stopped source target s slot hs p) (outputSlot slot rounds (s.at p)) := by
  induction rounds generalizing p with
  | zero =>
      have hnoop : (p.current slot).type = .noop := by
        by_contra hne
        exact Nat.not_lt_zero _ (hrounds hne)
      rw [pending_of_eq hnoop] at h
      exact .inl ⟨p, rfl, rfl, fun _ _ => rfl, hnoop, h⟩
  | succ rounds ih =>
      unfold outputSlot
      rw [get_bind, current_at]
      by_cases hnoop : (p.current slot).type = .noop
      · rw [pending_of_eq hnoop] at h
        rw [only_if_of_not (not_not_intro hnoop)]
        exact .inl ⟨p, rfl, rfl, fun _ _ => rfl, hnoop, h⟩
      · rw [only_if_of hnoop]
        rw [pending_of_ne hnoop] at h
        rcases output_half_at slot hlayout hnoop h with
          ⟨inst', out, data, hr, hrenders, hless⟩ | hstops
        · -- The instruction that is left is a smaller one.
          rw [bind_ok hr, modify_bind, set_current_at]
          let p₁ : Progress := { p with out, data }.setCurrent inst' slot
          have hcur : p₁.current slot = inst' := current_set_current _ _ _
          have hcursor : p₁.cursor = p.cursor := cursor_set_current _ _ _
          have hother : ∀ other, other ≠ slot → p₁.current other = p.current other := by
            intro other hne
            exact (current_set_current_ne hne _ _).trans (by cases other <;> rfl)
          have hsmall := hrounds hnoop
          have hrounds' : (p₁.current slot).type ≠ .noop → (p₁.current slot).size < rounds := by
            rw [hcur]
            intro hne
            have hlt := hless hne
            omega
          have hrenders' : Renders (s.segment source) s.decCpylen target p₁.out p₁.data
              (pending (p₁.current slot) ++ hs) := by
            rw [hcur]
            show Renders _ _ _ (Progress.setCurrent _ _ _).out (Progress.setCurrent _ _ _).data _
            rw [out_set_current, data_set_current]
            exact hrenders
          rcases ih hrounds' hrenders' with ⟨p', hp', hend⟩ | hstops
          · exact .inl ⟨p', hp', hend.cursor.trans hcursor,
              fun other hne => (hend.other other hne).trans (hother other hne), hend.type,
              hend.renders⟩
          · refine .inr (hstops.mono fun src blkno p' _ _ hstop => ?_)
            have hlt : inst'.size < (p.current slot).size := hless (hcur ▸ hstop.started)
            have hle := hstop.size_le
            rw [hcur] at hle
            exact ⟨hstop.cursor.trans hcursor,
              fun other hne => (hstop.other other hne).trans (hother other hne), hnoop,
              hstop.asks, hstop.renders, by omega, fun _ => by omega⟩
        · refine .inr ((hstops.mono ?_).bind _)
          rintro src blkno p' hsrc hother ⟨rfl, hasks⟩
          refine ⟨rfl, fun _ _ => rfl, hnoop, hasks, by rwa [pending_of_ne hnoop], le_rfl, ?_⟩
          intro hready
          obtain ⟨-, src', hsrc', rfl⟩ := hasks
          cases hsrc.symm.trans hsrc'
          exact absurd ⟨src, hsrc, hother⟩ hready

/-- The output of a slot. -/
theorem output_all_at (hlayout : Layout source target s) (slot : Slot) {hs : List Hinst}
    (h : Renders (s.segment source) s.decCpylen target p.out p.data
      (pending (p.current slot) ++ hs)) :
    (∃ p', outputAll slot (s.at p) = .ok () (s.at p') ∧
      Emptied source target s slot hs p p') ∨
    Stops source s (Stopped source target s slot hs p) (outputAll slot (s.at p)) := by
  unfold outputAll
  rw [get_bind, current_at]
  exact output_slot_at hlayout slot (fun _ => Nat.lt_succ_self _) h

/-- No instruction is parsed and not yet carried out. -/
def Progress.Idle (p : Progress) : Prop := p.current1.type = .noop ∧ p.current2.type = .noop

/-- The instruction that is carried out next, if one is parsed. -/
def Progress.next (p : Progress) : Hinst :=
  if p.current1.type ≠ .noop then p.current1 else p.current2

/-- The instructions that are left, of which `more` are not parsed yet. -/
def Progress.left (p : Progress) (more : List Hinst) : List Hinst :=
  pending p.current1 ++ (pending p.current2 ++ more)

/-- How many steps instructions take at most. -/
def weight (hs : List Hinst) : Nat := totalSize hs + hs.length

/-- The weights of two lists add up. -/
theorem weight_append (hs hs' : List Hinst) : weight (hs ++ hs') = weight hs + weight hs' := by
  unfold weight
  rw [total_size_append, List.length_append]
  omega

/-- A pending instruction weighs its size and one more. -/
theorem weight_pending {inst : Hinst} (h : inst.type ≠ .noop) :
    weight (pending inst) = inst.size + 1 := by
  rw [pending_of_ne h]
  rfl

/-- The instructions that are left build the rest of the target. -/
structure Good (source target : Bytes) (s : Stream) (p : Progress) (more : List Hinst) : Prop where
  parsed : ∃ codes, instructions codes p.cursor = some more
  here : p.cursor.here + totalSize more = s.decMaxpos
  renders : Renders (s.segment source) s.decCpylen target p.out p.data (p.left more)

/-- Where the output of a window may stop: the next copy asks for a block, and there is less to do
if the copy that was the next one before had its block. -/
def Paused (source target : Bytes) (s : Stream) (p : Progress) (more : List Hinst) (blkno : Nat)
    (p' : Progress) : Prop :=
  ∃ more', Good source target s p' more' ∧ Asks s p'.next blkno ∧
    weight (p'.left more') ≤ weight (p.left more) ∧
    (p.next.type ≠ .noop → ¬ Blocked s p.next → weight (p'.left more') < weight (p.left more))

/-- The end of the output of a window. -/
structure Progress.Ended (p : Progress) (target : Bytes) : Prop where
  out : p.out = target
  data : p.data = []
  inst : p.cursor.inst = []
  addr : p.cursor.addr = []
  idle : p.Idle

/-- An instruction is parsed if there is none to carry out. -/
theorem parse_at (hlayout : Layout source target s) {more : List Hinst}
    (hgood : Good source target s p more) (hmore : p.Idle → p.cursor.inst ≠ []) :
    ∃ p' more', onlyIf (p.current1.type = .noop ∧ p.current2.type = .noop) decodeInstruction
        (s.at p) = .ok () (s.at p') ∧ Good source target s p' more' ∧
      p'.left more' = p.left more ∧ (p.Idle → p'.cursor.inst.length < p.cursor.inst.length) ∧
      (¬ p.Idle → p' = p) := by
  by_cases hidle : p.Idle
  · obtain ⟨codes, hcodes⟩ := hgood.parsed
    obtain ⟨codes', first, c, more', hfirst, hmore', rfl⟩ := instructions_cons hcodes (hmore hidle)
    have hleft : p.left (first ++ more') = first ++ more' := by
      unfold Progress.left
      rw [pending_of_eq hidle.1, pending_of_eq hidle.2]
      rfl
    have hrenders := hgood.renders
    rw [hleft] at hrenders
    obtain ⟨is, hdata, hbuild⟩ := hrenders
    have hmaxpos := hlayout.maxpos_lt
    have hhere := hgood.here
    rw [total_size_append] at hhere
    obtain ⟨hparsed, hless⟩ := instruction_parsed hfirst
    have hfits := (with_data_fits hdata hbuild (instructions_type hcodes)).2
    obtain ⟨inst1, inst2, hinsts, hstep⟩ := decode_instruction_at hfirst hlayout.table
      (fun h hmem => hfits h (List.mem_append_left _ hmem)) (by have := hlayout.maxpos; omega)
      (by omega) hmaxpos
    have hleft' : Progress.left { p with cursor := c, current1 := inst1, current2 := inst2 } more' =
        first ++ more' := by
      unfold Progress.left
      rw [← List.append_assoc, hinsts]
    refine ⟨⟨p.out, p.data, c, inst1, inst2⟩, more', ?_, ⟨⟨codes', hmore'⟩, ?_, ?_⟩, ?_,
      fun _ => hless, fun h => absurd hidle h⟩
    · rw [only_if_of (show p.current1.type = .noop ∧ p.current2.type = .noop from hidle)]
      exact hstep
    · show c.here + _ = _
      rw [hparsed.here]
      omega
    · rw [hleft']
      exact ⟨is, hdata, hbuild⟩
    · rw [hleft, hleft']
  · refine ⟨p, more, ?_, hgood, rfl, fun h => absurd h hidle, fun _ => rfl⟩
    rw [only_if_of_not (show ¬ (p.current1.type = .noop ∧ p.current2.type = .noop) from hidle)]
    rfl

/-- The first of two slots, which is carried out next. -/
theorem next_of_ne (h : p.current1.type ≠ .noop) : p.next = p.current1 := if_pos h

/-- With an empty first slot, the second is next. -/
theorem next_of_eq (h : p.current1.type = .noop) : p.next = p.current2 :=
  if_neg (not_not_intro h)

/-- A slot is carried out, and `hs` are left. -/
theorem Emptied.good {slot : Slot} {hs more : List Hinst} {p' : Progress}
    (h : Emptied source target s slot hs p p') (hgood : Good source target s p more)
    (hleft : p'.left more = hs) : Good source target s p' more := by
  refine ⟨?_, ?_, ?_⟩
  · rw [h.cursor]
    exact hgood.parsed
  · rw [h.cursor]
    exact hgood.here
  · rw [hleft]
    exact h.renders

/-- The slot that is carried out next stops, and `hs` are left after it. -/
theorem Stopped.paused {slot : Slot} {hs more : List Hinst} {blkno : Nat} {p' : Progress}
    (h : Stopped source target s slot hs p blkno p') (hgood : Good source target s p more)
    (hleft : p.left more = pending (p.current slot) ++ hs)
    (hleft' : p'.left more = pending (p'.current slot) ++ hs)
    (hnext : p.next = p.current slot) (hnext' : p'.next = p'.current slot) :
    Paused source target s p more blkno p' := by
  have hweight : weight (p.left more) = (p.current slot).size + 1 + weight hs := by
    rw [hleft, weight_append, weight_pending h.started]
  have hweight' : weight (p'.left more) = (p'.current slot).size + 1 + weight hs := by
    rw [hleft', weight_append, weight_pending h.asks.1]
  refine ⟨more, ⟨?_, ?_, ?_⟩, ?_, ?_, ?_⟩
  · rw [h.cursor]
    exact hgood.parsed
  · rw [h.cursor]
    exact hgood.here
  · rw [hleft']
    exact h.renders
  · rw [hnext']
    exact h.asks
  · have hle := h.size_le
    omega
  · rw [hnext]
    intro _ hready
    have hlt := h.size_lt hready
    omega

/-- The output of the first instruction. -/
theorem output_first_at (hlayout : Layout source target s) {more : List Hinst}
    (hgood : Good source target s p more) :
    (∃ p', outputAll .first (s.at p) = .ok () (s.at p') ∧ Good source target s p' more ∧
      p'.cursor = p.cursor ∧ p'.current1.type = .noop ∧ p'.current2 = p.current2) ∨
    Stops source s (Paused source target s p more) (outputAll .first (s.at p)) := by
  rcases output_all_at hlayout .first hgood.renders with ⟨p', hp', hend⟩ | hstops
  · have hsecond : p'.current2 = p.current2 := hend.other .second nofun
    have hfirst : p'.current1.type = .noop := hend.type
    have hleft : p'.left more = pending p.current2 ++ more := by
      unfold Progress.left
      rw [pending_of_eq hfirst, List.nil_append, hsecond]
    exact .inl ⟨p', hp', hend.good hgood hleft, hend.cursor, hfirst, hsecond⟩
  · refine .inr (hstops.mono fun src blkno p' _ _ hstop => ?_)
    have hsecond : p'.current2 = p.current2 := hstop.other .second nofun
    have hleft' : p'.left more = pending p'.current1 ++ (pending p.current2 ++ more) := by
      unfold Progress.left
      rw [hsecond]
    exact hstop.paused hgood rfl hleft' (next_of_ne hstop.started) (next_of_ne hstop.asks.1)

/-- The output of the second instruction, when the first one is carried out. -/
theorem output_second_at (hlayout : Layout source target s) {more : List Hinst}
    (hgood : Good source target s p more) (hfirst : p.current1.type = .noop) :
    (∃ p', outputAll .second (s.at p) = .ok () (s.at p') ∧ Good source target s p' more ∧
      p'.cursor = p.cursor ∧ p'.Idle) ∨
    Stops source s (Paused source target s p more) (outputAll .second (s.at p)) := by
  have hleft : ∀ q : Progress, q.current1 = p.current1 →
      q.left more = pending q.current2 ++ more := by
    intro q hsame
    unfold Progress.left
    rw [pending_of_eq (hsame ▸ hfirst), List.nil_append]
  have hrenders := hgood.renders
  rw [hleft p rfl] at hrenders
  rcases output_all_at hlayout .second hrenders with ⟨p', hp', hend⟩ | hstops
  · have hsame : p'.current1 = p.current1 := hend.other .first nofun
    have hsecond : p'.current2.type = .noop := hend.type
    have hleft' : p'.left more = more := by
      rw [hleft p' hsame, pending_of_eq hsecond, List.nil_append]
    exact .inl ⟨p', hp', hend.good hgood hleft', hend.cursor, hsame ▸ hfirst, hsecond⟩
  · refine .inr (hstops.mono fun src blkno p' _ _ hstop => ?_)
    have hsame : p'.current1 = p.current1 := hstop.other .first nofun
    exact hstop.paused hgood (hleft p rfl) (hleft p' hsame) (next_of_eq hfirst)
      (next_of_eq (hsame ▸ hfirst))

/-- A pause later on is one from here. -/
theorem Paused.of_later {p₁ p' : Progress} {more more₁ : List Hinst} {blkno : Nat}
    (h : Paused source target s p₁ more₁ blkno p')
    (hle : weight (p₁.left more₁) ≤ weight (p.left more))
    (hlt : p.next.type ≠ .noop → weight (p₁.left more₁) < weight (p.left more) ∨ p₁.next = p.next) :
    Paused source target s p more blkno p' := by
  obtain ⟨more', hgood, hasks, hle', hlt'⟩ := h
  refine ⟨more', hgood, hasks, hle'.trans hle, fun hnext hready => ?_⟩
  rcases hlt hnext with hless | hsame
  · exact Nat.lt_of_le_of_lt hle' hless
  · rw [hsame] at hlt'
    exact Nat.lt_of_lt_of_le (hlt' hnext hready) hle

/-- With empty slots, nothing is next. -/
theorem next_of_idle (h : p.Idle) : p.next.type = .noop := by rw [next_of_eq h.1, h.2]

/-- With empty slots, the rest is what follows. -/
theorem left_of_idle (h : p.Idle) (more : List Hinst) : p.left more = more := by
  unfold Progress.left
  rw [pending_of_eq h.1, pending_of_eq h.2]
  rfl

/-- What is left weighs as much as the slots and what follows. -/
theorem weight_left (p : Progress) (more : List Hinst) : weight (p.left more) =
    weight (pending p.current1) + weight (pending p.current2) + weight more := by
  unfold Progress.left
  rw [weight_append, weight_append, Nat.add_assoc]

/-- The next instruction takes a step. -/
theorem weight_lt_of_next (h : p.next.type ≠ .noop) (more : List Hinst) :
    weight more < weight (p.left more) := by
  rw [weight_left]
  by_cases hfirst : p.current1.type = .noop
  · rw [next_of_eq hfirst] at h
    rw [weight_pending h]
    omega
  · rw [weight_pending hfirst]
    omega

/-- When the slots are empty and the instructions read, the window has ended. -/
theorem ended_of_good {more : List Hinst} (hgood : Good source target s p more) (hidle : p.Idle)
    (hinst : p.cursor.inst = []) : p.Ended target := by
  obtain ⟨codes, hcodes⟩ := hgood.parsed
  obtain ⟨haddr, rfl⟩ := instructions_nil hcodes hinst
  have hrenders := hgood.renders
  rw [left_of_idle hidle] at hrenders
  obtain ⟨is, hdata, hbuild⟩ := hrenders
  unfold withData at hdata
  split at hdata
  · rename_i hnone
    cases hdata
    exact ⟨Option.some.inj hbuild, hnone, hinst, haddr, hidle⟩
  · cases hdata

/-- The loop of `xd3_decode_emit` ends with the target or stops on the way. -/
theorem emit_loop_out_emits (hlayout : Layout source target s) {more : List Hinst} {rounds : Nat}
    (hgood : Good source target s p more) (hinst : p.cursor.inst.length ≤ rounds)
    (hbusy : ¬ p.Idle → p.cursor.inst.length < rounds) :
    (∃ p', emitLoopOut rounds (s.at p) = .ok () (s.at p') ∧ p'.Ended target) ∨
    Stops source s (Paused source target s p more) (emitLoopOut rounds (s.at p)) := by
  induction rounds generalizing p more with
  | zero =>
      have hidle : p.Idle := by
        by_contra h
        exact Nat.not_lt_zero _ (hbusy h)
      have hnil := List.length_eq_zero_iff.1 (Nat.le_zero.1 hinst)
      exact .inl ⟨p, rfl, ended_of_good hgood hidle hnil⟩
  | succ rounds ih =>
      unfold emitLoopOut
      rw [get_bind]
      show (∃ p', (onlyIf (p.cursor.inst ≠ [] ∨ p.current1.type ≠ .noop ∨ p.current2.type ≠ .noop)
          (onlyIf (p.current1.type = .noop ∧ p.current2.type = .noop) decodeInstruction >>= fun _ =>
            outputAll .first >>= fun _ => outputAll .second >>= fun _ => emitLoopOut rounds)
            (s.at p)) = _ ∧ _) ∨ Stops source s _
        (onlyIf (p.cursor.inst ≠ [] ∨ p.current1.type ≠ .noop ∨ p.current2.type ≠ .noop)
          (onlyIf (p.current1.type = .noop ∧ p.current2.type = .noop) decodeInstruction >>= fun _ =>
            outputAll .first >>= fun _ => outputAll .second >>= fun _ => emitLoopOut rounds)
            (s.at p))
      by_cases hcond : p.cursor.inst ≠ [] ∨ p.current1.type ≠ .noop ∨ p.current2.type ≠ .noop
      · rw [only_if_of hcond]
        have hmore : p.Idle → p.cursor.inst ≠ [] := by
          intro hidle
          rcases hcond with h | h | h
          · exact h
          · exact absurd hidle.1 h
          · exact absurd hidle.2 h
        obtain ⟨p₁, more₁, hparse, hgood₁, hleft₁, hless, hsame⟩ := parse_at hlayout hgood hmore
        have hrest : p₁.cursor.inst.length ≤ rounds := by
          by_cases hidle : p.Idle
          · have := hless hidle
            omega
          · have := hbusy hidle
            rw [hsame hidle]
            omega
        have hnext₁ : p.next.type ≠ .noop → p₁ = p := fun h => hsame fun hidle =>
          h (next_of_idle hidle)
        rw [bind_ok hparse]
        rcases output_first_at hlayout hgood₁ with
          ⟨p₂, hp₂, hgood₂, hcursor₂, hfirst, hsecond⟩ | hstops
        · rw [bind_ok hp₂]
          have hle₂ : weight (p₂.left more₁) ≤ weight (p.left more) := by
            rw [← hleft₁, weight_left, weight_left, hsecond, pending_of_eq hfirst]
            exact Nat.add_le_add_right (Nat.add_le_add_right (Nat.zero_le _) _) _
          rcases output_second_at hlayout hgood₂ hfirst with
            ⟨p₃, hp₃, hgood₃, hcursor₃, hidle⟩ | hstops
          · rw [bind_ok hp₃]
            have hinst₃ : p₃.cursor.inst.length ≤ rounds := by
              rw [hcursor₃, hcursor₂]
              exact hrest
            refine (ih hgood₃ hinst₃ fun h => absurd hidle h).imp_right fun hstops =>
              hstops.mono fun _ _ _ _ _ hpaused => hpaused.of_later ?_ fun hnext => .inl ?_
            · rw [left_of_idle hidle, ← hleft₁, weight_left]
              omega
            · rw [left_of_idle hidle, ← hleft₁]
              exact weight_lt_of_next (by rw [hnext₁ hnext]; exact hnext) more₁
          · refine .inr ((hstops.mono fun _ _ _ _ _ hpaused => hpaused.of_later hle₂ ?_).bind _)
            intro hnext
            by_cases hempty : p₁.current1.type = .noop
            · right
              rw [← hnext₁ hnext, next_of_eq hempty, next_of_eq hfirst, hsecond]
            · left
              rw [← hleft₁, weight_left, weight_left, hsecond, pending_of_eq hfirst,
                weight_pending hempty]
              simp only [weight, total_size_nil, List.length_nil]
              omega
        · refine .inr ((hstops.mono fun _ _ _ _ _ hpaused => hpaused.of_later ?_ ?_).bind _)
          · rw [hleft₁]
          · exact fun hnext => .inr (by rw [hnext₁ hnext])
      · rw [only_if_of_not hcond]
        simp only [not_or, not_not] at hcond
        exact .inl ⟨p, rfl, ended_of_good hgood ⟨hcond.2.1, hcond.2.2⟩ hcond.1⟩

/-- The stream after the last window. -/
def Stream.finished (s : Stream) : Stream :=
  { s with
    decWinbytes := 0
    decState := .finish
    dataSect := { s.dataSect with taken := [] }
    instSect := { s.instSect with taken := [] }
    addrSect := { s.addrSect with taken := [] } }

/-- `xd3_decode_emit` passes its checks with the target, or stops on the way. -/
theorem decode_emit_emits (hlayout : Layout source target s) {more : List Hinst}
    (hgood : Good source target s p more) :
    (∃ p', decodeEmit (s.at p) = .ok .output (s.at p').finished ∧ p'.Ended target) ∨
    Stops source s (Paused source target s p more) (decodeEmit (s.at p)) := by
  unfold decodeEmit
  rw [get_bind]
  rcases emit_loop_out_emits hlayout hgood (Nat.le_succ _) fun _ => Nat.lt_succ_self _ with
    ⟨p', hp', hend⟩ | hstops
  · refine .inl ⟨p', ?_, hend⟩
    have hout : (s.at p').nextOut = target := hend.out
    have hlength : ¬ (s.at p').nextOut.length ≠ (s.at p').decTgtlen := by
      rw [hout]
      exact not_not_intro hlayout.tgtlen.symm
    have hcksum : ¬ ((s.at p').decWinInd &&& VCD_ADLER32 ≠ 0 ∧
        adler32 32 1 (s.at p').nextOut ≠ (s.at p').decAdler32) := by
      rintro ⟨hon, hbad⟩
      rw [hout] at hbad
      exact hbad (hlayout.cksum hon)
    refine (bind_ok hp').trans ?_
    rw [get_bind]
    refine (fail_if_bind hlength).trans ((fail_if_bind ?_).trans ((fail_if_bind ?_).trans
      ((fail_if_bind hcksum).trans rfl)))
    · exact not_not_intro hend.data
    · exact not_not_intro hend.addr
  · exact .inr (hstops.bind _)

end Output

end NamelessCenter.Vcdiff
