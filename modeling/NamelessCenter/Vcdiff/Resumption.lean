import NamelessCenter.Lib.Resumable
import NamelessCenter.Vcdiff.Decoder

/-!
# The decoder gets its input in pieces

Whenever the decoder asks for more input, it goes on with it as if it had been there from the
start: `decode_input_feed`. The only difference is where an access outside of the memory happens,
because the decoder decides by the input at hand whether it copies a section. From this it follows
that the pieces do not matter over whole runs (`input_pieces_eq`).
-/

namespace NamelessCenter.Vcdiff

open Bytes Resumable

/-- More input for the decoder. -/
def feeding : Feeding Ret Stream Bytes where
  feed s more := { s with availIn := s.availIn ++ more }
  UsedUp s := s.availIn = []
  wait := .input

/-- The stream with more input. -/
abbrev Stream.feed (s : Stream) (more : Bytes) : Stream := feeding.feed s more

/-! ## Steps that do not look at the input -/

/-- A step of the decoder that does not look at the input. -/
abbrev Steadily {α : Type} (m : Decode α) : Prop := Steady feeding (fun _ => True) m

/-- A failure does not depend on more input. -/
theorem steadily_fail {α : Type} (code : ErrorCode) (msg : String) :
    Steadily (fail code msg : Decode α) := Steady.throw (by simp [feeding])

/-- Nor does one under a condition. -/
theorem steadily_fail_if (cond : Prop) [Decidable cond] (code : ErrorCode) (msg : String) :
    Steadily (failIf cond code msg) := by
  unfold failIf
  split
  · exact steadily_fail code msg
  · exact Steady.pure ()

/-- Nor does an overrun. -/
theorem steadily_overrun_if (cond : Prop) [Decidable cond] : Steadily (overrunIf cond) := by
  unfold overrunIf
  split
  · exact Steady.throw (by simp [feeding])
  · exact Steady.pure ()

/-- Nor does an action under a condition. -/
theorem steadily_only_if (cond : Prop) [Decidable cond] {action : Decode Unit}
    (h : Steadily action) : Steadily (onlyIf cond action) := by
  unfold onlyIf
  split
  · exact h
  · exact Steady.pure ()

/-- Nor do steps in a row. -/
theorem steadily_bind {α β : Type} {m : Decode α} {k : α → Decode β} (hm : Steadily m)
    (hk : ∀ a, Steadily (k a)) : Steadily (m >>= k) := hm.bind hk fun _ _ _ _ _ => trivial

/-- Nor does reading what more input does not change. -/
theorem steadily_get {α : Type} {f : Stream → Decode α} (hf : ∀ s more, f (s.feed more) = f s)
    (h : ∀ s, Steadily (f s)) : Steadily (get >>= f) := Steady.get hf fun s _ => h s

/-- Nor does changing it. -/
theorem steadily_modify {g : Stream → Stream} (hg : ∀ s more, g (s.feed more) = (g s).feed more) :
    Steadily (modify g) := Steady.modify hg

/-- The size of an instruction is read from its section. -/
theorem steadily_read_inst_size : Steadily readInstSize := by
  intro s _
  unfold readInstSize
  cases h : readSize s.instSect.buf with
  | ok read => simp [feeding, Feeding.feedResult, h]
  | error msg => simp [feeding, Feeding.feedResult, h]

/-- So is an address. -/
theorem steadily_decode_addr (mode : Nat) : Steadily (decodeAddr mode) := by
  intro s _
  unfold decodeAddr
  cases h : decodeAddress s.acache s.decPosition mode s.addrSect.buf with
  | ok decoded => simp [feeding, Feeding.feedResult, h]
  | error msg => simp [feeding, Feeding.feedResult, h]

/-- So is a code. -/
theorem steadily_read_code : Steadily readCode := by
  intro s _
  unfold readCode
  cases h : s.instSect.buf with
  | nil => simp [feeding, Feeding.feedResult, h]
  | cons code rest => simp [feeding, Feeding.feedResult, h]

/-- A copy inside the target reads no input. -/
theorem steadily_put_overlap (src n : Nat) : Steadily (putOverlap src n) := by
  intro s _
  unfold putOverlap
  cases h : Copies.extend s.nextOut src n with
  | none => simp [feeding, Feeding.feedResult, h]
  | some nextOut => simp [feeding, Feeding.feedResult, h]

/-- Parsing an instruction reads the sections only. -/
theorem steadily_decode_parse_halfinst (inst : Hinst) : Steadily (decodeParseHalfinst inst) := by
  refine steadily_bind ?_ fun size => steadily_bind ?_ fun addr => steadily_get (fun _ _ => rfl)
    fun s => steadily_bind (steadily_fail_if _ _ _) fun _ =>
      steadily_bind (steadily_modify fun _ _ => rfl) fun _ => Steady.pure _
  · unfold halfSize
    split
    · exact steadily_read_inst_size
    · exact Steady.pure _
  · unfold halfAddr
    split
    · refine steadily_bind (steadily_decode_addr _) fun addr => steadily_get (fun _ _ => rfl)
        fun s => steadily_bind (steadily_fail_if _ _ _) fun _ =>
          steadily_bind (steadily_fail_if _ _ _) fun _ => Steady.pure _
    · exact Steady.pure _

/-- So does parsing that of a slot. -/
theorem steadily_parse_slot (slot : Slot) : Steadily (parseSlot slot) := by
  cases slot with
  | first | second =>
      exact steadily_get (fun _ _ => rfl) fun s => steadily_only_if _
        (steadily_bind (steadily_decode_parse_halfinst _) fun _ => steadily_modify fun _ _ => rfl)

/-- So does parsing both. -/
theorem steadily_decode_instruction : Steadily decodeInstruction :=
  steadily_bind steadily_read_code fun _ => steadily_bind (steadily_modify fun _ _ => rfl)
    fun _ => steadily_bind (steadily_parse_slot .first) fun _ => steadily_parse_slot .second

/-- Looking for room reads no input. -/
theorem steadily_room (n : Nat) : Steadily (room n) :=
  steadily_get (fun _ _ => rfl) fun _ => steadily_overrun_if _

/-- Nor does output. -/
theorem steadily_put_out (bs : Bytes) : Steadily (putOut bs) := steadily_modify fun _ _ => rfl

/-- Nor does a copy from the source. -/
theorem steadily_output_source (src : Source) (inst : Hinst) :
    Steadily (outputSource src inst) := by
  unfold outputSource
  refine steadily_bind ?_ fun _ => steadily_bind (steadily_fail_if _ _ _) fun _ =>
    steadily_bind ?_ fun _ => Steady.pure _
  · unfold getblk
    split
    · exact steadily_bind (steadily_modify fun _ _ => rfl) fun _ => Steady.throw (by simp [feeding])
    · exact Steady.pure _
  · exact steadily_bind (steadily_overrun_if _) fun _ => steadily_bind (steadily_room _)
      fun _ => steadily_put_out _

/-- Nor does any instruction. -/
theorem steadily_decode_output_halfinst (slot : Slot) (inst : Hinst) :
    Steadily (decodeOutputHalfinst slot inst) := by
  refine steadily_get (fun _ _ => rfl) fun s => ?_
  cases inst.type with
  | noop => exact Steady.pure _
  | run =>
      cases s.dataSect.buf with
      | nil => exact steadily_fail _ _
      | cons b rest =>
          exact steadily_bind (steadily_room _) fun _ => steadily_bind (steadily_put_out _)
            fun _ => steadily_bind (steadily_modify fun _ _ => rfl) fun _ => Steady.pure _
  | add =>
      exact steadily_bind (steadily_fail_if _ _ _) fun _ => steadily_bind (steadily_room _)
        fun _ => steadily_bind (steadily_put_out _)
          fun _ => steadily_bind (steadily_modify fun _ _ => rfl) fun _ => Steady.pure _
  | cpy mode =>
      by_cases hsrc : inst.addr < s.decCpylen
      · simp only [if_pos hsrc]
        split
        · cases slot with
          | first | second =>
              exact steadily_bind (steadily_modify fun _ _ => rfl) fun _ => steadily_fail _ _
        · cases s.src with
          | none => exact Steady.throw (by simp [feeding])
          | some src => exact steadily_output_source src inst
      · simp only [if_neg hsrc]
        exact steadily_bind (steadily_room _) fun _ => steadily_bind (steadily_put_overlap _ _)
          fun _ => Steady.pure _

/-- Nor does that of a slot, until it is done. -/
theorem steadily_output_slot (slot : Slot) (rounds : Nat) : Steadily (outputSlot slot rounds) := by
  induction rounds with
  | zero => exact Steady.pure _
  | succ rounds ih =>
      cases slot with
      | first | second =>
          exact steadily_get (fun _ _ => rfl) fun s => steadily_only_if _
            (steadily_bind (steadily_decode_output_halfinst _ _) fun _ =>
              steadily_bind (steadily_modify fun _ _ => rfl) fun _ => ih)

/-- Nor do both. -/
theorem steadily_output_all (slot : Slot) : Steadily (outputAll slot) := by
  cases slot with
  | first | second => exact steadily_get (fun _ _ => rfl) fun s => steadily_output_slot _ _

/-- Nor does the loop over the instructions. -/
theorem steadily_emit_loop_out (rounds : Nat) : Steadily (emitLoopOut rounds) := by
  induction rounds with
  | zero => exact Steady.pure _
  | succ rounds ih =>
      exact steadily_get (fun _ _ => rfl) fun s => steadily_only_if _
        (steadily_bind (steadily_only_if _ steadily_decode_instruction) fun _ =>
          steadily_bind (steadily_output_all .first) fun _ =>
            steadily_bind (steadily_output_all .second) fun _ => ih)

/-- Nor does the emission of a window. -/
theorem steadily_decode_emit : Steadily decodeEmit := by
  refine steadily_get (fun _ _ => rfl) fun s => steadily_bind (steadily_emit_loop_out _) fun _ =>
    steadily_get (fun _ _ => rfl) fun t => ?_
  exact steadily_bind (steadily_fail_if _ _ _) fun _ => steadily_bind (steadily_fail_if _ _ _)
    fun _ => steadily_bind (steadily_fail_if _ _ _) fun _ => steadily_bind (steadily_fail_if _ _ _)
      fun _ => steadily_bind (steadily_modify fun _ _ => rfl) fun _ => Steady.pure _

/-- Nor does it with its source located. -/
theorem steadily_case_emit : Steadily caseEmit := by
  refine steadily_get (fun _ _ => rfl) fun s => ?_
  split
  · cases s.src with
    | none => exact steadily_fail _ _
    | some src =>
        exact steadily_bind (steadily_modify fun _ _ => rfl) fun _ => steadily_decode_emit
  · exact steadily_decode_emit

/-- Swapping the output buffers does not touch the input. -/
theorem swapped_feed (s : Stream) (more : Bytes) :
    (s.feed more).swapped = s.swapped.feed more := by
  have hcond : ((s.feed more).decLastwin = none) = (s.decLastwin = none) := rfl
  unfold Stream.swapped
  simp only [hcond]
  split <;> rfl

/-- The end of a window reads no input. -/
theorem steadily_case_finish : Steadily caseFinish :=
  steadily_get (fun _ _ => rfl) fun _ =>
    steadily_bind (steadily_only_if _ (steadily_modify swapped_feed)) fun _ =>
      steadily_bind (steadily_modify fun _ _ => rfl) fun _ => Steady.pure _

/-- Nor does the choice of its target buffer. -/
theorem steadily_setup_target : Steadily setupTarget :=
  steadily_get (fun _ _ => rfl) fun _ => steadily_bind (steadily_fail_if _ _ _) fun _ =>
    steadily_bind (steadily_overrun_if _) fun _ =>
      steadily_only_if _ (steadily_modify fun _ _ => rfl)

/-- Nor does setting up its buffers. -/
theorem steadily_decode_setup_buffers : Steadily decodeSetupBuffers :=
  steadily_get (fun _ _ => rfl) fun _ => steadily_bind (steadily_only_if _ steadily_setup_target)
    fun _ => steadily_get (fun _ _ => rfl) fun _ => steadily_only_if _
      (steadily_modify fun _ _ => rfl)

/-! ## The sections -/

/-- The bytes that a section lacks. -/
def Desect.missing (sect : Desect) : Nat := sect.size - sect.taken.length

/-- The bytes of the sections that are still to be read. -/
def Stream.unread (s : Stream) : Nat :=
  match s.decState with
  | .data => s.dataSect.missing + s.instSect.missing + s.addrSect.missing
  | .inst => s.instSect.missing + s.addrSect.missing
  | .addr => s.addrSect.missing
  | _ => 0

/-- The decoder is reading the sections. -/
def InSections (s : Stream) : Prop :=
  s.decState = .data ∨ s.decState = .inst ∨ s.decState = .addr

/-- The lengths of the sections do not wrap around in their sum, not even when they are rounded up
to the size of an allocation, and `dec_winbytes` is the number of bytes that were read of them. -/
structure Fits (s : Stream) : Prop where
  total : s.instSect.size + s.addrSect.size + s.dataSect.size + XD3_ALLOCSIZE ≤ 2 ^ 32
  count : s.decWinbytes + s.unread = s.instSect.size + s.addrSect.size + s.dataSect.size

/-- The lengths do not wrap around in their sum. -/
theorem Fits.total_lt {s : Stream} (h : Fits s) :
    s.instSect.size + s.addrSect.size + s.dataSect.size < 2 ^ 32 := by
  have htotal := h.total
  unfold XD3_ALLOCSIZE at htotal
  omega

/-- What was read of the sections has 32 bits. -/
theorem Fits.winbytes_lt {s : Stream} (h : Fits s) : s.decWinbytes < 2 ^ 32 := by
  have htotal := h.total_lt
  have hcount := h.count
  omega

/-- Every section fits its allocation. -/
theorem Fits.size_le {s : Stream} (h : Fits s) (which : Section) :
    (s.sect which).size ≤ roundBlksize (s.sect which).size XD3_ALLOCSIZE := by
  have htotal := h.total
  refine le_round_blksize ?_
  cases which with
  | data | inst | addr =>
      simp only [Stream.sect]
      omega

/-- Nothing is copied only if the rest of the sections is in the input. -/
theorem Fits.unread_le {s : Stream} (h : Fits s) (hcopies : s.copies = false) :
    s.unread ≤ s.availIn.length := by
  have htotal := h.total_lt
  have hcount := h.count
  unfold Stream.copies usizeSub at hcopies
  simp only [ne_eq, decide_not, Bool.not_eq_false', decide_eq_true_eq] at hcopies
  omega

/-- The state in which a section is read, and the one behind it. -/
def Section.label : Section → DecState
  | .data => .data
  | .inst => .inst
  | .addr => .addr

/-- What is decoded behind a section. -/
def Section.next : Section → DecState
  | .data => .inst
  | .inst => .addr
  | .addr => .emit

/-- `k` bytes of the input taken for a section. -/
def Stream.advance (s : Stream) (which : Section) (k : Nat) : Stream :=
  { s with
    availIn := s.availIn.drop k
    decWinbytes := (s.decWinbytes + k) % 2 ^ 32 }.setSect
    { s.sect which with taken := (s.sect which).taken ++ s.availIn.take k } which

/-- A section that is complete. -/
def Stream.close (s : Stream) (which : Section) (nstate : DecState) : Stream :=
  { s with decState := nstate }.setSect
    { s.sect which with taken := [], buf := (s.sect which).taken } which

section Sections

variable (s : Stream) (which : Section) (sect : Desect) (nstate : DecState) (more : Bytes)

/-- The section is the one that was set. -/
@[simp] theorem sect_set_sect : (s.setSect sect which).sect which = sect := by cases which <;> rfl

/-- More input does not change it. -/
@[simp] theorem sect_feed : (s.feed more).sect which = s.sect which := by cases which <;> rfl

/-- Setting it does not change the input. -/
@[simp] theorem avail_in_set_sect : (s.setSect sect which).availIn = s.availIn := by
  cases which <;> rfl

/-- Nor does it change the state. -/
@[simp] theorem dec_state_set_sect : (s.setSect sect which).decState = s.decState := by
  cases which <;> rfl

/-- The input goes behind what there is. -/
@[simp] theorem avail_in_feed : (s.feed more).availIn = s.availIn ++ more := rfl

/-- The section takes the first bytes of the input. -/
@[simp] theorem taken_advance (k : Nat) :
    ((s.advance which k).sect which).taken = (s.sect which).taken ++ s.availIn.take k := by
  unfold Stream.advance
  rw [sect_set_sect]

/-- Its size stays. -/
@[simp] theorem size_advance (k : Nat) :
    ((s.advance which k).sect which).size = (s.sect which).size := by
  unfold Stream.advance
  rw [sect_set_sect]

/-- They are dropped from the input. -/
@[simp] theorem avail_in_advance (k : Nat) : (s.advance which k).availIn = s.availIn.drop k := by
  unfold Stream.advance
  rw [avail_in_set_sect]

/-- The state stays. -/
@[simp] theorem dec_state_advance (k : Nat) : (s.advance which k).decState = s.decState := by
  unfold Stream.advance
  rw [dec_state_set_sect]

/-- A section that is closed leads to the next state. -/
@[simp] theorem dec_state_close : (s.close which nstate).decState = nstate := by
  unfold Stream.close
  rw [dec_state_set_sect]

/-- More input can be given before or behind the end of a section. -/
theorem close_feed : (s.feed more).close which nstate = (s.close which nstate).feed more := by
  cases which <;> rfl

/-- More input can be given before or behind an advance. -/
theorem advance_feed {k : Nat} (hk : k ≤ s.availIn.length) :
    (s.feed more).advance which k = (s.advance which k).feed more := by
  have htake : (s.feed more).availIn.take k = s.availIn.take k := List.take_append_of_le_length hk
  have hdrop : (s.feed more).availIn.drop k = s.availIn.drop k ++ more :=
    List.drop_append_of_le_length hk
  unfold Stream.advance
  rw [htake, hdrop]
  cases which <;> rfl

/-- Taking nothing changes nothing. -/
theorem advance_zero (h : s.decWinbytes < 2 ^ 32) : s.advance which 0 = s := by
  have hmod : (s.decWinbytes + 0) % 2 ^ 32 = s.decWinbytes := Nat.mod_eq_of_lt h
  unfold Stream.advance
  rw [hmod, List.drop_zero, List.take_zero, List.append_nil]
  cases which <;> rfl

/-- Bytes can be taken in two parts. -/
theorem advance_advance (j k : Nat) :
    (s.advance which j).advance which k = s.advance which (j + k) := by
  have htake : s.availIn.take j ++ (s.availIn.drop j).take k = s.availIn.take (j + k) :=
    List.take_add.symm
  cases which <;>
    simp [Stream.advance, Stream.setSect, Stream.sect, List.append_assoc, List.drop_drop, htake,
      Nat.add_assoc]

end Sections

/-- More input keeps the lengths. -/
theorem Fits.feed {s : Stream} (h : Fits s) (more : Bytes) : Fits (s.feed more) :=
  ⟨h.total, h.count⟩

/-- So does an advance inside the section. -/
theorem Fits.advance {s : Stream} (h : Fits s) {which : Section} (hstate : s.decState = which.label)
    {k : Nat} (hmissing : k ≤ (s.sect which).missing) (hk : k ≤ s.availIn.length) :
    Fits (s.advance which k) := by
  have htotal := h.total_lt
  have hcount := h.count
  have hlen : (s.availIn.take k).length = k := List.length_take_of_le hk
  cases which with
  | data | inst | addr =>
      simp only [Stream.unread, hstate, Section.label, Desect.missing, Stream.sect]
        at hcount hmissing
      refine ⟨h.total, ?_⟩
      simp only [Stream.advance, Stream.setSect, Stream.sect, Stream.unread, hstate, Section.label,
        Desect.missing, List.length_append, hlen]
      omega

/-- So does its end. -/
theorem Fits.close {s : Stream} (h : Fits s) {which : Section} (hstate : s.decState = which.label)
    (hfull : (s.sect which).missing = 0) : Fits (s.close which which.next) := by
  have hcount := h.count
  cases which with
  | data | inst | addr =>
      simp only [Stream.unread, hstate, Section.label, Desect.missing, Stream.sect] at hcount hfull
      refine ⟨h.total, ?_⟩
      simp only [Stream.close, Stream.setSect, Stream.sect, Stream.unread, Section.next,
        Desect.missing]
      omega

/-- The bytes that are taken for a section. -/
def Stream.taking (s : Stream) (which : Section) : Nat :=
  min (s.sect which).missing s.availIn.length

/-- What is read of a section fits its allocation. -/
theorem Fits.taken_le {s : Stream} (h : Fits s) {which : Section}
    (hmore : (s.sect which).taken.length < (s.sect which).size) :
    (s.sect which).taken.length + min ((s.sect which).size - (s.sect which).taken.length)
      s.availIn.length ≤ roundBlksize (s.sect which).size XD3_ALLOCSIZE := by
  have hsize := h.size_le which
  omega

/-- A section that is copied. -/
theorem decode_section_eq {s : Stream} (h : Fits s) (which : Section) (nstate : DecState) :
    decodeSection which nstate true s =
      if s.taking which < (s.sect which).missing then
        .error .input (s.advance which (s.taking which))
      else .ok () ((s.advance which (s.taking which)).close which nstate) := by
  have hlen : ((s.sect which).taken ++ s.availIn.take
      (min ((s.sect which).size - (s.sect which).taken.length) s.availIn.length)).length =
      (s.sect which).taken.length + s.taking which := by
    rw [List.length_append, List.length_take]
    unfold Stream.taking Desect.missing
    omega
  unfold decodeSection
  by_cases hinp : (s.sect which).taken.length < (s.sect which).size ∧ s.availIn = []
  · have hzero : s.taking which = 0 := by
      unfold Stream.taking
      rw [hinp.2]
      exact Nat.min_zero _
    have hless : 0 < (s.sect which).missing := Nat.sub_pos_of_lt hinp.1
    simp only [if_pos hinp]
    rw [hzero, if_pos hless, advance_zero s which h.winbytes_lt]
  · have hcopy : ¬ ((s.sect which).taken.length < (s.sect which).size ∧ true = false ∧
        (s.sect which).taken = [] ∧ s.availIn.length < (s.sect which).size) := nofun
    have halloc : ¬ ((s.sect which).taken.length < (s.sect which).size ∧
        (true = true ∨ (s.sect which).taken ≠ []) ∧
        roundBlksize (s.sect which).size XD3_ALLOCSIZE < (s.sect which).taken.length +
          min ((s.sect which).size - (s.sect which).taken.length) s.availIn.length) :=
      fun hover => absurd (h.taken_le hover.1) (Nat.not_le_of_lt hover.2.2)
    have hiff : (s.sect which).taken.length + s.taking which < (s.sect which).size ↔
        s.taking which < (s.sect which).missing := by
      unfold Stream.taking Desect.missing
      omega
    refine (if_neg hinp).trans ((if_neg hcopy).trans ((if_neg halloc).trans ?_))
    simp only [hlen, hiff]
    split
    · rfl
    · cases which <;> rfl

/-- Whether a section is copied does not matter if it is in the input completely. -/
theorem decode_section_copy {s : Stream} (hfits : Fits s) {which : Section} {copy : Bool}
    (nstate : DecState) (h : copy = false → (s.sect which).missing ≤ s.availIn.length) :
    decodeSection which nstate copy s = decodeSection which nstate true s := by
  unfold decodeSection
  have halloc : ∀ copy, ¬ ((s.sect which).taken.length < (s.sect which).size ∧
      (copy = true ∨ (s.sect which).taken ≠ []) ∧
      roundBlksize (s.sect which).size XD3_ALLOCSIZE < (s.sect which).taken.length +
        min ((s.sect which).size - (s.sect which).taken.length) s.availIn.length) :=
    fun copy hover => absurd (hfits.taken_le hover.1) (Nat.not_le_of_lt hover.2.2)
  by_cases hroom : (s.sect which).taken.length < (s.sect which).size ∧ copy = false ∧
      (s.sect which).taken = [] ∧ s.availIn.length < (s.sect which).size
  · obtain ⟨-, hcopy, hnil, hshort⟩ := hroom
    have := h hcopy
    rw [Desect.missing, hnil, List.length_nil] at this
    omega
  · have htrue : ¬ ((s.sect which).taken.length < (s.sect which).size ∧ true = false ∧
        (s.sect which).taken = [] ∧ s.availIn.length < (s.sect which).size) := nofun
    by_cases hinp : (s.sect which).taken.length < (s.sect which).size ∧ s.availIn = []
    · exact (if_pos hinp).trans (if_pos hinp).symm
    · refine (if_neg hinp).trans ((if_neg hroom).trans ((if_neg (halloc copy)).trans ?_))
      exact ((if_neg hinp).trans ((if_neg htrue).trans (if_neg (halloc true)))).symm

/-- What was taken is read. -/
theorem unread_advance {s : Stream} (which : Section) (hstate : s.decState = which.label) {k : Nat}
    (hmissing : k ≤ (s.sect which).missing) (hk : k ≤ s.availIn.length) :
    (s.advance which k).unread + k = s.unread := by
  have hlen : (s.availIn.take k).length = k := List.length_take_of_le hk
  cases which with
  | data | inst | addr =>
      simp only [Desect.missing, Stream.sect] at hmissing
      simp only [Stream.advance, Stream.setSect, Stream.sect, Stream.unread, hstate, Section.label,
        Desect.missing, List.length_append, hlen]
      omega

/-- A section that is full has nothing unread. -/
theorem unread_close {s : Stream} (which : Section) (hstate : s.decState = which.label)
    (hfull : (s.sect which).missing = 0) : (s.close which which.next).unread = s.unread := by
  cases which with
  | data | inst | addr =>
      simp only [Desect.missing, Stream.sect] at hfull
      simp only [Stream.close, Stream.setSect, Stream.sect, Stream.unread, hstate, Section.label,
        Section.next, Desect.missing]
      omega

/-- What was taken is missing no longer. -/
theorem missing_advance {s : Stream} (which : Section) {k : Nat} (hk : k ≤ s.availIn.length) :
    ((s.advance which k).sect which).missing = (s.sect which).missing - k := by
  unfold Desect.missing
  rw [taken_advance, size_advance, List.length_append, List.length_take_of_le hk, Nat.sub_sub]

/-- No more is taken than is missing, nor than there is. -/
theorem taking_le (s : Stream) (which : Section) :
    s.taking which ≤ (s.sect which).missing ∧ s.taking which ≤ s.availIn.length :=
  ⟨Nat.min_le_left _ _, Nat.min_le_right _ _⟩

/-- The stream behind a section. -/
theorem decode_section_done {s s' : Stream} (h : Fits s) {which : Section}
    (hstate : s.decState = which.label)
    (hdone : decodeSection which which.next true s = .ok () s') :
    Fits s' ∧ s'.decState = which.next ∧
      (s.unread ≤ s.availIn.length → s'.unread ≤ s'.availIn.length) := by
  obtain ⟨hmissing, hk⟩ := taking_le s which
  rw [decode_section_eq h] at hdone
  split at hdone
  · cases hdone
  · cases hdone
    have hstate' : (s.advance which (s.taking which)).decState = which.label := by
      rw [dec_state_advance, hstate]
    have hfull : ((s.advance which (s.taking which)).sect which).missing = 0 := by
      rw [missing_advance which hk]
      omega
    refine ⟨(h.advance hstate hmissing hk).close hstate' hfull, by simp, fun hle => ?_⟩
    have hunread := unread_advance which hstate hmissing hk
    have havail : ((s.advance which (s.taking which)).close which which.next).availIn.length =
        s.availIn.length - s.taking which := by
      unfold Stream.close
      rw [avail_in_set_sect]
      show (s.advance which (s.taking which)).availIn.length = _
      rw [avail_in_advance, List.length_drop]
    rw [unread_close which hstate' hfull, havail]
    omega

/-- The stream in front of the rest of a section. -/
theorem decode_section_wait {s s' : Stream} (h : Fits s) {which : Section}
    (hstate : s.decState = which.label)
    (hwait : decodeSection which which.next true s = .error .input s') :
    Fits s' ∧ s'.decState = which.label := by
  obtain ⟨hmissing, hk⟩ := taking_le s which
  rw [decode_section_eq h] at hwait
  split at hwait
  · cases hwait
    exact ⟨h.advance hstate hmissing hk, by rw [dec_state_advance, hstate]⟩
  · cases hwait

/-- A section that waits is taken up where it stopped. -/
theorem decode_section_resumes (which : Section) :
    Resumes feeding (fun s => Fits s ∧ s.decState = which.label)
      (decodeSection which which.next true) (decodeSection which which.next true) := by
  rintro s ⟨hfits, hstate⟩ more
  obtain ⟨hmissing, hk⟩ := taking_le s which
  have hone := decode_section_eq hfits which which.next
  have hlong := decode_section_eq (hfits.feed more) which which.next
  rw [sect_feed] at hlong
  by_cases hmore : s.taking which < (s.sect which).missing
  · rw [if_pos hmore] at hone
    have hall : s.taking which = s.availIn.length := by
      unfold Stream.taking at hmore ⊢
      omega
    refine .inl ⟨_, hone, ?_, ?_⟩
    · show (s.advance which (s.taking which)).availIn = []
      rw [avail_in_advance, hall, List.drop_length]
    · have hfed := advance_feed s which more hk
      have hwait := (hfits.advance hstate hmissing hk).feed more
      have hresume := decode_section_eq hwait which which.next
      have htaking : s.taking which + ((s.advance which (s.taking which)).feed more).taking which =
          (s.feed more).taking which := by
        unfold Stream.taking at hall ⊢
        rw [sect_feed, sect_feed, missing_advance which (by omega), avail_in_feed, avail_in_feed,
          avail_in_advance, List.length_append, List.length_append, List.length_drop]
        omega
      show decodeSection which which.next true (s.feed more) = _
      rw [hlong]
      refine Eq.trans ?_ (Eq.symm hresume)
      have hiff : (s.feed more).taking which < (s.sect which).missing ↔
          ((s.advance which (s.taking which)).feed more).taking which <
            (s.sect which).missing - s.taking which := by omega
      have hadvance : (s.feed more).advance which ((s.feed more).taking which) =
          ((s.advance which (s.taking which)).feed more).advance which
            (((s.advance which (s.taking which)).feed more).taking which) := by
        rw [← htaking, ← advance_advance, hfed]
      rw [sect_feed, missing_advance which hk, hadvance]
      simp only [hiff]
  · rw [if_neg hmore] at hone
    have hsame : (s.feed more).taking which = s.taking which := by
      unfold Stream.taking at hmore ⊢
      rw [sect_feed, avail_in_feed, List.length_append]
      omega
    refine .inr ⟨fun t ht => ?_, ?_⟩
    · cases hone.symm.trans ht
    · show decodeSection which which.next true (s.feed more) = _
      rw [hlong, hsame, if_neg hmore, hone, advance_feed s which more hk, close_feed]
      rfl

/-! ## All sections -/

/-- The sections from the one on that the state names, as if they were copied. -/
def copySections : Decode Unit := fun s => sectionCase true s.decState s

/-- A section is read in front of others. -/
structure Chain (which : Section) (rest : Bool → Decode Unit) : Prop where
  case_eq : ∀ copy, sectionCase copy which.label =
    decodeSection which which.next copy >>= fun _ => rest copy
  resumes : Resumes feeding (fun s => Fits s ∧ s.decState = which.next) (rest true) copySections
  wait : ∀ s s', Fits s → s.decState = which.next → rest true s = .error .input s' →
    Fits s' ∧ InSections s'
  copy : ∀ s copy, Fits s → s.decState = which.next →
    (copy = false → s.unread ≤ s.availIn.length) → rest copy s = rest true s

/-- In the state of a section, the stream is inside the sections. -/
theorem in_sections_label {s : Stream} (which : Section) (h : s.decState = which.label) :
    InSections s := by
  cases which with
  | data => exact .inl h
  | inst => exact .inr (.inl h)
  | addr => exact .inr (.inr h)

/-- What a section is missing is unread. -/
theorem missing_le_unread {s : Stream} {which : Section} (h : s.decState = which.label) :
    (s.sect which).missing ≤ s.unread := by
  cases which with
  | data | inst | addr =>
      simp only [Stream.unread, h, Section.label, Stream.sect]
      omega

section Chain

variable {which : Section} {rest : Bool → Decode Unit}

/-- The sections from this one on are taken up where they stopped. -/
theorem Chain.section_case_resumes (h : Chain which rest) :
    Resumes feeding (fun s => Fits s ∧ s.decState = which.label) (sectionCase true which.label)
      copySections := by
  rw [h.case_eq]
  refine (decode_section_resumes which).bind (fun _ => h.resumes) ?_ ?_
  · rintro s _ s' ⟨hfits, hstate⟩ hdone
    obtain ⟨hfits', hstate', -⟩ := decode_section_done hfits hstate hdone
    exact ⟨hfits', hstate'⟩
  · rintro s s' ⟨hfits, hstate⟩ hwait more
    obtain ⟨-, hlabel⟩ := decode_section_wait hfits hstate hwait
    show _ = sectionCase true s'.decState (s'.feed more)
    rw [hlabel, h.case_eq]

/-- While they wait, the stream stays inside them. -/
theorem Chain.section_case_wait (h : Chain which rest) {s s' : Stream} (hfits : Fits s)
    (hstate : s.decState = which.label)
    (hwait : sectionCase true which.label s = .error .input s') : Fits s' ∧ InSections s' := by
  rw [h.case_eq] at hwait
  cases hend : decodeSection which which.next true s with
  | ok u t =>
      rw [bind_ok hend] at hwait
      obtain ⟨hfits', hstate', -⟩ := decode_section_done hfits hstate hend
      exact h.wait t s' hfits' hstate' hwait
  | error e t =>
      rw [bind_error hend] at hwait
      cases hwait
      obtain ⟨hfits', hstate'⟩ := decode_section_wait hfits hstate hend
      exact ⟨hfits', in_sections_label which hstate'⟩

/-- With all of the input there, it does not matter whether it is copied. -/
theorem Chain.section_case_copy (h : Chain which rest) {s : Stream} {copy : Bool} (hfits : Fits s)
    (hstate : s.decState = which.label) (hcopy : copy = false → s.unread ≤ s.availIn.length) :
    sectionCase copy which.label s = sectionCase true which.label s := by
  have hone : decodeSection which which.next copy s = decodeSection which which.next true s :=
    decode_section_copy hfits which.next fun hno => (missing_le_unread hstate).trans (hcopy hno)
  rw [h.case_eq, h.case_eq]
  cases hend : decodeSection which which.next true s with
  | ok u t =>
      obtain ⟨hfits', hstate', hle⟩ := decode_section_done hfits hstate hend
      rw [bind_ok (hone.trans hend), bind_ok hend]
      exact h.copy t copy hfits' hstate' fun hno => hle (hcopy hno)
  | error e t => rw [bind_error (hone.trans hend), bind_error hend]

end Chain

/-- The address section is the last one. -/
theorem chain_addr : Chain .addr fun _ => pure () where
  case_eq copy := Eq.symm (bind_pure_unit (x := decodeSection .addr .emit copy))
  resumes := (Steady.pure ()).resumes _
  wait _ _ _ _ hwait := by cases hwait
  copy _ _ _ _ _ := rfl

/-- It follows the instruction section. -/
theorem chain_inst : Chain .inst fun copy => sectionCase copy .addr where
  case_eq _ := rfl
  resumes := chain_addr.section_case_resumes
  wait _ _ := chain_addr.section_case_wait
  copy _ _ := chain_addr.section_case_copy

/-- The data section is the first one. -/
theorem chain_data : Chain .data fun copy => sectionCase copy .inst where
  case_eq _ := rfl
  resumes := chain_inst.section_case_resumes
  wait _ _ := chain_inst.section_case_wait
  copy _ _ := chain_inst.section_case_copy

/-- Inside the sections, the stream is in one of them. -/
theorem chain_of_in_sections {s : Stream} (h : InSections s) :
    ∃ which rest, Chain which rest ∧ s.decState = which.label := by
  rcases h with hdata | hinst | haddr
  · exact ⟨.data, _, chain_data, hdata⟩
  · exact ⟨.inst, _, chain_inst, hinst⟩
  · exact ⟨.addr, _, chain_addr, haddr⟩

/-- The sections are taken up where they stopped. -/
theorem copy_sections_resumes :
    Resumes feeding (fun s => Fits s ∧ InSections s) copySections copySections := by
  rintro s ⟨hfits, hsect⟩ more
  obtain ⟨which, rest, hchain, hstate⟩ := chain_of_in_sections hsect
  have hresume := hchain.section_case_resumes s ⟨hfits, hstate⟩ more
  rw [← hstate] at hresume
  exact hresume

/-- While they wait, the stream stays inside them. -/
theorem copy_sections_wait {s s' : Stream} (hfits : Fits s) (hsect : InSections s)
    (hwait : copySections s = .error .input s') : Fits s' ∧ InSections s' := by
  obtain ⟨which, rest, hchain, hstate⟩ := chain_of_in_sections hsect
  unfold copySections at hwait
  rw [hstate] at hwait
  exact hchain.section_case_wait hfits hstate hwait

/-- The part of `xd3_decode_sections` that reads. -/
def readSections : Decode Unit := do
  let s ← get
  sectionCase s.copies s.decState

/-- Reading the sections is the same as copying them. -/
theorem read_sections_eq {s : Stream} (hfits : Fits s) (hsect : InSections s) :
    readSections s = copySections s := by
  obtain ⟨which, rest, hchain, hstate⟩ := chain_of_in_sections hsect
  show sectionCase s.copies s.decState s = sectionCase true s.decState s
  rw [hstate]
  exact hchain.section_case_copy hfits hstate hfits.unread_le

/-! ## Fields and buffers -/

/-- A function that decodes a field goes on with it where the input ended, and changes nothing else
of the stream. -/
structure Field (decode : Decode Nat) : Prop where
  resumes : Resumes feeding (fun _ => True) decode decode
  after : ∀ s s', ((∃ x, decode s = .ok x s') ∨ decode s = .error .input s') →
    ∃ inp p q, s' = { s with availIn := inp, dec32part := p, dec64part := q }

/-- A byte is a field of a head. -/
theorem field_decode_byte : Field decodeByte where
  resumes s _ more := by
    unfold decodeByte
    cases h : s.availIn with
    | nil => exact .inl ⟨s, by simp [feeding], h, rfl⟩
    | cons b rest => exact .inr (by simp [feeding, Feeding.feedResult, h])
  after s s' h := by
    unfold decodeByte at h
    cases hinp : s.availIn with
    | nil =>
        simp only [hinp, reduceCtorEq, exists_false, false_or, EStateM.Result.error.injEq,
          true_and] at h
        exact ⟨s'.availIn, s'.dec32part, s'.dec64part, by rw [h]⟩
    | cons b rest =>
        simp only [hinp, EStateM.Result.ok.injEq, reduceCtorEq, or_false] at h
        obtain ⟨x, -, rfl⟩ := h
        exact ⟨rest, s.dec32part, s.dec64part, rfl⟩

/-- So is a size. -/
theorem field_decode_size : Field decodeSize where
  resumes s _ more := by
    unfold decodeSize
    rw [avail_in_feed]
    have happend := decode_integer_append 32 s.dec32part s.availIn more
    cases h : decodeInteger 32 s.dec32part s.availIn with
    | done val rest =>
        rw [h] at happend
        refine .inr ⟨fun _ => ok_ne_error, ?_⟩
        simp only [feeding, happend]
        rfl
    | more part =>
        rw [h] at happend
        refine .inl ⟨_, rfl, rfl, ?_⟩
        simp only [feeding, happend, List.nil_append]
    | invalid msg part rest =>
        rw [h] at happend
        refine .inr ⟨by simp [feeding], ?_⟩
        simp only [feeding, happend]
        rfl
  after s s' h := by
    unfold decodeSize at h
    cases hinp : decodeInteger 32 s.dec32part s.availIn with
    | done val rest =>
        simp only [hinp, EStateM.Result.ok.injEq, reduceCtorEq, or_false] at h
        obtain ⟨x, -, rfl⟩ := h
        exact ⟨rest, 0, s.dec64part, rfl⟩
    | more part =>
        simp only [hinp, reduceCtorEq, exists_false, false_or, EStateM.Result.error.injEq,
          true_and] at h
        exact ⟨[], part, s.dec64part, h.symm⟩
    | invalid msg part rest => simp [hinp] at h

/-- So is an offset. -/
theorem field_decode_offset : Field decodeOffset where
  resumes s _ more := by
    unfold decodeOffset
    rw [avail_in_feed]
    have happend := decode_integer_append 64 s.dec64part s.availIn more
    cases h : decodeInteger 64 s.dec64part s.availIn with
    | done val rest =>
        rw [h] at happend
        refine .inr ⟨fun _ => ok_ne_error, ?_⟩
        simp only [feeding, happend]
        rfl
    | more part =>
        rw [h] at happend
        refine .inl ⟨_, rfl, rfl, ?_⟩
        simp only [feeding, happend, List.nil_append]
    | invalid msg part rest =>
        rw [h] at happend
        refine .inr ⟨by simp [feeding], ?_⟩
        simp only [feeding, happend]
        rfl
  after s s' h := by
    unfold decodeOffset at h
    cases hinp : decodeInteger 64 s.dec64part s.availIn with
    | done val rest =>
        simp only [hinp, EStateM.Result.ok.injEq, reduceCtorEq, or_false] at h
        obtain ⟨x, -, rfl⟩ := h
        exact ⟨rest, s.dec32part, 0, rfl⟩
    | more part =>
        simp only [hinp, reduceCtorEq, exists_false, false_or, EStateM.Result.error.injEq,
          true_and] at h
        exact ⟨[], s.dec32part, part, h.symm⟩
    | invalid msg part rest => simp [hinp] at h

/-- The stream with other input. -/
def Stream.withInput (s : Stream) (inp : Bytes) : Stream := { s with availIn := inp }

/-- A buffer of the stream that is filled by `decodeBytes`. -/
structure Buffer (buf : Stream → Bytes) (store : Bytes → Stream → Stream) : Prop where
  buf_input : ∀ s inp, buf (s.withInput inp) = buf s
  buf_store : ∀ x s, buf (store x s) = x
  store_input : ∀ x s inp, store x (s.withInput inp) = (store x s).withInput inp
  store_store : ∀ x y s, store x (store y s) = store x s

/-- What is missing of the bytes is taken, as far as it is there. -/
theorem decode_bytes_eq (buf : Stream → Bytes) (store : Bytes → Stream → Stream) (size : Nat)
    (s : Stream) :
    decodeBytes buf store size s =
      let take := min (size - (buf s).length) s.availIn.length
      let s' := (store (buf s ++ s.availIn.take take) s).withInput (s.availIn.drop take)
      if (buf s).length + take < size then .error .input s' else .ok () s' := rfl

/-- Bytes that are missing are taken up where they stopped. -/
theorem decode_bytes_resumes {buf : Stream → Bytes} {store : Bytes → Stream → Stream}
    (h : Buffer buf store) (size : Nat) :
    Resumes feeding (fun _ => True) (decodeBytes buf store size) (decodeBytes buf store size) := by
  intro s _ more
  have hbuf : buf (s.feed more) = buf s := h.buf_input s _
  have hstore : ∀ x inp, (store x (s.feed more)).withInput inp = (store x s).withInput inp := by
    intro x inp
    show (store x (s.withInput (s.availIn ++ more))).withInput inp = _
    rw [h.store_input]
    rfl
  have hshort := decode_bytes_eq buf store size s
  have hlong := decode_bytes_eq buf store size (s.feed more)
  simp only [avail_in_feed, hbuf, hstore, List.length_append] at hlong hshort
  rw [hlong, hshort]
  by_cases hmore : (buf s).length + min (size - (buf s).length) s.availIn.length < size
  · have hall : min (size - (buf s).length) s.availIn.length = s.availIn.length := by omega
    rw [hall] at hmore
    rw [hall, List.take_length, List.drop_length, if_pos hmore]
    refine .inl ⟨(store (buf s ++ s.availIn) s).withInput [], rfl, rfl, ?_⟩
    have hfed : feeding.feed ((store (buf s ++ s.availIn) s).withInput []) more =
        (store (buf s ++ s.availIn) s).withInput more := rfl
    have hbuf' : buf ((store (buf s ++ s.availIn) s).withInput more) = buf s ++ s.availIn :=
      (h.buf_input _ _).trans (h.buf_store _ _)
    have hinp : ((store (buf s ++ s.availIn) s).withInput more).availIn = more := rfl
    have hstore' : ∀ x inp, (store x ((store (buf s ++ s.availIn) s).withInput more)).withInput
        inp = (store x s).withInput inp := by
      intro x inp
      rw [h.store_input, h.store_store]
      rfl
    have hsum : min (size - (buf s).length) (s.availIn.length + more.length) =
        s.availIn.length + min (size - ((buf s).length + s.availIn.length)) more.length := by omega
    have htake : ∀ k, (s.availIn ++ more).take (s.availIn.length + k) =
        s.availIn ++ more.take k := fun k => List.take_length_add_append k
    have hdrop : ∀ k, (s.availIn ++ more).drop (s.availIn.length + k) = more.drop k :=
      fun k => List.drop_length_add_append k
    have hresume := decode_bytes_eq buf store size ((store (buf s ++ s.availIn) s).withInput more)
    simp only [hbuf', hinp, hstore', List.length_append] at hresume
    rw [hfed, hresume]
    simp only [hsum, htake, hdrop, List.append_assoc, Nat.add_assoc]
  · have hsame : min (size - (buf s).length) (s.availIn.length + more.length) =
        min (size - (buf s).length) s.availIn.length := by omega
    have htake : (s.availIn ++ more).take (min (size - (buf s).length) s.availIn.length) =
        s.availIn.take (min (size - (buf s).length) s.availIn.length) :=
      List.take_append_of_le_length (by omega)
    have hdrop : (s.availIn ++ more).drop (min (size - (buf s).length) s.availIn.length) =
        s.availIn.drop (min (size - (buf s).length) s.availIn.length) ++ more :=
      List.drop_append_of_le_length (by omega)
    refine .inr ?_
    simp only [hsame, if_neg hmore, htake, hdrop]
    exact ⟨fun _ => ok_ne_error, rfl⟩

/-- Only their buffer and the input change. -/
theorem decode_bytes_after {buf : Stream → Bytes} {store : Bytes → Stream → Stream} {size : Nat}
    {s s' : Stream} (h : decodeBytes buf store size s = .ok () s' ∨
      decodeBytes buf store size s = .error .input s') :
    ∃ inp x, s' = (store x s).withInput inp := by
  unfold decodeBytes at h
  simp only at h
  split at h
  · simp only [reduceCtorEq, EStateM.Result.error.injEq, true_and, false_or] at h
    exact ⟨_, _, h.symm⟩
  · simp only [reduceCtorEq, EStateM.Result.ok.injEq, true_and, or_false] at h
    exact ⟨_, _, h.symm⟩

/-- Without a failure, the state stays. -/
theorem fail_if_ok {cond : Prop} [Decidable cond] {code : ErrorCode} {msg : String} {s s' : Stream}
    (h : failIf cond code msg s = .ok () s') : s = s' := by
  unfold failIf at h
  split at h
  · cases h
  · cases h
    rfl

section Then

variable {P Q : Stream → Prop} {k resume : Decode Done}

/-- A failure in front of a computation that is taken up. -/
theorem fail_if_resumes (cond : Prop) [Decidable cond] (code : ErrorCode) (msg : String)
    (hk : Resumes feeding P k resume) :
    Resumes feeding P (failIf cond code msg >>= fun _ => k) resume :=
  ((steadily_fail_if cond code msg).mono fun _ _ => trivial).then_resumes hk
    fun _ _ hs h => fail_if_ok h ▸ hs

/-- A failure is not taken up. -/
theorem fail_resumes (code : ErrorCode) (msg : String) :
    Resumes feeding P (fail code msg >>= fun _ : Unit => k) resume :=
  (Steady.mono (fun s _ => steadily_fail code msg s trivial) fun _ _ => trivial).then_resumes
    (Q := fun _ => False) (fun _ => False.elim) fun _ _ _ h => by cases h

/-- A change of the state in front of a computation that is taken up. -/
theorem modify_resumes {g : Stream → Stream} (hk : Resumes feeding Q k resume)
    (hg : ∀ s more, g (s.feed more) = (g s).feed more) (hPQ : ∀ s, P s → Q (g s)) :
    Resumes feeding P (modify g >>= fun _ => k) resume := by
  refine ((steadily_modify hg).mono fun _ _ => trivial).then_resumes hk fun s s' hs h => ?_
  cases h
  exact hPQ s hs

end Then

section Cases

variable (T : Bytes → Nat → Nat → Except (ErrorCode × String) (List Dinst))

/-- The decoder goes on in the case that its state names. -/
def resume : Decode Done := fun s => decodeCase T s.decState s

/-- A stream is taken up in its state. -/
theorem resume_eq (label : DecState) {s : Stream} (h : s.decState = label) :
    resume T s = decodeCase T label s := by
  unfold resume
  rw [h]

/-- A field in front of the rest of a case. -/
theorem Field.bind_resumes {decode : Decode Nat} (h : Field decode) {s : Stream}
    {k : Nat → Decode Done}
    (hk : ∀ x, Resumes feeding (fun t => ∃ inp p q,
      t = { s with availIn := inp, dec32part := p, dec64part := q }) (k x) (resume T))
    (hcase : ∀ inp p q, (decode >>= k) { s with availIn := inp, dec32part := p, dec64part := q } =
      resume T { s with availIn := inp, dec32part := p, dec64part := q }) :
    Resumes feeding (· = s) (decode >>= k) (resume T) := by
  refine (h.resumes.mono fun _ _ => trivial).bind hk ?_ ?_
  · rintro _ x s' rfl hend
    exact h.after _ s' (.inl ⟨x, hend⟩)
  · rintro _ s' rfl hwait more
    obtain ⟨inp, p, q, rfl⟩ := h.after _ s' (.inr hwait)
    exact hcase (inp ++ more) p q

/-- A buffer in front of the rest of a case. -/
theorem Buffer.bind_resumes {buf : Stream → Bytes} {store : Bytes → Stream → Stream}
    (h : Buffer buf store) {size : Nat} {s : Stream} {k : Decode Done}
    (hk : Resumes feeding (fun t => ∃ inp x, t = (store x s).withInput inp) k (resume T))
    (hcase : ∀ inp x, (decodeBytes buf store size >>= fun _ => k) ((store x s).withInput inp) =
      resume T ((store x s).withInput inp)) :
    Resumes feeding (· = s) (decodeBytes buf store size >>= fun _ => k) (resume T) := by
  refine ((decode_bytes_resumes h size).mono fun _ _ => trivial).bind (fun _ => hk) ?_ ?_
  · rintro _ _ s' rfl hend
    exact decode_bytes_after (.inl hend)
  · rintro _ s' rfl hwait more
    obtain ⟨inp, x, rfl⟩ := decode_bytes_after (.inr hwait)
    exact hcase (inp ++ more) x

/-- `BYTE_CASE`, `SIZE_CASE` and `OFFSET_CASE` in front of the rest of a case. -/
theorem field_case_resumes {decode : Decode Nat} (h : Field decode) {expr : Prop} [Decidable expr]
    {store : Nat → Stream → Stream} {nstate : DecState} {s : Stream} {k : Decode Done}
    (hk : Resumes feeding (·.decState = nstate) k (resume T))
    (hstore : ∀ x s more, store x (s.feed more) = (store x s).feed more)
    (hcase : ∀ inp p q, (fieldCase decode expr store nstate >>= fun _ => k)
      { s with availIn := inp, dec32part := p, dec64part := q } =
        resume T { s with availIn := inp, dec32part := p, dec64part := q }) :
    Resumes feeding (· = s) (fieldCase decode expr store nstate >>= fun _ => k) (resume T) := by
  have hend : ∀ P : Stream → Prop, Resumes feeding P
      (modify (fun s => { s with decState := nstate }) >>= fun _ => k) (resume T) :=
    fun P => modify_resumes hk (fun _ _ => rfl) fun _ _ => rfl
  by_cases hexpr : expr
  · have heq : (fieldCase decode expr store nstate >>= fun _ => k) = decode >>= fun x =>
        modify (store x) >>= fun _ => modify (fun s => { s with decState := nstate }) >>=
          fun _ => k := by
      unfold fieldCase onlyIf
      simp only [if_pos hexpr, bind_assoc]
    rw [heq] at hcase ⊢
    exact h.bind_resumes T (fun x => modify_resumes (Q := fun _ => True) (hend _) (hstore x)
      fun _ _ => trivial) hcase
  · have heq : (fieldCase decode expr store nstate >>= fun _ => k) =
        modify (fun s => { s with decState := nstate }) >>= fun _ => k := by
      unfold fieldCase onlyIf
      simp only [if_neg hexpr, pure_bind]
    rw [heq]
    exact hend _

/-- The emission does not wait for input. -/
theorem case_emit_resumes {P : Stream → Prop} : Resumes feeding P caseEmit (resume T) :=
  (steadily_case_emit.mono fun _ _ => trivial).resumes _

/-- Behind the sections, the buffers are set up and the window is emitted. -/
theorem case_sections_eq {s : Stream} (hfits : Fits s) (hsect : InSections s) :
    caseSections s =
      (copySections >>= fun _ => decodeSetupBuffers >>= fun _ => caseEmit) s := by
  have heq : caseSections = readSections >>= fun _ => decodeSetupBuffers >>= fun _ => caseEmit := by
    unfold caseSections decodeSections readSections
    simp only [bind_assoc]
  rw [heq]
  exact bind_congr (read_sections_eq hfits hsect)

/-- Inside the sections, the stream is taken up with them. -/
theorem resume_sections {s : Stream} (h : InSections s) : resume T s = caseSections s := by
  rcases h with hstate | hstate | hstate <;> rw [resume_eq T _ hstate] <;> rfl

/-- So it can be cut there. -/
theorem case_sections_resumes :
    Resumes feeding (fun s => Fits s ∧ InSections s) caseSections (resume T) := by
  refine Resumes.congr ?_ (fun s hs => case_sections_eq hs.1 hs.2)
    fun s hs more => case_sections_eq (hs.1.feed more) hs.2
  refine copy_sections_resumes.bind (Q := fun _ => True) (fun _ =>
    (steadily_bind steadily_decode_setup_buffers fun _ => steadily_case_emit).resumes _)
    (fun _ _ _ _ _ => trivial) fun s s' hs hwait more => ?_
  obtain ⟨hfits, hsect⟩ := copy_sections_wait hs.1 hs.2 hwait
  have hmore : InSections (s'.feed more) := hsect
  exact Eq.symm (Eq.trans (resume_sections T hmore) (case_sections_eq (hfits.feed more) hmore))

/-- The checksum is read into a buffer of its own. -/
theorem buffer_dec_cksum : Buffer (·.decCksum) fun cksum s => { s with decCksum := cksum } where
  buf_input _ _ := rfl
  buf_store _ _ := rfl
  store_input _ _ _ := rfl
  store_store _ _ _ := rfl

/-- So is the magic. -/
theorem buffer_dec_magic : Buffer (·.decMagic) fun magic s => { s with decMagic := magic } where
  buf_input _ _ := rfl
  buf_store _ _ := rfl
  store_input _ _ _ := rfl
  store_store _ _ _ := rfl

/-- So is the application header. -/
theorem buffer_dec_appheader :
    Buffer (·.decAppheader) fun appheader s => { s with decAppheader := appheader } where
  buf_input _ _ := rfl
  buf_store _ _ := rfl
  store_input _ _ _ := rfl
  store_store _ _ _ := rfl

/-- So is the code table. -/
theorem buffer_dec_codetbl :
    Buffer (·.decCodetbl) fun codetbl s => { s with decCodetbl := codetbl } where
  buf_input _ _ := rfl
  buf_store _ _ := rfl
  store_input _ _ _ := rfl
  store_store _ _ _ := rfl

/-- Behind the head, its length is compared. -/
theorem check_enclen_resumes {P : Stream → Prop} : Resumes feeding P checkEnclen (resume T) := by
  refine modify_resumes (Q := fun _ => True) ?_ (fun _ _ => rfl) fun _ _ => trivial
  exact Resumes.get (fun _ _ => rfl) fun _ _ => fail_if_resumes _ _ _ <| (Steady.pure _).resumes _

/-- The checksum is read if the window has one. -/
theorem case_cksum_eq (s : Stream) : caseCksum s =
    if s.decWinInd &&& VCD_ADLER32 ≠ 0 then (readCksum >>= fun _ => checkEnclen) s
    else checkEnclen s := by
  unfold caseCksum onlyIf
  rw [get_bind]
  split <;> rfl

/-- The input can be cut in the checksum. -/
theorem case_cksum_resumes : Resumes feeding (·.decState = .cksum) caseCksum (resume T) := by
  refine Resumes.each fun s hs => ?_
  by_cases hbit : s.decWinInd &&& VCD_ADLER32 ≠ 0
  · have hread : ∀ t : Stream, t.decWinInd = s.decWinInd →
        caseCksum t = (readCksum >>= fun _ => checkEnclen) t := by
      intro t ht
      rw [case_cksum_eq, ht, if_pos hbit]
    refine Resumes.congr ?_ (fun t ht => hread t (ht ▸ rfl))
      fun t ht more => hread (t.feed more) (ht ▸ rfl)
    unfold readCksum
    rw [bind_assoc]
    refine buffer_dec_cksum.bind_resumes T ?_ fun inp x => ?_
    · exact modify_resumes (Q := fun _ => True) (check_enclen_resumes T) (fun _ _ => rfl)
        fun _ _ => trivial
    · rw [← bind_assoc]
      exact Eq.trans (Eq.symm (hread _ rfl)) (Eq.symm (resume_eq T .cksum hs))
  · have hread : ∀ t : Stream, t.decWinInd = s.decWinInd → caseCksum t = checkEnclen t := by
      intro t ht
      rw [case_cksum_eq, ht, if_neg hbit]
    exact (check_enclen_resumes T).congr (fun t ht => hread t (ht ▸ rfl))
      fun t ht more => hread (t.feed more) (ht ▸ rfl)

/-- It can be cut in the length of the address section. -/
theorem case_addrlen_resumes : Resumes feeding (·.decState = .addrlen) caseAddrlen (resume T) :=
  Resumes.each fun _ hs => field_case_resumes T field_decode_size (case_cksum_resumes T)
    (fun _ _ _ => rfl) fun _ _ _ => Eq.symm (resume_eq T .addrlen hs)

/-- It can be cut in the length of the instruction section. -/
theorem case_instlen_resumes : Resumes feeding (·.decState = .instlen) caseInstlen (resume T) :=
  Resumes.each fun _ hs => field_case_resumes T field_decode_size (case_addrlen_resumes T)
    (fun _ _ _ => rfl) fun _ _ _ => Eq.symm (resume_eq T .instlen hs)

/-- It can be cut in the length of the data section. -/
theorem case_datalen_resumes : Resumes feeding (·.decState = .datalen) caseDatalen (resume T) :=
  Resumes.each fun _ hs => field_case_resumes T field_decode_size (case_instlen_resumes T)
    (fun _ _ _ => rfl) fun _ _ _ => Eq.symm (resume_eq T .datalen hs)

/-- It can be cut in front of the delta indicator. -/
theorem case_delind_resumes : Resumes feeding (·.decState = .delind) caseDelind (resume T) := by
  refine Resumes.each fun s hs => field_case_resumes T field_decode_byte ?_ (fun _ _ _ => rfl)
    fun _ _ _ => Eq.symm (resume_eq T .delind hs)
  exact Resumes.get (fun _ _ => rfl) fun _ _ => fail_if_resumes _ _ _ <| fail_if_resumes _ _ _ <|
    case_datalen_resumes T

/-- It can be cut in the length of the target. -/
theorem case_tgtlen_resumes : Resumes feeding (·.decState = .tgtlen) caseTgtlen (resume T) := by
  refine Resumes.each fun s hs => field_case_resumes T field_decode_size ?_ (fun _ _ _ => rfl)
    fun _ _ _ => Eq.symm (resume_eq T .tgtlen hs)
  exact Resumes.get (fun _ _ => rfl) fun _ _ => fail_if_resumes _ _ _ <| fail_if_resumes _ _ _ <|
    modify_resumes (case_delind_resumes T) (fun _ _ => rfl) fun _ h => h

/-- It can be cut in the length of the window. -/
theorem case_enclen_resumes : Resumes feeding (·.decState = .enclen) caseEnclen (resume T) :=
  Resumes.each fun _ hs => field_case_resumes T field_decode_size (case_tgtlen_resumes T)
    (fun _ _ _ => rfl) fun _ _ _ => Eq.symm (resume_eq T .enclen hs)

/-- It can be cut in the offset of the segment. -/
theorem case_cpyoff_resumes : Resumes feeding (·.decState = .cpyoff) caseCpyoff (resume T) := by
  refine Resumes.each fun s hs => Resumes.get (fun _ _ => rfl) fun t ht => ?_
  rw [ht]
  refine field_case_resumes T field_decode_offset ?_ (fun _ _ _ => rfl)
    fun _ _ _ => Eq.symm (resume_eq T .cpyoff hs)
  exact Resumes.get (fun _ _ => rfl) fun _ _ => fail_if_resumes _ _ _ <| fail_if_resumes _ _ _ <|
    case_enclen_resumes T

/-- It can be cut in the length of the segment. -/
theorem case_cpylen_resumes : Resumes feeding (·.decState = .cpylen) caseCpylen (resume T) := by
  refine Resumes.each fun s hs => Resumes.get (fun _ _ => rfl) fun t ht => ?_
  rw [ht]
  refine field_case_resumes T field_decode_size ?_ (fun _ _ _ => rfl)
    fun _ _ _ => Eq.symm (resume_eq T .cpylen hs)
  exact modify_resumes (case_cpyoff_resumes T) (fun _ _ => rfl) fun _ h => h

/-- It can be cut in front of the window indicator. -/
theorem case_winind_resumes : Resumes feeding (·.decState = .winind) caseWinind (resume T) := by
  refine Resumes.each fun s hs => field_decode_byte.bind_resumes T (fun x => ?_)
    fun _ _ _ => Eq.symm (resume_eq T .winind hs)
  refine modify_resumes (Q := fun _ => True) ?_ (fun _ _ => rfl) fun _ _ => trivial
  refine Resumes.get (fun _ _ => rfl) fun _ _ => fail_if_resumes _ _ _ ?_
  refine modify_resumes (Q := fun _ => True) ?_ (fun _ _ => rfl) fun _ _ => trivial
  refine fail_if_resumes _ _ _ (modify_resumes (Q := fun _ => True) ?_ (fun _ _ => rfl)
    fun _ _ => trivial)
  exact modify_resumes (case_cpylen_resumes T) (fun _ _ => rfl) fun _ _ => rfl

/-- The end of `case DEC_APPDAT`. -/
theorem enter_winind_resumes {P : Stream → Prop} : Resumes feeding P
    (modify (fun s => { s with decState := .winind }) >>= fun _ => caseWinind) (resume T) :=
  modify_resumes (case_winind_resumes T) (fun _ _ => rfl) fun _ _ => rfl

/-- The application header is read if there is one. -/
theorem case_appdat_eq (s : Stream) : caseAppdat s =
    if s.decHdrInd &&& VCD_APPHEADER ≠ 0 then
      if s.decAppheadsz + 1 = 2 ^ 32 then .error .overrun s
      else (decodeBytes (·.decAppheader) (fun appheader s => { s with decAppheader := appheader })
        s.decAppheadsz >>= fun _ =>
          modify (fun s => { s with decState := .winind }) >>= fun _ => caseWinind) s
    else (modify (fun s => { s with decState := .winind }) >>= fun _ => caseWinind) s := by
  unfold caseAppdat onlyIf decodeAppheader overrunIf
  rw [get_bind]
  split
  · split <;> rfl
  · rfl

/-- The input can be cut in the application header. -/
theorem case_appdat_resumes : Resumes feeding (·.decState = .appdat) caseAppdat (resume T) := by
  refine Resumes.each fun s hs => ?_
  by_cases hbit : s.decHdrInd &&& VCD_APPHEADER ≠ 0
  · by_cases hwrap : s.decAppheadsz + 1 = 2 ^ 32
    · have hread : ∀ t : Stream, t.decHdrInd = s.decHdrInd → t.decAppheadsz = s.decAppheadsz →
          caseAppdat t = .error .overrun t := by
        intro t ht hsize
        rw [case_appdat_eq, ht, if_pos hbit, hsize, if_pos hwrap]
      exact (Steady.throw (e := .overrun) (by simp [feeding])).resumes _ |>.congr
        (fun t ht => hread t (ht ▸ rfl) (ht ▸ rfl))
        fun t ht more => hread (t.feed more) (ht ▸ rfl) (ht ▸ rfl)
    · have hread : ∀ t : Stream, t.decHdrInd = s.decHdrInd → t.decAppheadsz = s.decAppheadsz →
          caseAppdat t = (decodeBytes (·.decAppheader)
            (fun appheader s => { s with decAppheader := appheader }) s.decAppheadsz >>= fun _ =>
              modify (fun s => { s with decState := .winind }) >>= fun _ => caseWinind) t := by
        intro t ht hsize
        rw [case_appdat_eq, ht, if_pos hbit, hsize, if_neg hwrap]
      refine Resumes.congr ?_ (fun t ht => hread t (ht ▸ rfl) (ht ▸ rfl))
        fun t ht more => hread (t.feed more) (ht ▸ rfl) (ht ▸ rfl)
      exact buffer_dec_appheader.bind_resumes T (enter_winind_resumes T) fun inp x =>
        Eq.trans (Eq.symm (hread _ rfl rfl)) (Eq.symm (resume_eq T .appdat hs))
  · have hread : ∀ t : Stream, t.decHdrInd = s.decHdrInd → caseAppdat t =
        (modify (fun s => { s with decState := .winind }) >>= fun _ => caseWinind) t := by
      intro t ht
      rw [case_appdat_eq, ht, if_neg hbit]
    exact (enter_winind_resumes T).congr (fun t ht => hread t (ht ▸ rfl))
      fun t ht more => hread (t.feed more) (ht ▸ rfl)

/-- It can be cut in its length. -/
theorem case_applen_resumes : Resumes feeding (·.decState = .applen) caseApplen (resume T) := by
  refine Resumes.each fun s hs => Resumes.get (fun _ _ => rfl) fun t ht => ?_
  rw [ht]
  exact field_case_resumes T field_decode_size (case_appdat_resumes T) (fun _ _ _ => rfl)
    fun _ _ _ => Eq.symm (resume_eq T .applen hs)

/-- Setting up the caches reads no input. -/
theorem init_cache_resumes {P : Stream → Prop} : Resumes feeding P initCache (resume T) :=
  modify_resumes (case_applen_resumes T) (fun _ _ => rfl) fun _ _ => rfl

/-- The code table is read if there is one. -/
theorem case_tabdat_eq (s : Stream) : caseTabdat T s =
    if s.decHdrInd &&& VCD_CODETABLE ≠ 0 then
      (decodeBytes (·.decCodetbl) (fun codetbl s => { s with decCodetbl := codetbl })
        s.decCodetblsz >>= fun _ => applyTable T >>= fun _ => initCache) s
    else
      (modify (fun s => { s with
        sNear := CodeTableDesc.rfc3284.nearModes
        sSame := CodeTableDesc.rfc3284.sameModes
        codeTable := rfc3284CodeTable }) >>= fun _ => initCache) s := by
  unfold caseTabdat
  rw [get_bind]
  split <;> rfl

/-- Applying it reads no input. -/
theorem apply_table_resumes {P : Stream → Prop} :
    Resumes feeding P (applyTable T >>= fun _ => initCache) (resume T) := by
  refine Steady.bind_resumes (Q := fun _ => True) (fun s _ => ?_) (fun _ => init_cache_resumes T)
    fun _ _ _ _ _ => trivial
  unfold applyTable
  cases h : T s.decCodetbl s.sNear s.sSame with
  | ok codeTable => simp [feeding, Feeding.feedResult, h]
  | error err => simp [feeding, Feeding.feedResult, h]

/-- The input can be cut in the code table. -/
theorem case_tabdat_resumes :
    Resumes feeding (·.decState = .tabdat) (caseTabdat T) (resume T) := by
  refine Resumes.each fun s hs => ?_
  by_cases hbit : s.decHdrInd &&& VCD_CODETABLE ≠ 0
  · have hread : ∀ t : Stream, t.decHdrInd = s.decHdrInd → t.decCodetblsz = s.decCodetblsz →
        caseTabdat T t = (decodeBytes (·.decCodetbl)
          (fun codetbl s => { s with decCodetbl := codetbl }) s.decCodetblsz >>= fun _ =>
            applyTable T >>= fun _ => initCache) t := by
      intro t ht hsize
      rw [case_tabdat_eq, ht, if_pos hbit, hsize]
    refine Resumes.congr ?_ (fun t ht => hread t (ht ▸ rfl) (ht ▸ rfl))
      fun t ht more => hread (t.feed more) (ht ▸ rfl) (ht ▸ rfl)
    exact buffer_dec_codetbl.bind_resumes T (apply_table_resumes T) fun inp x =>
      Eq.trans (Eq.symm (hread _ rfl rfl)) (Eq.symm (resume_eq T .tabdat hs))
  · have hread : ∀ t : Stream, t.decHdrInd = s.decHdrInd → caseTabdat T t =
        (modify (fun s => { s with
          sNear := CodeTableDesc.rfc3284.nearModes
          sSame := CodeTableDesc.rfc3284.sameModes
          codeTable := rfc3284CodeTable }) >>= fun _ => initCache) t := by
      intro t ht
      rw [case_tabdat_eq, ht, if_neg hbit]
    refine Resumes.congr ?_ (fun t ht => hread t (ht ▸ rfl))
      fun t ht more => hread (t.feed more) (ht ▸ rfl)
    exact modify_resumes (Q := fun _ => True) (init_cache_resumes T) (fun _ _ => rfl)
      fun _ _ => trivial

/-- It can be cut in front of the size of a cache. -/
theorem case_same_resumes : Resumes feeding (·.decState = .same) (caseSame T) (resume T) := by
  refine Resumes.each fun s hs => Resumes.get (fun _ _ => rfl) fun t ht => ?_
  rw [ht]
  exact field_case_resumes T field_decode_byte (case_tabdat_resumes T) (fun _ _ _ => rfl)
    fun _ _ _ => Eq.symm (resume_eq T .same hs)

/-- And in front of that of the other. -/
theorem case_near_resumes : Resumes feeding (·.decState = .near) (caseNear T) (resume T) := by
  refine Resumes.each fun s hs => Resumes.get (fun _ _ => rfl) fun t ht => ?_
  rw [ht]
  exact field_case_resumes T field_decode_byte (case_same_resumes T) (fun _ _ _ => rfl)
    fun _ _ _ => Eq.symm (resume_eq T .near hs)

/-- The secondary compressor is read if there is one. -/
theorem case_secondid_eq (s : Stream) : caseSecondid T s =
    if s.decHdrInd &&& VCD_SECONDARY ≠ 0 then
      (fieldCase decodeByte True (fun x s => { s with decSecondid := x }) .tablen >>= fun _ =>
        get >>= fun s => secondaryUnavailable s.decSecondid >>= fun _ => caseTablen T) s
    else caseTablen T s := by
  unfold caseSecondid onlyIf
  rw [get_bind]
  split
  · simp only [bind_assoc]
  · rfl

/-- Without one, the code table follows. -/
theorem case_secondid_none {s : Stream} (h : s.decHdrInd &&& VCD_SECONDARY = 0) :
    caseSecondid T s = caseTablen T s := by
  rw [case_secondid_eq, if_neg (not_not_intro h)]

/-- Without a secondary compressor the decoder gets to the length of the code table and is still in
the state before it. -/
theorem case_tablen_resumes : Resumes feeding (fun s => s.decState = .tablen ∨
    s.decState = .secondid ∧ s.decHdrInd &&& VCD_SECONDARY = 0) (caseTablen T) (resume T) := by
  refine Resumes.each fun s hs => Resumes.get (fun _ _ => rfl) fun t ht => ?_
  rw [ht]
  refine field_case_resumes T field_decode_size ?_ (fun _ _ _ => rfl) fun _ _ _ => ?_
  · refine Resumes.get (fun _ _ => rfl) fun t _ => ?_
    by_cases hbit : t.decHdrInd &&& VCD_CODETABLE ≠ 0
    · simp only [onlyIf, if_pos hbit, bind_assoc]
      exact fail_if_resumes _ _ _ <| modify_resumes (case_near_resumes T) (fun _ _ => rfl)
        fun _ h => h
    · simp only [onlyIf, if_neg hbit, pure_bind]
      exact case_near_resumes T
  · rcases hs with hs | ⟨hs, hbit⟩
    · exact Eq.symm (resume_eq T .tablen hs)
    · exact Eq.symm (Eq.trans (resume_eq T .secondid hs) (case_secondid_none T hbit))

/-- No secondary compressor was built in. -/
theorem secondary_unavailable_fails (id : Nat) :
    ∃ code msg, secondaryUnavailable id = fail code msg := by
  unfold secondaryUnavailable
  split
  · exact ⟨_, _, rfl⟩
  split
  · exact ⟨_, _, rfl⟩
  split <;> exact ⟨_, _, rfl⟩

/-- The input can be cut in front of the secondary compressor. -/
theorem case_secondid_resumes :
    Resumes feeding (·.decState = .secondid) (caseSecondid T) (resume T) := by
  refine Resumes.each fun s hs => ?_
  by_cases hbit : s.decHdrInd &&& VCD_SECONDARY ≠ 0
  · have hread : ∀ t : Stream, t.decHdrInd = s.decHdrInd → caseSecondid T t =
        (fieldCase decodeByte True (fun x s => { s with decSecondid := x }) .tablen >>= fun _ =>
          get >>= fun s => secondaryUnavailable s.decSecondid >>= fun _ => caseTablen T) t := by
      intro t ht
      rw [case_secondid_eq, ht, if_pos hbit]
    refine Resumes.congr ?_ (fun t ht => hread t (ht ▸ rfl))
      fun t ht more => hread (t.feed more) (ht ▸ rfl)
    refine field_case_resumes T field_decode_byte ?_ (fun _ _ _ => rfl) fun _ _ _ =>
      Eq.trans (Eq.symm (hread _ rfl)) (Eq.symm (resume_eq T .secondid hs))
    refine Resumes.get (fun _ _ => rfl) fun u _ => ?_
    obtain ⟨code, msg, hfail⟩ := secondary_unavailable_fails u.decSecondid
    rw [hfail]
    exact fail_resumes code msg
  · rw [not_not] at hbit
    refine ((case_tablen_resumes T).mono ?_).congr (fun t ht => ?_) fun t ht more => ?_
    · rintro _ rfl
      exact .inr ⟨hs, hbit⟩
    · exact case_secondid_none T (ht ▸ hbit)
    · exact case_secondid_none T (ht ▸ hbit)

/-- It can be cut in front of the header indicator. -/
theorem case_hdrind_resumes : Resumes feeding (·.decState = .hdrind) (caseHdrind T) (resume T) := by
  refine Resumes.each fun s hs => field_decode_byte.bind_resumes T (fun x => ?_)
    fun _ _ _ => Eq.symm (resume_eq T .hdrind hs)
  refine modify_resumes (Q := fun _ => True) ?_ (fun _ _ => rfl) fun _ _ => trivial
  exact fail_if_resumes _ _ _ (modify_resumes (case_secondid_resumes T) (fun _ _ => rfl)
    fun _ _ => rfl)

/-- It can be cut in the magic. -/
theorem case_vchead_resumes : Resumes feeding (·.decState = .vchead) (caseVchead T) (resume T) := by
  refine Resumes.each fun s hs => buffer_dec_magic.bind_resumes T ?_ fun _ _ =>
    Eq.symm (resume_eq T .vchead hs)
  refine Resumes.get (fun _ _ => rfl) fun _ _ => fail_if_resumes _ _ _ <| fail_if_resumes _ _ _ ?_
  exact modify_resumes (case_hdrind_resumes T) (fun _ _ => rfl) fun _ _ => rfl

/-- It can be cut in every state. -/
theorem decode_case_resumes (label : DecState) : Resumes feeding
    (fun s => s.decState = label ∧ (InSections s → Fits s)) (decodeCase T label) (resume T) := by
  have hsections : ∀ which : Section, Resumes feeding
      (fun s => s.decState = which.label ∧ (InSections s → Fits s)) caseSections (resume T) :=
    fun which => (case_sections_resumes T).mono fun s hs =>
      ⟨hs.2 (in_sections_label which hs.1), in_sections_label which hs.1⟩
  cases label with
  | vchead => exact (case_vchead_resumes T).mono fun _ => And.left
  | hdrind => exact (case_hdrind_resumes T).mono fun _ => And.left
  | secondid => exact (case_secondid_resumes T).mono fun _ => And.left
  | tablen => exact (case_tablen_resumes T).mono fun _ h => .inl h.1
  | near => exact (case_near_resumes T).mono fun _ => And.left
  | same => exact (case_same_resumes T).mono fun _ => And.left
  | tabdat => exact (case_tabdat_resumes T).mono fun _ => And.left
  | applen => exact (case_applen_resumes T).mono fun _ => And.left
  | appdat => exact (case_appdat_resumes T).mono fun _ => And.left
  | winind => exact (case_winind_resumes T).mono fun _ => And.left
  | cpylen => exact (case_cpylen_resumes T).mono fun _ => And.left
  | cpyoff => exact (case_cpyoff_resumes T).mono fun _ => And.left
  | enclen => exact (case_enclen_resumes T).mono fun _ => And.left
  | tgtlen => exact (case_tgtlen_resumes T).mono fun _ => And.left
  | delind => exact (case_delind_resumes T).mono fun _ => And.left
  | datalen => exact (case_datalen_resumes T).mono fun _ => And.left
  | instlen => exact (case_instlen_resumes T).mono fun _ => And.left
  | addrlen => exact (case_addrlen_resumes T).mono fun _ => And.left
  | cksum => exact (case_cksum_resumes T).mono fun _ => And.left
  | data => exact hsections .data
  | inst => exact hsections .inst
  | addr => exact hsections .addr
  | emit => exact case_emit_resumes T
  | finish => exact (steadily_case_finish.mono fun _ _ => trivial).resumes _

/-- More input for a call of the decoder: either the call asked for input and the next one goes on
with it, or the call does not get to it. -/
theorem decode_input_feed {s : Stream} (h : InSections s → Fits s) (more : Bytes) :
    ((decodeInput T s).1 = .input ∧ (decodeInput T s).2.availIn = [] ∧
      decodeInput T (s.feed more) = decodeInput T ((decodeInput T s).2.feed more)) ∨
    (decodeInput T s).1 ≠ .input ∧
      decodeInput T (s.feed more) = ((decodeInput T s).1, (decodeInput T s).2.feed more) := by
  rcases decode_case_resumes T s.decState s ⟨rfl, h⟩ more with
    ⟨s', hwait, hused, hmore⟩ | ⟨hwait, hmore⟩
  · have hone : decodeInput T s = (.input, s') := congrArg returned hwait
    rw [hone]
    exact .inl ⟨rfl, hused, congrArg returned hmore⟩
  · have hlong : decodeInput T (s.feed more) = returned (feeding.feedResult more _) :=
      congrArg returned hmore
    rw [hlong]
    unfold decodeInput
    cases hend : decodeCase T s.decState s with
    | ok done t =>
        refine .inr ⟨?_, rfl⟩
        cases done <;> nofun
    | error ret t =>
        refine .inr ⟨?_, rfl⟩
        rintro rfl
        exact hwait t hend

/-- No more input changes nothing. -/
theorem feed_nil (s : Stream) : s.feed [] = s :=
  congrArg (fun inp => ({ s with availIn := inp } : Stream)) (List.append_nil s.availIn)

/-- Input can be given in two parts. -/
theorem feed_feed (s : Stream) (inp more : Bytes) : (s.feed inp).feed more = s.feed (inp ++ more) :=
  congrArg (fun inp => ({ s with availIn := inp } : Stream)) (List.append_assoc _ _ _)

/-! ## Many pieces -/

/-- A caller who gives the decoder one piece of its input after the other, whenever it asks for
more. The pieces that it has not asked for are added to the input of the stream in the end. -/
def inputPieces (s : Stream) : List Bytes → Ret × Stream
  | [] => decodeInput T s
  | piece :: pieces =>
      match decodeInput T s with
      | (.input, s) => inputPieces (s.feed piece) pieces
      | (ret, s) => (ret, s.feed (piece ++ pieces.flatten))

/-- A stream that goes on like one whose sections fit is given the pieces. -/
theorem input_pieces_of_same {s t : Stream} {pieces : List Bytes} (h : InSections s → Fits s)
    (hsame : ∀ more, decodeInput T (t.feed more) = decodeInput T (s.feed more)) :
    inputPieces T t pieces = decodeInput T (s.feed pieces.flatten) := by
  induction pieces generalizing s t with
  | nil =>
      have hnil := hsame []
      rw [feed_nil] at hnil
      exact hnil
  | cons piece pieces ih =>
      have hone : decodeInput T t = decodeInput T s := by
        have hnil := hsame []
        rwa [feed_nil, feed_nil] at hnil
      rcases hcall : decodeInput T s with ⟨ret, s'⟩
      have hmore := decode_input_feed T h
      rw [hcall] at hone hmore
      unfold inputPieces
      rw [hone, List.flatten_cons]
      by_cases hinput : ret = .input
      · subst hinput
        rw [← feed_feed]
        refine ih (fun hsect => (h hsect).feed piece) fun more => ?_
        rcases hmore (piece ++ more) with ⟨-, -, hlater⟩ | ⟨hother, -⟩
        · rw [feed_feed, feed_feed, hlater]
        · exact absurd rfl hother
      · rcases hmore (piece ++ pieces.flatten) with ⟨hasks, -, -⟩ | ⟨-, hfed⟩
        · exact absurd hasks hinput
        · rw [hfed]
          cases ret <;> first | rfl | exact absurd rfl hinput

/-- It does not matter into which pieces the input is cut: in the end the decoder has returned the
same and is in the same state as if it had got all of it at once. -/
theorem input_pieces_eq {s : Stream} (h : InSections s → Fits s) (pieces : List Bytes) :
    inputPieces T s pieces = decodeInput T (s.feed pieces.flatten) :=
  input_pieces_of_same T h fun _ => rfl

end Cases

/-- A window that adds three bytes, one of which has been read. -/
def addingStream : Stream where
  availIn := [98]
  codeTable := rfc3284CodeTable
  decState := .data
  decTgtlen := 3
  decMaxpos := 3
  decWinbytes := 1
  dataSect := { size := 3, taken := [97] }
  instSect := { size := 1 }

/-- The rest of the window in three pieces. -/
theorem input_pieces_add :
    inputPieces (fun _ _ _ => .error (.unimplemented, "")) addingStream [[], [99], [4]] =
        decodeInput (fun _ _ _ => .error (.unimplemented, "")) (addingStream.feed [99, 4]) ∧
      (decodeInput (fun _ _ _ => .error (.unimplemented, "")) (addingStream.feed [99, 4])).1 =
        .output ∧
      (decodeInput (fun _ _ _ => .error (.unimplemented, ""))
        (addingStream.feed [99, 4])).2.nextOut = [97, 98, 99] :=
  ⟨input_pieces_eq _ (fun _ => ⟨by decide, by decide⟩) [[], [99], [4]], by decide +kernel,
    by decide +kernel⟩

end NamelessCenter.Vcdiff
