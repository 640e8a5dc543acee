import NamelessCenter.Lib.Base128
import NamelessCenter.Lib.Bytes

/-!
# The integers of a VCDIFF file

The macros of xdelta3 for integers of 32 and of 64 bits, with the width in bits as a parameter.
`emitInteger` writes an integer, `readInteger` reads one of a complete section and `decodeInteger`
one of the input, which may end inside it. `integers_round_trip` says that the three agree, in
which way ever the input is cut into pieces, and which byte strings are taken for an integer.
-/

namespace NamelessCenter.Vcdiff

/-! ## The macros -/

/-- `UINT32_OFLOW_MASK` and `UINT64_OFLOW_MASK`: the seven highest bits. -/
def oflowMask (width : Nat) : Nat := 127 <<< (width - 7)

/-- The loop of `EMIT_INTEGER_TYPE`, with the bytes `buf[bufi]`, .. and the number of those before
them as the bound of its rounds. -/
def emitLoop : Nat → Nat → Bytes → Bytes
  | 0, _, buf => buf
  | bufi + 1, num, buf =>
      let buf := UInt8.ofNat (num &&& 127 ||| 128) :: buf
      let num := num >>> 7
      if num ≠ 0 then emitLoop bufi num buf else buf

/-- `buf[9] &= 127`, where `buf[9]` is the last byte. -/
def turnOffLast : Bytes → Bytes
  | [] => []
  | [b] => [b &&& 127]
  | b :: bs => b :: turnOffLast bs

/-- `EMIT_INTEGER_TYPE`. -/
def emitInteger (num : Nat) : Bytes := turnOffLast (emitLoop 10 num [])

/-- `READ_INTEGER_TYPE`, from the value `val` on. -/
def readInteger (width : Nat) : Nat → Bytes → Except String (Nat × Bytes)
  | _, [] => .error "end-of-input in read_integer"
  | val, next :: inp =>
      if val &&& oflowMask width ≠ 0 then .error "overflow in read_intger"
      else
        let val := (val <<< 7 ||| next.toNat &&& 127) % 2 ^ width
        if next.toNat &&& 128 ≠ 0 then readInteger width val inp else .ok (val, inp)

/-- The result of `DECODE_INTEGER_TYPE`: the value with the rest of the input, a part that waits for
more input, or an error with the part at which it came up. -/
inductive Decoded where
  | done (val : Nat) (rest : Bytes)
  | more (part : Nat)
  | invalid (message : String) (part : Nat) (rest : Bytes)
  deriving DecidableEq, Repr

/-- `DECODE_INTEGER_TYPE`, from the part `part` on. -/
def decodeInteger (width : Nat) : Nat → Bytes → Decoded
  | part, [] => .more part
  | part, next :: rest =>
      if part &&& oflowMask width ≠ 0 then .invalid "overflow in decode_integer" part rest
      else
        let part := (part <<< 7 ||| next.toNat &&& 127) % 2 ^ width
        if next.toNat &&& 128 = 0 then .done part rest else decodeInteger width part rest

/-- `xd3_sizeof_uint32_t`. -/
def sizeofUint32 (num : Nat) : Nat :=
  if num < 1 <<< 7 then 1
  else if num < 1 <<< 14 then 2
  else if num < 1 <<< 21 then 3
  else if num < 1 <<< 28 then 4
  else 5

/-- `xd3_emit_size`. -/
def emitSize (num : Nat) : Bytes := emitInteger num

/-- `xd3_emit_offset`. -/
def emitOffset (num : Nat) : Bytes := emitInteger num

/-- `xd3_read_size`. -/
def readSize (inp : Bytes) : Except String (Nat × Bytes) := readInteger 32 0 inp

/-- `xd3_sizeof_size`. -/
def sizeofSize (num : Nat) : Nat := sizeofUint32 num

/-! ## Digits -/

/-- The seven low bits. -/
theorem and_127 (n : Nat) : n &&& 127 = n % 128 := Nat.and_two_pow_sub_one_eq_mod n 7

/-- The mark is added. -/
theorem or_128 {n : Nat} (h : n < 128) : n ||| 128 = n + 128 := by
  have hor := Nat.two_pow_add_eq_or_of_lt (i := 7) (b := n) h 1
  rw [Nat.mul_one] at hor
  rw [Nat.or_comm, ← hor, Nat.add_comm]

/-- A byte without the mark is below 128. -/
theorem and_128_eq_zero (b : UInt8) : b.toNat &&& 128 = 0 ↔ b.toNat < 128 := by
  have hb := b.toNat_lt
  have hbit : b.toNat &&& 128 = (b.toNat.testBit 7).toNat * 2 ^ 7 := Nat.and_two_pow b.toNat 7
  rw [hbit, Nat.testBit_eq_decide_div_mod_eq, Nat.mul_eq_zero, Bool.toNat_eq_zero,
    decide_eq_false_iff_not]
  omega

/-- A digit that is shifted in. -/
theorem shift_or (val : Nat) (b : UInt8) :
    val <<< 7 ||| b.toNat &&& 127 = 128 * val + b.toNat % 128 := by
  have hdigit : b.toNat % 128 < 2 ^ 7 := Nat.mod_lt _ (by decide)
  rw [and_127, ← Nat.shiftLeft_add_eq_or_of_lt hdigit, Nat.shiftLeft_eq]
  omega

/-- The test for an overflow looks at the seven highest bits. -/
theorem and_oflow_mask_eq_zero {width val : Nat} (hwidth : 7 ≤ width) (hval : val < 2 ^ width) :
    val &&& oflowMask width = 0 ↔ 128 * val < 2 ^ width := by
  obtain ⟨k, rfl⟩ : ∃ k, width = k + 7 := ⟨width - 7, by omega⟩
  have hmask : val &&& oflowMask (k + 7) = (val >>> k) <<< k := by
    refine Nat.eq_of_testBit_eq fun i => ?_
    have h127 : (127 : Nat) = 2 ^ 7 - 1 := rfl
    rw [oflowMask, Nat.add_sub_cancel, Nat.testBit_and, Nat.testBit_shiftLeft,
      Nat.testBit_shiftLeft, Nat.testBit_shiftRight, h127, Nat.testBit_two_pow_sub_one]
    by_cases hk : k ≤ i
    · rw [Nat.add_sub_cancel' hk]
      by_cases hi : i < k + 7
      · simp [hk, show i - k < 7 by omega]
      · have hbit : val.testBit i = false :=
          Nat.testBit_lt_two_pow (hval.trans_le (Nat.pow_le_pow_right Nat.two_pos (by omega)))
        simp [hbit]
    · simp [hk]
  have hpow : 2 ^ (k + 7) = 128 * 2 ^ k := by rw [pow_add]; ring
  rw [hmask, Nat.shiftLeft_eq_zero_iff, Nat.shiftRight_eq_div_pow, Nat.div_eq_zero_iff, hpow]
  have hpos : 0 < 2 ^ k := Nat.two_pow_pos k
  omega

/-! ## Reading -/

/-- A round of `readInteger`. -/
theorem read_integer_cons {width val : Nat} (hwidth : 7 ≤ width) (hval : val < 2 ^ width)
    (b : UInt8) (inp : Bytes) :
    readInteger width val (b :: inp) =
      if 128 * val < 2 ^ width then
        if b.toNat < 128 then .ok (128 * val + b.toNat % 128, inp)
        else readInteger width (128 * val + b.toNat % 128) inp
      else .error "overflow in read_intger" := by
  rw [readInteger]
  by_cases hfits : 128 * val < 2 ^ width
  · have hmask := (and_oflow_mask_eq_zero hwidth hval).2 hfits
    obtain ⟨k, rfl⟩ : ∃ k, width = k + 7 := ⟨width - 7, by omega⟩
    have hpow : 2 ^ (k + 7) = 128 * 2 ^ k := by rw [pow_add]; ring
    have hsmall : 128 * val + b.toNat % 128 < 2 ^ (k + 7) := by omega
    rw [if_neg (not_not.2 hmask), if_pos hfits, shift_or, Nat.mod_eq_of_lt hsmall]
    by_cases hlast : b.toNat < 128
    · rw [if_neg (not_not.2 ((and_128_eq_zero b).2 hlast)), if_pos hlast]
    · rw [if_pos (fun hzero => hlast ((and_128_eq_zero b).1 hzero)), if_neg hlast]
  · rw [if_pos (fun hzero => hfits ((and_oflow_mask_eq_zero hwidth hval).1 hzero)), if_neg hfits]

/-- What is taken for an integer: a numeral whose value fits. -/
theorem read_integer_eq_ok_iff {width val n : Nat} {inp rest : Bytes} (hwidth : 7 ≤ width)
    (hval : val < 2 ^ width) :
    readInteger width val inp = .ok (n, rest) ↔
      ∃ ds, Base128.IsNumeral ds ∧ inp = ds ++ rest ∧ n = Base128.value val ds ∧ n < 2 ^ width := by
  induction inp generalizing val with
  | nil =>
      refine iff_of_false (by simp [readInteger]) ?_
      rintro ⟨ds, hds, hsplit, -⟩
      exact hds.ne_nil (List.append_eq_nil_iff.1 hsplit.symm).1
  | cons b inp ih =>
      rw [read_integer_cons hwidth hval]
      by_cases hfits : 128 * val < 2 ^ width
      · obtain ⟨k, rfl⟩ : ∃ k, width = k + 7 := ⟨width - 7, by omega⟩
        have hpow : 2 ^ (k + 7) = 128 * 2 ^ k := by rw [pow_add]; ring
        have hsmall : 128 * val + b.toNat % 128 < 2 ^ (k + 7) := by omega
        rw [if_pos hfits]
        by_cases hlast : b.toNat < 128
        · rw [if_pos hlast, Except.ok.injEq, Prod.mk.injEq]
          constructor
          · rintro ⟨rfl, rfl⟩
            exact ⟨[b], hlast, rfl, rfl, hsmall⟩
          · rintro ⟨ds, hds, hsplit, rfl, -⟩
            obtain ⟨rfl, rfl⟩ := Base128.IsNumeral.append_inj [b] hlast hds hsplit
            exact ⟨rfl, rfl⟩
        · rw [if_neg hlast, ih hsmall]
          constructor
          · rintro ⟨ds, hds, rfl, rfl, hn⟩
            exact ⟨b :: ds, hds.cons (by omega), rfl, rfl, hn⟩
          · rintro ⟨ds, hds, hsplit, rfl, hn⟩
            cases ds with
            | nil => exact hds.elim
            | cons c cs =>
                rw [List.cons_append, List.cons.injEq] at hsplit
                obtain ⟨rfl, rfl⟩ := hsplit
                have hne : cs ≠ [] := by
                  rintro rfl
                  exact hlast hds
                exact ⟨cs, ((Base128.is_numeral_cons hne).1 hds).2, rfl, rfl, hn⟩
      · rw [if_neg hfits]
        refine iff_of_false (by simp) ?_
        rintro ⟨ds, hds, hsplit, rfl, hn⟩
        cases ds with
        | nil => exact hds.elim
        | cons c cs =>
            rw [Base128.value_cons] at hn
            have hle := Base128.le_value (128 * val + c.toNat % 128) cs
            omega

/-! ## Writing -/

/-- A marked digit fits into a byte. -/
theorem to_nat_of_nat_high {d : Nat} (hd : d < 128) : (UInt8.ofNat (d + 128)).toNat = d + 128 := by
  rw [UInt8.toNat_ofNat', Nat.mod_eq_of_lt (by omega)]

/-- A byte without its mark. -/
theorem to_nat_and_127 (b : UInt8) : (b &&& 127).toNat = b.toNat % 128 := by
  rw [UInt8.toNat_and]
  exact and_127 b.toNat

/-- The loop writes the digits of the number, all with their high bit set. -/
theorem emit_loop_eq (bufi num : Nat) (buf : Bytes) (hpos : 0 < bufi) (hnum : num < 128 ^ bufi) :
    ∃ ds, emitLoop bufi num buf = ds ++ buf ∧ ds ≠ [] ∧ (∀ b ∈ ds, 128 ≤ b.toNat) ∧
      Base128.value 0 ds = num ∧ Base128.Shortest ds := by
  induction bufi generalizing num buf with
  | zero => omega
  | succ bufi ih =>
      have hdigit : num % 128 < 128 := Nat.mod_lt _ (by decide)
      have hbyte : UInt8.ofNat (num &&& 127 ||| 128) = UInt8.ofNat (num % 128 + 128) := by
        rw [and_127, or_128 hdigit]
      have hshift : num >>> 7 = num / 128 := Nat.shiftRight_eq_div_pow num 7
      rw [emitLoop, hbyte, hshift]
      by_cases hmore : num / 128 = 0
      · refine ⟨[UInt8.ofNat (num % 128 + 128)], by simp [hmore], by simp, ?_, ?_, .inl rfl⟩
        · intro b hb
          rw [List.mem_singleton.1 hb, to_nat_of_nat_high hdigit]
          omega
        · rw [Base128.value_cons, Base128.value_nil, to_nat_of_nat_high hdigit]
          omega
      · have hquotient : num / 128 < 128 ^ bufi := by
          rw [Nat.div_lt_iff_lt_mul (by decide), ← pow_succ]
          exact hnum
        have hbufi : 0 < bufi := by
          rcases Nat.eq_zero_or_pos bufi with rfl | hpos
          · rw [pow_zero] at hquotient
            omega
          · exact hpos
        obtain ⟨ds, hds, hne, hhigh, hvalue, hshortest⟩ :=
          ih _ (UInt8.ofNat (num % 128 + 128) :: buf) hbufi hquotient
        refine ⟨ds ++ [UInt8.ofNat (num % 128 + 128)], ?_, by simp, ?_, ?_, .inr ?_⟩
        · simp only [ne_eq, hmore, not_false_eq_true, if_true, hds, List.append_assoc,
            List.singleton_append]
        · intro b hb
          rcases List.mem_append.1 hb with hb | hb
          · exact hhigh b hb
          · rw [List.mem_singleton.1 hb, to_nat_of_nat_high hdigit]
            omega
        · rw [Base128.value_append, hvalue, Base128.value_cons, Base128.value_nil,
            to_nat_of_nat_high hdigit]
          omega
        · have hlen : ds.length = ds.length - 1 + 1 :=
            (Nat.sub_add_cancel (List.length_pos_iff.2 hne)).symm
          have hlead : 128 ^ (ds.length - 1) ≤ num / 128 := by
            rcases hshortest with hone | hlead
            · rw [hone]
              omega
            · rwa [hvalue] at hlead
          have htotal : Base128.value 0 (ds ++ [UInt8.ofNat (num % 128 + 128)]) = num := by
            rw [Base128.value_append, hvalue, Base128.value_cons, Base128.value_nil,
              to_nat_of_nat_high hdigit]
            omega
          rw [htotal, List.length_append, List.length_singleton, Nat.add_sub_cancel, hlen, pow_succ]
          omega

/-- The mark is taken off the last digit. -/
theorem turn_off_last_concat (bs : Bytes) (b : UInt8) :
    turnOffLast (bs ++ [b]) = bs ++ [b &&& 127] := by
  induction bs with
  | nil => rfl
  | cons c cs ih =>
      cases cs with
      | nil => rfl
      | cons d ds => exact congrArg (c :: ·) ih

/-- An integer is written as the shortest numeral of its value. -/
theorem emit_integer_spec {num : Nat} (hnum : num < 2 ^ 64) :
    Base128.IsNumeral (emitInteger num) ∧ Base128.value 0 (emitInteger num) = num ∧
      Base128.Shortest (emitInteger num) := by
  obtain ⟨ds, hds, hne, hhigh, hvalue, hshortest⟩ :=
    emit_loop_eq 10 num [] (by decide) (hnum.trans (by decide))
  obtain ⟨init, last, rfl⟩ : ∃ init last, ds = init ++ [last] :=
    ⟨ds.dropLast, ds.getLast hne, (List.dropLast_append_getLast hne).symm⟩
  have hemit : emitInteger num = init ++ [last &&& 127] := by
    rw [emitInteger, hds, List.append_nil, turn_off_last_concat]
  have hsame : Base128.value 0 (emitInteger num) = num := by
    rw [hemit, ← hvalue, Base128.value_append, Base128.value_append, Base128.value_cons,
      Base128.value_cons, to_nat_and_127, Nat.mod_mod]
  refine ⟨?_, hsame, ?_⟩
  · rw [hemit]
    refine Base128.is_numeral_append (fun b hb => hhigh b (List.mem_append_left _ hb)) ?_
    rw [to_nat_and_127]
    omega
  · unfold Base128.Shortest at hshortest ⊢
    rw [hvalue, List.length_append, List.length_singleton] at hshortest
    rwa [hsame, hemit, List.length_append, List.length_singleton]

/-- `xd3_sizeof_uint32_t` is the length of the integer that is written. -/
theorem length_emit_integer {num : Nat} (hnum : num < 2 ^ 32) :
    (emitInteger num).length = sizeofUint32 num := by
  obtain ⟨hnumeral, hvalue, hshortest⟩ := emit_integer_spec (hnum.trans (by decide))
  have hpos : 0 < (emitInteger num).length := List.length_pos_iff.2 hnumeral.ne_nil
  have hupper := Base128.value_lt (emitInteger num)
  rw [Base128.Shortest, hvalue] at hshortest
  rw [hvalue] at hupper
  have hlen : (emitInteger num).length ≤ 5 := by
    by_contra hlong
    rcases hshortest with hone | hlead
    · omega
    · have hpow : 128 ^ 5 ≤ 128 ^ ((emitInteger num).length - 1) :=
        Nat.pow_le_pow_right (by decide) (by omega)
      omega
  unfold sizeofUint32
  generalize (emitInteger num).length = len at hpos hupper hshortest hlen ⊢
  have hcases : len = 1 ∨ len = 2 ∨ len = 3 ∨ len = 4 ∨ len = 5 := by omega
  rcases hcases with rfl | rfl | rfl | rfl | rfl <;> split_ifs <;> omega

/-- Reading gives back what was written, and leaves what follows it. -/
theorem read_integer_emit_integer {width num : Nat} (hwidth : 7 ≤ width) (hle : width ≤ 64)
    (hnum : num < 2 ^ width) (rest : Bytes) :
    readInteger width 0 (emitInteger num ++ rest) = .ok (num, rest) := by
  have hsmall : num < 2 ^ 64 := hnum.trans_le (Nat.pow_le_pow_right Nat.two_pos hle)
  obtain ⟨hnumeral, hvalue, -⟩ := emit_integer_spec hsmall
  exact (read_integer_eq_ok_iff hwidth (Nat.two_pow_pos width)).2
    ⟨emitInteger num, hnumeral, rfl, hvalue.symm, hnum⟩

/-! ## Input in pieces -/

/-- Decoding goes on with more input where it was left. -/
theorem decode_integer_append (width part : Nat) (inp more : Bytes) :
    decodeInteger width part (inp ++ more) =
      match decodeInteger width part inp with
      | .done val rest => .done val (rest ++ more)
      | .more part => decodeInteger width part more
      | .invalid message part rest => .invalid message part (rest ++ more) := by
  induction inp generalizing part with
  | nil => rfl
  | cons next inp ih =>
      rw [List.cons_append, decodeInteger, decodeInteger]
      by_cases hmask : part &&& oflowMask width = 0
      · rw [if_neg (not_not.2 hmask), if_neg (not_not.2 hmask)]
        by_cases hlast : next.toNat &&& 128 = 0
        · simp only [if_pos hlast]
        · simp only [if_neg hlast, ih]
      · rw [if_pos hmask, if_pos hmask]

/-- The calls of the decoder for the pieces of an input. -/
def decodePieces (width : Nat) : Nat → List Bytes → Decoded
  | part, [] => .more part
  | part, piece :: pieces =>
      match decodeInteger width part piece with
      | .done val rest => .done val (rest ++ pieces.flatten)
      | .more part => decodePieces width part pieces
      | .invalid message part rest => .invalid message part (rest ++ pieces.flatten)

/-- An integer is read alike in pieces. -/
theorem decode_pieces_eq (width part : Nat) (pieces : List Bytes) :
    decodePieces width part pieces = decodeInteger width part pieces.flatten := by
  induction pieces generalizing part with
  | nil => rfl
  | cons piece pieces ih =>
      rw [decodePieces, List.flatten_cons, decode_integer_append]
      cases decodeInteger width part piece with
      | done val rest => rfl
      | more part => exact ih part
      | invalid message part rest => rfl

/-- The decoder takes the same bytes for an integer as the reader of a section. -/
theorem decode_integer_eq_done_iff {width part val : Nat} {inp rest : Bytes} :
    decodeInteger width part inp = .done val rest ↔
      readInteger width part inp = .ok (val, rest) := by
  induction inp generalizing part with
  | nil => simp [decodeInteger, readInteger]
  | cons next inp ih =>
      rw [decodeInteger, readInteger]
      by_cases hmask : part &&& oflowMask width = 0
      · rw [if_neg (not_not.2 hmask), if_neg (not_not.2 hmask)]
        by_cases hlast : next.toNat &&& 128 = 0
        · simp only [hlast, ne_eq, not_true_eq_false, if_true, if_false, Decoded.done.injEq,
            Except.ok.injEq, Prod.mk.injEq]
        · simp only [hlast, ne_eq, not_false_eq_true, if_true, if_false]
          exact ih
      · rw [if_pos hmask, if_pos hmask]
        simp

/-- For integers of 32 and of 64 bits: what is written is the shortest numeral of its number, and
has the length that is announced. The decoder takes a numeral exactly if its value fits, in which
way ever the input is cut, and so does the reader of a section. -/
theorem integers_round_trip {width : Nat} (hwidth : width = 32 ∨ width = 64) :
    (∀ num < 2 ^ width, Base128.IsNumeral (emitInteger num) ∧
      Base128.value 0 (emitInteger num) = num ∧
      (∀ ds, Base128.IsNumeral ds → Base128.value 0 ds = num →
        (emitInteger num).length ≤ ds.length) ∧
      (width = 32 → (emitInteger num).length = sizeofUint32 num)) ∧
    (∀ pieces val rest, decodePieces width 0 pieces = .done val rest ↔
      ∃ ds, Base128.IsNumeral ds ∧ pieces.flatten = ds ++ rest ∧ val = Base128.value 0 ds ∧
        val < 2 ^ width) ∧
    ∀ inp val rest, readInteger width 0 inp = .ok (val, rest) ↔
      decodePieces width 0 [inp] = .done val rest := by
  have hle : 7 ≤ width ∧ width ≤ 64 := by omega
  refine ⟨fun num hnum => ?_, fun pieces val rest => ?_, fun inp val rest => ?_⟩
  · have hsmall : num < 2 ^ 64 := hnum.trans_le (Nat.pow_le_pow_right Nat.two_pos hle.2)
    obtain ⟨hnumeral, hvalue, hshortest⟩ := emit_integer_spec hsmall
    refine ⟨hnumeral, hvalue, fun ds hds hsame => ?_, fun h32 => ?_⟩
    · exact hshortest.length_le hds.ne_nil (hvalue.trans hsame.symm).le
    · rw [h32] at hnum
      exact length_emit_integer hnum
  · rw [decode_pieces_eq, decode_integer_eq_done_iff,
      read_integer_eq_ok_iff hle.1 (Nat.two_pow_pos width)]
  · rw [decode_pieces_eq, decode_integer_eq_done_iff, List.flatten_singleton]

/-- The number 300, in two pieces with one byte behind it. -/
theorem integers_round_trip_300 :
    emitInteger 300 = [0x82, 0x2c] ∧ decodePieces 32 0 [[0x82], [0x2c, 7]] = .done 300 [7] := by
  refine ⟨by decide, ?_⟩
  rw [(integers_round_trip (.inl rfl)).2.1]
  exact ⟨[0x82, 0x2c], ⟨by decide, Base128.is_numeral_singleton.2 (by decide)⟩, rfl, rfl, by decide⟩

end NamelessCenter.Vcdiff
