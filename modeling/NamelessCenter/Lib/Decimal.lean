import NamelessCenter.Lib.Text

/-!
# Decimal numbers

`parseInt` and `parseLong` read what `toString` writes: a sign and the decimal digits. They differ
in the range they accept, and `parseDecimal` is what they share.
-/

namespace Text

/-- The digits behind the sign, if there is one. -/
def unsigned (cs : List Char) : List Char :=
  if cs.head? = some '-' ∨ cs.head? = some '+' then cs.tail else cs

/-- The number that decimal digits stand for, of any size. -/
def parseDigits (cs : List Char) : Option Int :=
  ((cs.mapM decimalDigit).filter (· ≠ [])).map fun values =>
    values.foldl (fun (n : Int) (d : Nat) => 10 * n + d) 0

/-- The number that a sign and decimal digits stand for. -/
def parseDecimal (s : String) : Option Int :=
  (parseDigits (unsigned s.toList)).map fun magnitude =>
    if s.toList.head? = some '-' then -magnitude else magnitude

/-- `Long.parseLong(s)`, if it does not throw. -/
def parseLong (s : String) : Option Int :=
  (parseDecimal s).filter fun value => -2 ^ 63 ≤ value ∧ value < 2 ^ 63

/-- `parseInt` takes the numbers in the range of an `int`. -/
theorem parse_int_eq (s : String) :
    parseInt s = (parseDecimal s).filter fun value => -2 ^ 31 ≤ value ∧ value < 2 ^ 31 := by
  -- its loop runs over the digits as integers
  have hloop : ∀ values : List Nat, (values >>= fun d => pure (d : Int)).foldl
      (fun n d => 10 * n + d) 0 = values.foldl (fun (n : Int) (d : Nat) => 10 * n + d) 0 :=
    fun values => by
      rw [show (values >>= fun d => pure (d : Int)) = values.map Nat.cast from
        (List.map_eq_flatMap (f := Nat.cast) (l := values)).symm, List.foldl_map]
  unfold parseInt
  split
  rename_i signed negative digits hsigned
  have hdecimal : parseDecimal s = (parseDigits digits).map fun magnitude =>
      if negative then -magnitude else magnitude := by
    unfold parseDecimal unsigned
    split at hsigned
    · rename_i cs htext
      cases hsigned
      simp [htext]
    · rename_i cs htext
      cases hsigned
      simp [htext]
    · rename_i cs hminus hplus
      cases hsigned
      have hhead : ∀ c, (∀ cs, s.toList = c :: cs → False) → s.toList.head? ≠ some c := by
        intro c hne hhead
        obtain ⟨cs, hcs⟩ := List.head?_eq_some_iff.1 hhead
        exact hne cs hcs
      simp [hhead _ hminus, hhead _ hplus]
  rw [hdecimal]
  unfold parseDigits
  rcases digits.mapM decimalDigit with - | - | ⟨v, vs⟩
  · rfl
  · rfl
  · simp only [hloop]
    simp [Option.filter]

/-! ## Digits -/

/-- The digits 0 to 9 are the first block of decimal digits. -/
theorem decimal_digit_of_is_digit {c : Char} (h : c.isDigit) :
    decimalDigit c = some (c.toNat - 48) := by
  have hlow : 48 ≤ c.toNat ∧ c.toNat ≤ 57 := by
    simpa [Char.isDigit, UInt32.le_iff_toNat_le] using h
  unfold decimalDigit decimalZeros
  rw [List.findSome?_cons, if_pos (by omega)]

/-- Digits are read as their values. -/
theorem map_m_decimal_digit {cs : List Char} (h : ∀ c ∈ cs, c.isDigit) :
    cs.mapM decimalDigit = some (cs.map fun c => c.toNat - 48) := by
  induction cs with
  | nil => rfl
  | cons c cs ih =>
      have hrest := ih fun d hd => h d (List.mem_cons_of_mem _ hd)
      rw [List.mapM_cons, decimal_digit_of_is_digit (h c List.mem_cons_self), hrest]
      rfl

/-- The loop over the digits computes the number they stand for. -/
theorem foldl_digits (cs : List Char) (n : Nat) :
    (cs.map fun c => c.toNat - 48).foldl (fun (n : Int) (d : Nat) => 10 * n + d) (n : Int) =
      (Nat.ofDigitChars 10 cs n : Int) := by
  induction cs generalizing n with
  | nil => simp
  | cons c cs ih =>
      have hzero : '0'.toNat = 48 := rfl
      rw [List.map_cons, List.foldl_cons, Nat.ofDigitChars_cons, hzero, ← ih, Nat.cast_add,
        Nat.cast_mul]
      rfl

/-! ## Numbers -/

/-- The digits of a number are decimal. -/
theorem is_digit_of_mem {n : Nat} {c : Char} (h : c ∈ Nat.toDigits 10 n) : c.isDigit :=
  Nat.isDigit_of_mem_toDigits (by omega) (by omega) h

/-- The digits of a number are read as the number. -/
theorem parse_digits_to_digits (n : Nat) : parseDigits (Nat.toDigits 10 n) = some (n : Int) := by
  have hne : (Nat.toDigits 10 n).map (fun c => c.toNat - 48) ≠ [] := fun hnil =>
    Nat.toDigits_ne_nil (List.map_eq_nil_iff.1 hnil)
  have hfold := foldl_digits (Nat.toDigits 10 n) 0
  rw [Nat.ofDigitChars_toDigits (by omega) (by omega)] at hfold
  rw [parseDigits, map_m_decimal_digit fun c => is_digit_of_mem, Option.filter_some,
    if_pos (decide_eq_true hne)]
  exact congrArg some hfold

/-- The text of a natural number does not start with a sign. -/
theorem head_to_digits_ne {n : Nat} {c : Char} (hc : ¬ c.isDigit) :
    (Nat.toDigits 10 n).head? ≠ some c :=
  fun hhead => hc (is_digit_of_mem (List.mem_of_head? hhead))

/-- So is its text, with a sign or without. -/
theorem parse_decimal_to_string (i : Int) : parseDecimal (toString i) = some i := by
  cases i with
  | ofNat n =>
      have htext : (toString (Int.ofNat n)).toList = Nat.toDigits 10 n := Nat.toList_repr
      have hminus := head_to_digits_ne (n := n) (c := '-') (by decide)
      have hplus := head_to_digits_ne (n := n) (c := '+') (by decide)
      have hunsigned : unsigned (Nat.toDigits 10 n) = Nat.toDigits 10 n :=
        if_neg (not_or.2 ⟨hminus, hplus⟩)
      rw [parseDecimal, htext, hunsigned, parse_digits_to_digits, Option.map_some, if_neg hminus]
      rfl
  | negSucc n =>
      have htext : (toString (Int.negSucc n)).toList = '-' :: Nat.toDigits 10 (n + 1) := by
        show ("-" ++ Nat.repr (n + 1)).toList = _
        rw [String.toList_append, Nat.toList_repr]
        rfl
      have hunsigned : unsigned ('-' :: Nat.toDigits 10 (n + 1)) = Nat.toDigits 10 (n + 1) := rfl
      rw [parseDecimal, htext, hunsigned, parse_digits_to_digits]
      rfl

/-- `parseInt` reads the text of a number of 32 bits. -/
theorem parse_int_to_string {i : Int} (hlow : -2 ^ 31 ≤ i) (hhigh : i < 2 ^ 31) :
    parseInt (toString i) = some i := by
  rw [parse_int_eq, parse_decimal_to_string, Option.filter_some,
    if_pos (by simpa using ⟨hlow, hhigh⟩)]

/-- A number is not written as the empty text. -/
theorem to_string_ne_empty (i : Int) : toString i ≠ "" := by
  intro hempty
  have hparse := parse_decimal_to_string i
  rw [hempty] at hparse
  cases hparse

end Text
