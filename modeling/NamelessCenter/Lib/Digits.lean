import Mathlib.Algebra.Group.Nat.Defs
import Mathlib.Data.List.Basic
import Mathlib.Data.List.Induction

/-!
# Digits of a fixed width

`fixed b w n` are the last `w` digits of `n` in base `b`. A number of at most `w` digits is written
with them when its digits are filled up with zeros (`leftpad_to_digits`). The hexadecimal digits of
a byte string, read as one big-endian number, are the two digits of each byte (`fixed_of_bytes`).
-/

namespace Digits

/-- The last `w` digits of `n`, most significant first. -/
def fixed (b : Nat) : Nat → Nat → List Char
  | 0, _ => []
  | w + 1, n => fixed b w (n / b) ++ [Nat.digitChar (n % b)]

/-- There are as many digits as the width says. -/
@[simp] theorem length_fixed (b w n : Nat) : (fixed b w n).length = w := by
  induction w generalizing n with
  | zero => rfl
  | succ w ih => rw [fixed, List.length_append, ih, List.length_singleton]

/-- Zero is written with zeros. -/
theorem fixed_zero (b w : Nat) : fixed b w 0 = List.replicate w '0' := by
  induction w with
  | zero => rfl
  | succ w ih =>
      rw [fixed, Nat.zero_div, Nat.zero_mod, ih, List.replicate_succ']
      rfl

/-- Appending a digit. -/
theorem fixed_mul_add {b d : Nat} (w n : Nat) (hd : d < b) :
    fixed b (w + 1) (b * n + d) = fixed b w n ++ [Nat.digitChar d] := by
  rw [fixed, Nat.mul_add_div (Nat.zero_lt_of_lt hd), Nat.div_eq_of_lt hd, Nat.add_zero,
    Nat.mul_add_mod, Nat.mod_eq_of_lt hd]

/-- The digits of a number, filled up with zeros. -/
theorem leftpad_to_digits {b w n : Nat} (hb : 1 < b) (hw : 0 < w) (hn : n < b ^ w) :
    List.leftpad w '0' (Nat.toDigits b n) = fixed b w n := by
  induction w generalizing n with
  | zero => omega
  | succ w ih =>
      rw [Nat.toDigits_eq_if hb, fixed]
      split
      · rename_i hlt
        rw [Nat.div_eq_of_lt hlt, Nat.mod_eq_of_lt hlt, fixed_zero]
        rfl
      · rename_i hge
        have hwpos : 0 < w := Nat.pos_of_ne_zero fun hzero => by
          rw [hzero, Nat.zero_add, Nat.pow_one] at hn
          exact hge hn
        have hdiv : n / b < b ^ w := by
          rw [Nat.div_lt_iff_lt_mul (by omega), ← Nat.pow_succ]
          exact hn
        rw [← ih hwpos hdiv, List.leftpad, List.leftpad, List.length_append, List.length_singleton,
          Nat.add_sub_add_right, List.append_assoc]

/-! ## Bytes -/

/-- The big-endian number that the bytes stand for. -/
def ofBytes (bs : List UInt8) : Nat := bs.foldl (fun n b => 256 * n + b.toNat) 0

/-- The two hexadecimal digits of a byte. -/
def hexPair (b : UInt8) : List Char := [Nat.digitChar (b.toNat / 16), Nat.digitChar (b.toNat % 16)]

/-- The last byte counts least. -/
theorem of_bytes_append (bs : List UInt8) (b : UInt8) :
    ofBytes (bs ++ [b]) = 256 * ofBytes bs + b.toNat := by
  rw [ofBytes, List.foldl_append]
  rfl

/-- The bytes bound their number. -/
theorem of_bytes_lt (bs : List UInt8) : ofBytes bs < 16 ^ (2 * bs.length) := by
  induction bs using List.reverseRecOn with
  | nil => exact Nat.zero_lt_one
  | append_singleton bs b ih =>
      have hb := b.toNat_lt
      rw [of_bytes_append, List.length_append, List.length_singleton, Nat.mul_add, Nat.pow_add]
      omega

/-- The hexadecimal digits of a byte string are the pairs of its bytes. -/
theorem fixed_of_bytes (bs : List UInt8) :
    fixed 16 (2 * bs.length) (ofBytes bs) = bs.flatMap hexPair := by
  induction bs using List.reverseRecOn with
  | nil => rfl
  | append_singleton bs b ih =>
      have hb := b.toNat_lt
      have hsplit : 256 * ofBytes bs + b.toNat =
          16 * (16 * ofBytes bs + b.toNat / 16) + b.toNat % 16 := by omega
      rw [of_bytes_append, List.length_append, List.length_singleton, Nat.mul_add, Nat.mul_one,
        hsplit, fixed_mul_add _ _ (by omega), fixed_mul_add _ _ (by omega), ih,
        List.flatMap_append, List.append_assoc]
      rfl

/-- The digits are those of a lower-case hexadecimal form. -/
theorem to_lower_hex_pair (b : UInt8) : (hexPair b).map Char.toLower = hexPair b := by
  have hdigit : ∀ d < 16, (Nat.digitChar d).toLower = Nat.digitChar d := by decide
  have hb := b.toNat_lt
  rw [hexPair, List.map_cons, List.map_cons, List.map_nil, hdigit _ (by omega),
    hdigit _ (by omega)]

end Digits
