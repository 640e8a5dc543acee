import Mathlib.Data.Rat.Floor
import Mathlib.Tactic.Linarith
import Mathlib.Tactic.Ring
import Mathlib.Tactic.FieldSimp
import Mathlib.Tactic.NormNum
import Mathlib.Tactic.Positivity

/-!
# Double-precision arithmetic on rationals

The operations of a 64-bit floating-point type, in the range where neither overflow nor underflow
occurs: every operation computes the exact result and rounds it to the nearest multiple of its unit
in the last place, ties to even. `toInt` is the conversion to a 32-bit integer, which truncates and
saturates. Rounding changes a result by at most 2⁻⁵³ of it (`abs_of_rat_sub_le`).
-/

namespace Double

/-- The power of two with an integer exponent. -/
def pow2 : Int → ℚ
  | .ofNat n => ((2 ^ n : Nat) : ℚ)
  | .negSucc n => 1 / ((2 ^ (n + 1) : Nat) : ℚ)

/-- The exponent of the leading binary digit of a nonzero rational. -/
def exponent (q : ℚ) : Int :=
  let e : Int := (Nat.log2 q.num.natAbs : Int) - (Nat.log2 q.den : Int)
  if pow2 e ≤ |q| then e else e - 1

/-- The nearest integer, ties to even. -/
def nearest (q : ℚ) : Int :=
  let rest := q - ⌊q⌋
  if rest < 1 / 2 then ⌊q⌋
  else if 1 / 2 < rest then ⌊q⌋ + 1
  else if ⌊q⌋ % 2 = 0 then ⌊q⌋ else ⌊q⌋ + 1

/-- The nearest double of a rational in the normal range. -/
def ofRat (q : ℚ) : ℚ :=
  if q = 0 then 0
  else
    let ulp := pow2 (exponent q - 52)
    nearest (q / ulp) * ulp

/-- The cast of a double to a 32-bit integer. -/
def toInt (q : ℚ) : Int :=
  let truncated := if 0 ≤ q then ⌊q⌋ else -⌊-q⌋
  max (-2 ^ 31) (min (2 ^ 31 - 1) truncated)

/-! ## The rounding error -/

/-- The power with an integer exponent. -/
theorem pow2_eq_zpow (e : Int) : pow2 e = (2 : ℚ) ^ e := by
  cases e with
  | ofNat n => simp [pow2]
  | negSucc n => simp [pow2, zpow_negSucc]

/-- The leading binary digit is not above the number. -/
theorem pow2_exponent_le {q : ℚ} (h : q ≠ 0) : pow2 (exponent q) ≤ |q| := by
  simp only [exponent]
  split
  · assumption
  · have hnum : q.num.natAbs ≠ 0 := by simpa using h
    have hlow : (2 : ℚ) ^ Nat.log2 q.num.natAbs ≤ q.num.natAbs := by
      exact_mod_cast Nat.log2_self_le hnum
    have hhigh : (q.den : ℚ) ≤ 2 ^ (Nat.log2 q.den + 1) := by
      exact_mod_cast Nat.lt_log2_self.le
    have hden : (0 : ℚ) < q.den := by exact_mod_cast q.den_pos
    have habs : |q| = q.num.natAbs / q.den := by
      conv_lhs => rw [← Rat.num_div_den q]
      rw [abs_div, Nat.abs_cast, Nat.cast_natAbs, Int.cast_abs]
    rw [pow2_eq_zpow, habs, le_div_iff₀ hden]
    calc (2 : ℚ) ^ ((Nat.log2 q.num.natAbs : Int) - Nat.log2 q.den - 1) * q.den
        ≤ (2 : ℚ) ^ ((Nat.log2 q.num.natAbs : Int) - Nat.log2 q.den - 1) *
            2 ^ (Nat.log2 q.den + 1) :=
          mul_le_mul_of_nonneg_left hhigh (zpow_nonneg two_pos.le _)
      _ = 2 ^ Nat.log2 q.num.natAbs := by
          rw [← zpow_natCast, ← zpow_natCast, ← zpow_add₀ two_ne_zero]
          congr 1
          push_cast
          ring
      _ ≤ q.num.natAbs := hlow

/-- The nearest integer is at most a half away. -/
theorem abs_nearest_sub_le (q : ℚ) : |(nearest q : ℚ) - q| ≤ 1 / 2 := by
  have hlow := Int.floor_le q
  have hhigh := Int.lt_floor_add_one q
  rw [abs_le]
  simp only [nearest]
  split
  · constructor <;> linarith
  · split
    · push_cast
      constructor <;> linarith
    · split
      · constructor <;> linarith
      · push_cast
        constructor <;> linarith

/-- Rounding changes a number by at most half a unit in its last place. -/
theorem abs_of_rat_sub_le (q : ℚ) : |ofRat q - q| ≤ |q| / 2 ^ 53 := by
  by_cases h : q = 0
  · simp [ofRat, h]
  · have hpos : 0 < pow2 (exponent q - 52) := by
      rw [pow2_eq_zpow]
      exact zpow_pos two_pos _
    have hulp : pow2 (exponent q - 52) ≤ |q| / 2 ^ 52 := by
      have hle := pow2_exponent_le h
      rw [pow2_eq_zpow] at hle ⊢
      rw [zpow_sub₀ two_ne_zero, le_div_iff₀ (by positivity)]
      have hcast : (2 : ℚ) ^ (52 : Int) = 2 ^ 52 := by norm_cast
      rw [hcast, div_mul_cancel₀ _ (by positivity)]
      exact hle
    have hround := abs_nearest_sub_le (q / pow2 (exponent q - 52))
    rw [ofRat, if_neg h]
    calc |(nearest (q / pow2 (exponent q - 52)) : ℚ) * pow2 (exponent q - 52) - q|
        = |(nearest (q / pow2 (exponent q - 52)) : ℚ) - q / pow2 (exponent q - 52)| *
            pow2 (exponent q - 52) := by
          rw [← abs_of_pos hpos, ← abs_mul, abs_of_pos hpos, sub_mul, div_mul_cancel₀ _ hpos.ne']
      _ ≤ 1 / 2 * (|q| / 2 ^ 52) := by gcongr
      _ = |q| / 2 ^ 53 := by ring

/-- A rounded number is at most 2⁻⁵³ of it away. -/
theorem of_rat_bounds {q : ℚ} (h : 0 ≤ q) :
    q * (1 - 1 / 2 ^ 53) ≤ ofRat q ∧ ofRat q ≤ q * (1 + 1 / 2 ^ 53) := by
  have hle := abs_le.1 (abs_of_rat_sub_le q)
  rw [abs_of_nonneg h] at hle
  constructor
  · linarith [hle.1]
  · linarith [hle.2]

/-- Rounding keeps the sign. -/
theorem of_rat_nonneg {q : ℚ} (h : 0 ≤ q) : 0 ≤ ofRat q :=
  le_trans (mul_nonneg h (by norm_num)) (of_rat_bounds h).1

/-- The cast of a number below `n` is below `n`. -/
theorem to_int_lt {q : ℚ} {n : Nat} (h : 0 ≤ q) (hlt : q < n) : toInt q < n := by
  have hfloor : ⌊q⌋ < (n : Int) := Int.floor_lt.2 (by exact_mod_cast hlt)
  have hn : (0 : Int) < n := by
    have : (0 : ℚ) < n := lt_of_le_of_lt h hlt
    exact_mod_cast this
  simp only [toInt, if_pos h]
  omega

end Double
