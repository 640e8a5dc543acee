import Mathlib.Data.Nat.Bitwise
import Mathlib.Data.Nat.Log
import Mathlib.Data.Nat.Size

/-!
# Filling the bits below the highest one

A power of two that is not below `n` can be had by setting all bits of `n - 1` below its highest
one, with shifts that double the length of the runs of bits. `Fills v w x` says how far this has
come: every bit of `v` has been spread over the `w` positions from its own downwards.
`Fills.add_one` is the result when the runs are as long as the number.
-/

namespace Bits

/-- The bits of `x` are those of `v`, each with the `w - 1` positions below it. -/
def Fills (v w x : Nat) : Prop := ∀ i, x.testBit i ↔ ∃ j < w, v.testBit (i + j)

/-- A number fills one position of itself. -/
theorem fills_self (v : Nat) : Fills v 1 v := by
  intro i
  constructor
  · intro hbit
    exact ⟨0, Nat.one_pos, hbit⟩
  · rintro ⟨j, hj, hbit⟩
    rwa [Nat.lt_one_iff.1 hj] at hbit

/-- A shift by no more than the length of the runs makes them longer by as much. -/
theorem Fills.or_shift_right {v w x : Nat} (h : Fills v w x) {s : Nat} (hs : s ≤ w) :
    Fills v (w + s) (x ||| x >>> s) := by
  intro i
  rw [Nat.testBit_or, Nat.testBit_shiftRight, Bool.or_eq_true, h, h]
  constructor
  · rintro (⟨j, hj, hbit⟩ | ⟨j, hj, hbit⟩)
    · exact ⟨j, by omega, hbit⟩
    · exact ⟨j + s, by omega, by rwa [show i + (j + s) = s + i + j by omega]⟩
  · rintro ⟨j, hj, hbit⟩
    by_cases hnear : j < w
    · exact .inl ⟨j, hnear, hbit⟩
    · exact .inr ⟨j - s, by omega, by rwa [show s + i + (j - s) = i + j by omega]⟩

/-- The number of bits is the exponent of the next power of two. -/
theorem size_eq_clog (v : Nat) : v.size = Nat.clog 2 (v + 1) := by
  refine eq_of_forall_ge_iff fun k => ?_
  rw [Nat.size_le, Nat.clog_le_iff_le_pow Nat.one_lt_two, Nat.succ_le_iff]

/-- When the runs are as long as the number, one more is the next power of two. -/
theorem Fills.add_one {v w x : Nat} (h : Fills v w x) (hv : v < 2 ^ w) :
    x + 1 = 2 ^ Nat.clog 2 (v + 1) := by
  have hx : x = 2 ^ v.size - 1 := by
    refine Nat.eq_of_testBit_eq fun i => ?_
    rw [Nat.testBit_two_pow_sub_one, Bool.eq_iff_iff, h, decide_eq_true_iff, Nat.lt_size]
    constructor
    · rintro ⟨j, -, hbit⟩
      calc 2 ^ i ≤ 2 ^ (i + j) := Nat.pow_le_pow_right Nat.two_pos (Nat.le_add_right i j)
        _ ≤ v := Nat.ge_two_pow_of_testBit hbit
    · intro hle
      obtain ⟨k, hk, hbit⟩ := Nat.exists_ge_and_testBit_of_ge_two_pow hle
      have hlow : k < w := by
        by_contra hhigh
        rw [Nat.testBit_lt_two_pow (hv.trans_le (Nat.pow_le_pow_right Nat.two_pos (by omega)))]
          at hbit
        cases hbit
      exact ⟨k - i, by omega, by rwa [Nat.add_sub_cancel' hk]⟩
  rw [hx, Nat.sub_add_cancel Nat.one_le_two_pow, size_eq_clog]

/-- The next power of two is below twice the number. -/
theorem two_pow_clog_lt {n : Nat} (hn : 0 < n) : 2 ^ Nat.clog 2 n < 2 * n := by
  by_cases hone : n = 1
  · rw [hone, Nat.clog_one_right]
    decide
  · have hprevious : 2 ^ (Nat.clog 2 n).pred < n :=
      Nat.pow_pred_clog_lt_self Nat.one_lt_two (by omega)
    have hpos : 0 < Nat.clog 2 n := Nat.clog_pos Nat.one_lt_two (by omega)
    calc 2 ^ Nat.clog 2 n = 2 * 2 ^ (Nat.clog 2 n).pred := by
          rw [← pow_succ', ← Nat.succ_eq_add_one, Nat.succ_pred_eq_of_pos hpos]
      _ < 2 * n := by omega

/-- The next power of two of `n` is not below `m` exactly if no power of two comes between. -/
theorem le_two_pow_clog_iff {m n : Nat} :
    m ≤ 2 ^ Nat.clog 2 n ↔ ∀ k, n ≤ 2 ^ k → m ≤ 2 ^ k := by
  constructor
  · intro hle k hk
    have hclog : Nat.clog 2 n ≤ k := Nat.clog_le_of_le_pow hk
    exact hle.trans (Nat.pow_le_pow_right Nat.two_pos hclog)
  · intro h
    exact h _ (Nat.le_pow_clog Nat.one_lt_two n)

end Bits
