import Mathlib.Data.List.Basic
import Mathlib.Data.Nat.Bitwise
import Mathlib.Tactic.Ring

/-!
# Numbers of seven bits a byte

A numeral is a byte string in which all bytes but the last have their high bit set; the low seven
bits of its bytes are the digits of a number in base 128, most significant first. A numeral shows
where it ends (`IsNumeral.append_inj`), and one without leading zeros is the shortest of its number
(`Shortest.length_le`).
-/

namespace Base128

/-- The number that the bytes add to `n`, digit by digit. -/
def value (n : Nat) (bs : List UInt8) : Nat := bs.foldl (fun n b => 128 * n + b.toNat % 128) n

/-- No digit adds nothing. -/
@[simp] theorem value_nil (n : Nat) : value n [] = n := rfl

/-- A digit is read from the seven low bits of a byte. -/
@[simp] theorem value_cons (n : Nat) (b : UInt8) (bs : List UInt8) :
    value n (b :: bs) = value (128 * n + b.toNat % 128) bs := rfl

/-- Digits are read one after the other. -/
theorem value_append (n : Nat) (bs cs : List UInt8) :
    value n (bs ++ cs) = value (value n bs) cs :=
  List.foldl_append

/-- What was read before is moved up by the digits. -/
theorem value_eq (n : Nat) (bs : List UInt8) :
    value n bs = 128 ^ bs.length * n + value 0 bs := by
  induction bs generalizing n with
  | nil => simp
  | cons b bs ih =>
      rw [value_cons, value_cons, ih, ih (128 * 0 + b.toNat % 128), List.length_cons]
      ring

/-- Reading on does not make the number smaller. -/
theorem le_value (n : Nat) (bs : List UInt8) : n ≤ value n bs := by
  rw [value_eq]
  have hpow : 1 ≤ 128 ^ bs.length := Nat.one_le_pow _ _ (by decide)
  calc n = 1 * n := (Nat.one_mul n).symm
    _ ≤ 128 ^ bs.length * n := Nat.mul_le_mul_right n hpow
    _ ≤ 128 ^ bs.length * n + value 0 bs := Nat.le_add_right _ _

/-- The digits bound their number. -/
theorem value_lt (bs : List UInt8) : value 0 bs < 128 ^ bs.length := by
  induction bs with
  | nil => simp
  | cons b bs ih =>
      rw [value_cons, value_eq, List.length_cons, pow_succ]
      have hdigit : b.toNat % 128 < 128 := Nat.mod_lt _ (by decide)
      calc 128 ^ bs.length * (128 * 0 + b.toNat % 128) + value 0 bs
          < 128 ^ bs.length * (128 * 0 + b.toNat % 128) + 128 ^ bs.length := by omega
        _ = 128 ^ bs.length * (b.toNat % 128 + 1) := by ring
        _ ≤ 128 ^ bs.length * 128 := Nat.mul_le_mul_left _ hdigit

/-- All bytes but the last have their high bit set. -/
def IsNumeral : List UInt8 → Prop
  | [] => False
  | [b] => b.toNat < 128
  | b :: bs => 128 ≤ b.toNat ∧ IsNumeral bs

/-- A byte is a numeral if it has no mark. -/
theorem is_numeral_singleton {b : UInt8} : IsNumeral [b] ↔ b.toNat < 128 := Iff.rfl

/-- A longer numeral starts with a mark. -/
theorem is_numeral_cons {b : UInt8} {bs : List UInt8} (h : bs ≠ []) :
    IsNumeral (b :: bs) ↔ 128 ≤ b.toNat ∧ IsNumeral bs := by
  cases bs with
  | nil => exact absurd rfl h
  | cons c cs => exact Iff.rfl

/-- A numeral has a digit. -/
theorem IsNumeral.ne_nil {bs : List UInt8} (h : IsNumeral bs) : bs ≠ [] := by
  rintro rfl
  exact h

/-- A marked digit in front of a numeral. -/
theorem IsNumeral.cons {b : UInt8} {bs : List UInt8} (hb : 128 ≤ b.toNat) (h : IsNumeral bs) :
    IsNumeral (b :: bs) :=
  (is_numeral_cons h.ne_nil).2 ⟨hb, h⟩

/-- Bytes with high bits before a last byte without one. -/
theorem is_numeral_append {bs : List UInt8} {b : UInt8} (hbs : ∀ c ∈ bs, 128 ≤ c.toNat)
    (hb : b.toNat < 128) : IsNumeral (bs ++ [b]) := by
  induction bs with
  | nil => exact hb
  | cons c cs ih =>
      have hcs : ∀ d ∈ cs, 128 ≤ d.toNat := fun d hd => hbs d (List.mem_cons_of_mem c hd)
      exact (ih hcs).cons (hbs c List.mem_cons_self)

/-- A numeral shows where it ends. -/
theorem IsNumeral.append_inj (bs : List UInt8) {cs xs ys : List UInt8} (hbs : IsNumeral bs)
    (hcs : IsNumeral cs) (h : bs ++ xs = cs ++ ys) : bs = cs ∧ xs = ys := by
  induction bs generalizing cs with
  | nil => exact hbs.elim
  | cons b bs ih =>
      cases cs with
      | nil => exact hcs.elim
      | cons c cs =>
          rw [List.cons_append, List.cons_append, List.cons.injEq] at h
          obtain ⟨rfl, htail⟩ := h
          by_cases hnil : bs = []
          · subst hnil
            rw [is_numeral_singleton] at hbs
            have hcsnil : cs = [] := by
              by_contra hne
              have hhigh := ((is_numeral_cons hne).1 hcs).1
              omega
            subst hcsnil
            exact ⟨rfl, htail⟩
          · obtain ⟨hhigh, htailNumeral⟩ := (is_numeral_cons hnil).1 hbs
            have hne : cs ≠ [] := by
              rintro rfl
              rw [is_numeral_singleton] at hcs
              omega
            obtain ⟨rfl, rfl⟩ := ih htailNumeral ((is_numeral_cons hne).1 hcs).2 htail
            exact ⟨rfl, rfl⟩

/-- No leading zeros. -/
def Shortest (bs : List UInt8) : Prop := bs.length = 1 ∨ 128 ^ (bs.length - 1) ≤ value 0 bs

/-- No numeral of the same or a greater number is shorter than one without leading zeros. -/
theorem Shortest.length_le {bs cs : List UInt8} (h : Shortest bs) (hcs : cs ≠ [])
    (hvalue : value 0 bs ≤ value 0 cs) : bs.length ≤ cs.length := by
  have hpos : 0 < cs.length := List.length_pos_iff.2 hcs
  rcases h with hone | hlead
  · omega
  · have hlt : bs.length - 1 < cs.length :=
      (Nat.pow_lt_pow_iff_right (by decide)).1 ((hlead.trans hvalue).trans_lt (value_lt cs))
    omega

end Base128
