import NamelessCenter.Lib.Bytes
import Mathlib.Data.List.GetD
import Mathlib.Data.ZMod.Basic
import Mathlib.Tactic.LinearCombination

/-!
# The checksums of xdelta3

`adler32` is the checksum of a target window. Its remainders are taken once for 5552 bytes, which is
as rarely as the sums allow. `lcksum` is the checksum by which the encoder looks for long matches,
and `largeCksumUpdate` moves it by one byte. `adler32_deferred` and `large_cksum_rolls` say that
neither short cut changes the result.
-/

namespace NamelessCenter.Vcdiff

/-! ## The window checksum -/

/-- `A32_BASE`. -/
def A32_BASE : Nat := 65521

/-- `A32_NMAX`. -/
def A32_NMAX : Nat := 5552

/-- `A32_DO1`, with sums of `width` bits. -/
def a32Do1 (width : Nat) (s : Nat × Nat) (b : UInt8) : Nat × Nat :=
  let s1 := (s.1 + b.toNat) % 2 ^ width
  (s1, (s.2 + s1) % 2 ^ width)

/-- The rounds of `A32_DO16`. -/
def a32Do16 (width : Nat) : Nat → Nat × Nat → Bytes → Nat × Nat
  | 0, s, _ => s
  | n + 1, s, buf => a32Do16 width n ((buf.take 16).foldl (a32Do1 width) s) (buf.drop 16)

/-- The sums over the next `k` bytes. -/
def a32Chunk (width k : Nat) (s : Nat × Nat) (buf : Bytes) : Nat × Nat :=
  let s := a32Do16 width (k / 16) s buf
  ((buf.drop (16 * (k / 16))).take (k % 16)).foldl (a32Do1 width) s

/-- The loop of `adler32`, with a bound for its rounds. -/
def a32Loop (width : Nat) : Nat → Nat × Nat → Bytes → Nat × Nat
  | 0, s, _ => s
  | rounds + 1, s, buf =>
      if buf.length > 0 then
        let k := min buf.length A32_NMAX
        let s := a32Chunk width k s buf
        a32Loop width rounds (s.1 % A32_BASE, s.2 % A32_BASE) (buf.drop k)
      else s

/-- `adler32`, where an `unsigned long` has `width` bits. -/
def adler32 (width adler : Nat) (buf : Bytes) : Nat :=
  let s := a32Loop width buf.length (adler % 2 ^ 16, adler / 2 ^ 16 % 2 ^ 16) buf
  s.2 * 2 ^ 16 + s.1

/-- The two sums with one more byte. -/
def a32Step (s : Nat × Nat) (b : UInt8) : Nat × Nat :=
  ((s.1 + b.toNat) % A32_BASE, (s.2 + (s.1 + b.toNat)) % A32_BASE)

/-- The unrolled rounds do what the single ones do, on as many groups of 16 bytes. -/
theorem a32_do16_eq (width n : Nat) (s : Nat × Nat) (buf : Bytes) :
    a32Do16 width n s buf = (buf.take (16 * n)).foldl (a32Do1 width) s := by
  induction n generalizing s buf with
  | zero => rfl
  | succ n ih =>
      rw [a32Do16, ih, ← List.foldl_append, Nat.mul_succ, Nat.add_comm (16 * n), List.take_add]

/-- The loops over sixteen and over single bytes go through the chunk in order. -/
theorem a32_chunk_eq (width k : Nat) (s : Nat × Nat) (buf : Bytes) :
    a32Chunk width k s buf = (buf.take k).foldl (a32Do1 width) s := by
  unfold a32Chunk
  rw [a32_do16_eq, ← List.foldl_append, ← List.take_add, Nat.div_add_mod]

/-- Over the bytes of a chunk the sums fit 32 bits, and their remainders are those of the sums that
are reduced for every byte. -/
theorem a32_do1_foldl {width : Nat} (hwidth : 32 ≤ width) {s t : Nat × Nat} {buf : Bytes} {n : Nat}
    (hn : n + buf.length ≤ A32_NMAX) (hs1 : s.1 ≤ 65535 + 255 * n)
    (hs2 : 2 * s.2 ≤ 2 * 65535 * (n + 1) + 255 * (n * (n + 1)))
    (ht1 : s.1 % A32_BASE = t.1 % A32_BASE) (ht2 : s.2 % A32_BASE = t.2 % A32_BASE) :
    (buf.foldl (a32Do1 width) s).1 % A32_BASE = (buf.foldl a32Step t).1 % A32_BASE ∧
      (buf.foldl (a32Do1 width) s).2 % A32_BASE = (buf.foldl a32Step t).2 % A32_BASE := by
  induction buf generalizing s t n with
  | nil => exact ⟨ht1, ht2⟩
  | cons b buf ih =>
      have hb : b.toNat ≤ 255 := Nat.le_of_lt_succ b.toNat_lt
      have hlen : n + 1 + buf.length ≤ A32_NMAX := by
        rw [List.length_cons] at hn
        omega
      have hn' : n + 1 ≤ 5552 := (Nat.le_add_right _ _).trans hlen
      have hword : 2 ^ 32 ≤ 2 ^ width := Nat.pow_le_pow_right Nat.two_pos hwidth
      have hsum1 : s.1 + b.toNat ≤ 65535 + 255 * (n + 1) := by omega
      have hsquare : (n + 1) * (n + 1 + 1) = n * (n + 1) + 2 * (n + 1) := by ring
      have hsum2 : 2 * (s.2 + (s.1 + b.toNat)) ≤
          2 * 65535 * (n + 1 + 1) + 255 * ((n + 1) * (n + 1 + 1)) := by
        rw [hsquare]
        omega
      -- 5552 is the greatest count for which the second sum is below 2^32.
      have hbound : (n + 1) * (n + 1 + 1) ≤ 5552 * 5553 := Nat.mul_le_mul hn' (by omega)
      have hfits1 : s.1 + b.toNat < 2 ^ width := by omega
      have hfits2 : s.2 + (s.1 + b.toNat) < 2 ^ width := by omega
      have hdo : a32Do1 width s b = (s.1 + b.toNat, s.2 + (s.1 + b.toNat)) := by
        simp only [a32Do1, Nat.mod_eq_of_lt hfits1, Nat.mod_eq_of_lt hfits2]
      rw [List.foldl_cons, List.foldl_cons, hdo]
      refine ih hlen hsum1 hsum2 ?_ ?_
      · unfold a32Step A32_BASE at *
        omega
      · unfold a32Step A32_BASE at *
        omega

/-- Behind a byte, both sums are reduced. -/
theorem a32_step_foldl_lt {s : Nat × Nat} {buf : Bytes} (hbuf : buf ≠ []) :
    (buf.foldl a32Step s).1 < A32_BASE ∧ (buf.foldl a32Step s).2 < A32_BASE := by
  obtain ⟨init, last, rfl⟩ : ∃ init last, buf = init ++ [last] :=
    ⟨buf.dropLast, buf.getLast hbuf, (List.dropLast_append_getLast hbuf).symm⟩
  rw [List.foldl_append]
  exact ⟨Nat.mod_lt _ (by decide), Nat.mod_lt _ (by decide)⟩

/-- The loop over the chunks. -/
theorem a32_loop_eq {width : Nat} (hwidth : 32 ≤ width) {rounds : Nat} {s : Nat × Nat} {buf : Bytes}
    (hrounds : buf.length ≤ rounds) (hs1 : s.1 ≤ 65535) (hs2 : s.2 ≤ 65535) :
    a32Loop width rounds s buf = buf.foldl a32Step s := by
  induction rounds generalizing s buf with
  | zero =>
      rw [List.eq_nil_of_length_eq_zero (Nat.le_zero.1 hrounds)]
      rfl
  | succ rounds ih =>
      rw [a32Loop]
      by_cases hpos : buf.length > 0
      · rw [if_pos hpos]
        have hchunk : 0 + (buf.take (min buf.length A32_NMAX)).length ≤ A32_NMAX := by
          rw [List.length_take]
          omega
        have hne : buf.take (min buf.length A32_NMAX) ≠ [] := by
          rw [← List.length_pos_iff, List.length_take]
          unfold A32_NMAX
          omega
        obtain ⟨h1, h2⟩ :=
          a32_do1_foldl hwidth (s := s) (t := s) hchunk (by omega) (by omega) rfl rfl
        obtain ⟨hlt1, hlt2⟩ := a32_step_foldl_lt (s := s) hne
        rw [Nat.mod_eq_of_lt hlt1] at h1
        rw [Nat.mod_eq_of_lt hlt2] at h2
        have hbase : A32_BASE = 65521 := rfl
        simp only [a32_chunk_eq]
        rw [h1, h2, ih, ← List.foldl_append, List.take_append_drop]
        · rw [List.length_drop]
          unfold A32_NMAX
          omega
        · exact (hlt1.trans (by decide)).le
        · exact (hlt2.trans (by decide)).le
      · rw [if_neg hpos, List.eq_nil_of_length_eq_zero (Nat.eq_zero_of_not_pos hpos)]
        rfl

/-- The checksum for sums that are reduced for every byte. -/
theorem adler32_eq {width : Nat} (hwidth : 32 ≤ width) (adler : Nat) (buf : Bytes) :
    adler32 width adler buf =
      (buf.foldl a32Step (adler % 2 ^ 16, adler / 2 ^ 16 % 2 ^ 16)).2 * 2 ^ 16 +
        (buf.foldl a32Step (adler % 2 ^ 16, adler / 2 ^ 16 % 2 ^ 16)).1 := by
  unfold adler32
  rw [a32_loop_eq hwidth le_rfl (Nat.le_of_lt_succ (Nat.mod_lt _ (by decide)))
    (Nat.le_of_lt_succ (Nat.mod_lt _ (by decide)))]

/-- The two sums in closed form: the bytes, and the bytes each with the number of bytes from it to
the end. -/
theorem a32_step_foldl_eq (buf : Bytes) (s : Nat × Nat) :
    (buf.foldl a32Step s).1 % A32_BASE = (s.1 + (buf.map UInt8.toNat).sum) % A32_BASE ∧
      (buf.foldl a32Step s).2 % A32_BASE =
        (s.2 + buf.length * s.1 + ((buf.mapIdx fun i b => (buf.length - i) * b.toNat)).sum) %
          A32_BASE := by
  induction buf generalizing s with
  | nil => simp
  | cons b buf ih =>
      obtain ⟨h1, h2⟩ := ih (a32Step s b)
      rw [List.foldl_cons, h1, h2]
      have htail : ((b :: buf).mapIdx fun i c => ((b :: buf).length - i) * c.toNat).sum =
          (buf.length + 1) * b.toNat +
            (buf.mapIdx fun i c => (buf.length - i) * c.toNat).sum := by
        simp only [List.mapIdx_cons, List.sum_cons, List.length_cons, Nat.sub_zero]
        congr 3
        funext i c
        congr 1
        omega
      constructor
      · rw [List.map_cons, List.sum_cons]
        unfold a32Step
        rw [Nat.mod_add_mod, Nat.add_assoc]
      · rw [htail]
        unfold a32Step
        simp only [List.length_cons]
        generalize (buf.mapIdx fun i c => (buf.length - i) * c.toNat).sum = tail
        rw [Nat.add_assoc, Nat.mod_add_mod]
        have hmul : (buf.length * ((s.1 + b.toNat) % A32_BASE)) % A32_BASE =
            (buf.length * (s.1 + b.toNat)) % A32_BASE := Nat.mul_mod_mod _ _ _
        calc (s.2 + (s.1 + b.toNat) + (buf.length * ((s.1 + b.toNat) % A32_BASE) + tail)) % A32_BASE
            = ((s.2 + (s.1 + b.toNat) + tail) +
                buf.length * ((s.1 + b.toNat) % A32_BASE)) % A32_BASE := by congr 1; ring
          _ = ((s.2 + (s.1 + b.toNat) + tail) + buf.length * (s.1 + b.toNat)) % A32_BASE := by
              rw [Nat.add_mod, hmul, ← Nat.add_mod]
          _ = _ := by congr 1; ring

/-- Taking the remainders once for a chunk gives the checksum of RFC 1950, for words of 32 and of
more bits, and the checksum of a text goes on from that of its beginning. -/
theorem adler32_deferred {width : Nat} (hwidth : 32 ≤ width) (xs ys : Bytes) :
    adler32 width 1 xs =
        (xs.length + (xs.mapIdx fun i b => (xs.length - i) * b.toNat).sum) % A32_BASE * 2 ^ 16 +
          (1 + (xs.map UInt8.toNat).sum) % A32_BASE ∧
      adler32 width (adler32 width 1 xs) ys = adler32 width 1 (xs ++ ys) := by
  have hbase : A32_BASE = 65521 := rfl
  have hlt : (xs.foldl a32Step (1, 0)).1 < A32_BASE ∧ (xs.foldl a32Step (1, 0)).2 < A32_BASE := by
    by_cases hnil : xs = []
    · subst hnil
      decide
    · exact a32_step_foldl_lt hnil
  have hone : adler32 width 1 xs =
      (xs.foldl a32Step (1, 0)).2 * 2 ^ 16 + (xs.foldl a32Step (1, 0)).1 := adler32_eq hwidth 1 xs
  constructor
  · obtain ⟨h1, h2⟩ := a32_step_foldl_eq xs (1, 0)
    rw [Nat.mod_eq_of_lt hlt.1] at h1
    rw [Nat.mod_eq_of_lt hlt.2, Nat.zero_add, Nat.mul_one] at h2
    rw [hone, h1, h2]
  · rw [hone, adler32_eq hwidth, adler32_eq hwidth, List.foldl_append]
    have hs1 : ((xs.foldl a32Step (1, 0)).2 * 2 ^ 16 + (xs.foldl a32Step (1, 0)).1) % 2 ^ 16 =
        (xs.foldl a32Step (1, 0)).1 := by omega
    have hs2 : ((xs.foldl a32Step (1, 0)).2 * 2 ^ 16 + (xs.foldl a32Step (1, 0)).1) / 2 ^ 16 %
        2 ^ 16 = (xs.foldl a32Step (1, 0)).2 := by omega
    rw [hs1, hs2]
    rfl

/-- Two texts of a few bytes. -/
theorem adler32_deferred_abc :
    adler32 32 (adler32 32 1 [97, 98]) [99] = adler32 32 1 [97, 98, 99] ∧
      adler32 32 1 [97, 98, 99] = 0x24d0127 :=
  ⟨(adler32_deferred le_rfl [97, 98] [99]).2, by decide⟩

/-! ## The checksum of the encoder -/

section Rolling

-- `PERMUTE`, a table of 16-bit numbers.
variable (permute : UInt8 → UInt16)

/-- A round of `xd3_lcksum`: the low and the high sum. -/
def lcksumStep (s : Nat × Nat) (b : UInt8) : Nat × Nat :=
  let low := (s.1 + (permute b).toNat) % 2 ^ 32
  (low, (s.2 + low) % 2 ^ 32)

/-- `xd3_lcksum` of the first `ln` bytes. -/
def lcksum (seg : Bytes) (ln : Nat) : Nat :=
  let s := (seg.take ln).foldl (lcksumStep permute) (0, 0)
  s.2 % 2 ^ 16 * 2 ^ 16 + s.1 % 2 ^ 16

/-- `xd3_large_cksum_update`, in 32-bit arithmetic. -/
def largeCksumUpdate (cksum : Nat) (base : Bytes) (look : Nat) : Nat :=
  let oldC := (permute (base.getD 0 0)).toNat
  let newC := (permute (base.getD look 0)).toNat
  let low := (cksum % 2 ^ 16 + 2 ^ 32 - oldC + newC) % 2 ^ 32 % 2 ^ 16
  let high := (cksum / 2 ^ 16 + 2 ^ 32 - oldC * look % 2 ^ 32 + low) % 2 ^ 32 % 2 ^ 16
  high * 2 ^ 16 + low

/-- The checksum at every position from the first one on, each from the one before. -/
def rollingCksum (seg : Bytes) (look : Nat) : Nat → Nat
  | 0 => lcksum permute seg look
  | i + 1 => largeCksumUpdate permute (rollingCksum seg look i) (seg.drop i) look

/-- The low sum in the integers modulo 2^16. -/
def lowSum (bs : Bytes) : ZMod (2 ^ 16) := (bs.map fun b => ((permute b).toNat : ZMod (2 ^ 16))).sum

/-- The high sum, the sum of the low sums. -/
def highSum : Bytes → ZMod (2 ^ 16)
  | [] => 0
  | b :: bs => (bs.length + 1) * (permute b).toNat + highSum bs

/-- Modulo 2 ^ 16, a wrap-around in 32 bits does not matter. -/
theorem cast_mod (n : Nat) : ((n % 2 ^ 32 : Nat) : ZMod (2 ^ 16)) = n := by
  rw [ZMod.natCast_eq_natCast_iff', Nat.mod_mod_of_dvd n (Nat.pow_dvd_pow 2 (by decide))]

/-- The two sums of a checksum over some bytes. -/
theorem lcksum_step_foldl (bs : Bytes) (s : Nat × Nat) :
    ((bs.foldl (lcksumStep permute) s).1 : ZMod (2 ^ 16)) = s.1 + lowSum permute bs ∧
      ((bs.foldl (lcksumStep permute) s).2 : ZMod (2 ^ 16)) =
        s.2 + bs.length * s.1 + highSum permute bs := by
  induction bs generalizing s with
  | nil => simp [lowSum, highSum]
  | cons b bs ih =>
      obtain ⟨h1, h2⟩ := ih (lcksumStep permute s b)
      have hlow : ((lcksumStep permute s b).1 : ZMod (2 ^ 16)) = s.1 + (permute b).toNat := by
        rw [lcksumStep, cast_mod, Nat.cast_add]
      have hhigh : ((lcksumStep permute s b).2 : ZMod (2 ^ 16)) =
          s.2 + (s.1 + (permute b).toNat) := by
        rw [lcksumStep, cast_mod, Nat.cast_add, cast_mod, Nat.cast_add]
      rw [List.foldl_cons, h1, h2, hlow, hhigh]
      constructor
      · rw [lowSum, lowSum, List.map_cons, List.sum_cons]
        ring
      · rw [highSum, List.length_cons, Nat.cast_add, Nat.cast_one]
        ring

/-- One more byte adds the low sum to the high one. -/
theorem high_sum_concat (bs : Bytes) (b : UInt8) :
    highSum permute (bs ++ [b]) = highSum permute bs + lowSum permute (bs ++ [b]) := by
  induction bs with
  | nil => simp [highSum, lowSum]
  | cons c bs ih =>
      rw [List.cons_append, highSum, highSum, ih, lowSum, lowSum, List.map_cons, List.sum_cons,
        List.length_append, List.length_singleton, Nat.cast_add, Nat.cast_one]
      ring

/-- What leaves and what enters the window that moves by one byte. -/
theorem window_moves {a : UInt8} {base : Bytes} {look : Nat} (hlook : look < (a :: base).length) :
    lowSum permute (base.take look) + (permute a).toNat =
        lowSum permute ((a :: base).take look) + (permute ((a :: base).getD look 0)).toNat ∧
      highSum permute (base.take look) + look * (permute a).toNat =
        highSum permute ((a :: base).take look) + lowSum permute (base.take look) := by
  cases look with
  | zero => simp [lowSum, highSum]
  | succ n =>
      have hn : n < base.length := by simpa using hlook
      have htake : base.take (n + 1) = base.take n ++ [base[n]] :=
        List.take_succ_eq_append_getElem hn
      have hlen : (base.take n).length = n := by
        rw [List.length_take]
        omega
      have hget : (a :: base).getD (n + 1) 0 = base[n] := by
        rw [List.getD_cons_succ, List.getD_eq_getElem _ _ hn]
      rw [hget, List.take_succ_cons, highSum, hlen, Nat.cast_add, Nat.cast_one]
      constructor
      · simp only [lowSum, htake, List.map_append, List.map_cons, List.map_nil, List.sum_append,
          List.sum_cons, List.sum_nil]
        ring
      · rw [htake, high_sum_concat]
        ring

/-- Two checksums are the same if their sums are the same modulo 2^16. -/
theorem cksum_eq {low high low' high' : Nat} (hlow : (low : ZMod (2 ^ 16)) = low')
    (hhigh : (high : ZMod (2 ^ 16)) = high') :
    high % 2 ^ 16 * 2 ^ 16 + low % 2 ^ 16 = high' % 2 ^ 16 * 2 ^ 16 + low' % 2 ^ 16 := by
  rw [(ZMod.natCast_eq_natCast_iff' _ _ _).1 hlow, (ZMod.natCast_eq_natCast_iff' _ _ _).1 hhigh]

/-- One step moves the checksum by one byte. -/
theorem large_cksum_update_lcksum {base : Bytes} {look : Nat} (hlook : look < base.length) :
    largeCksumUpdate permute (lcksum permute base look) base look =
      lcksum permute (base.drop 1) look := by
  obtain ⟨a, base, rfl⟩ : ∃ a rest, base = a :: rest :=
    List.exists_cons_of_length_pos (Nat.zero_lt_of_lt hlook)
  obtain ⟨hlow, hhigh⟩ := lcksum_step_foldl permute ((a :: base).take look) (0, 0)
  obtain ⟨hlow', hhigh'⟩ := lcksum_step_foldl permute (base.take look) (0, 0)
  obtain ⟨hwindow, hwindow'⟩ :
      lowSum permute (base.take look) + (permute a).toNat =
        lowSum permute ((a :: base).take look) + (permute ((a :: base).getD look 0)).toNat ∧
      highSum permute (base.take look) + look * (permute a).toNat =
        highSum permute ((a :: base).take look) + lowSum permute (base.take look) :=
    window_moves permute hlook
  unfold largeCksumUpdate lcksum
  rw [List.drop_one, List.tail_cons, List.getD_cons_zero]
  generalize ((a :: base).take look).foldl (lcksumStep permute) (0, 0) = s at hlow hhigh ⊢
  generalize (base.take look).foldl (lcksumStep permute) (0, 0) = s' at hlow' hhigh' ⊢
  have ha := (permute a).toNat_lt
  generalize (permute a).toNat = old at ha hwindow hwindow' ⊢
  generalize (permute ((a :: base).getD look 0)).toNat = new at hwindow ⊢
  have hlow16 : (s.2 % 2 ^ 16 * 2 ^ 16 + s.1 % 2 ^ 16) % 2 ^ 16 = s.1 % 2 ^ 16 := by omega
  have hhigh16 : (s.2 % 2 ^ 16 * 2 ^ 16 + s.1 % 2 ^ 16) / 2 ^ 16 = s.2 % 2 ^ 16 := by omega
  have hmod : old * look % 2 ^ 32 ≤ 2 ^ 32 := (Nat.mod_lt _ (Nat.two_pow_pos 32)).le
  simp only [hlow16, hhigh16, Nat.cast_zero, mul_zero, add_zero, zero_add]
    at hlow hhigh hlow' hhigh' ⊢
  have hword : ((2 ^ 32 : Nat) : ZMod (2 ^ 16)) = 0 := by decide
  have hlowEq : (((s.1 % 2 ^ 16 + 2 ^ 32 - old + new) % 2 ^ 32 : Nat) : ZMod (2 ^ 16)) = s'.1 := by
    rw [cast_mod, Nat.cast_add, Nat.cast_sub (by omega), Nat.cast_add, hword, ZMod.natCast_mod,
      hlow, hlow', ← sub_eq_zero]
    linear_combination -hwindow
  have hmodulus : ((s'.1 : ZMod (2 ^ 16))) =
      ((s.1 % 2 ^ 16 + 2 ^ 32 - old + new) % 2 ^ 32 % 2 ^ 16 : Nat) := by
    rw [ZMod.natCast_mod, hlowEq]
  have hhighEq : (((s.2 % 2 ^ 16 + 2 ^ 32 - old * look % 2 ^ 32 +
      (s.1 % 2 ^ 16 + 2 ^ 32 - old + new) % 2 ^ 32 % 2 ^ 16) % 2 ^ 32 : Nat) : ZMod (2 ^ 16)) =
      s'.2 := by
    rw [cast_mod, Nat.cast_add, Nat.cast_sub (by omega), Nat.cast_add, hword, ZMod.natCast_mod,
      cast_mod, Nat.cast_mul, ← hmodulus, hhigh, hhigh', hlow', ← sub_eq_zero]
    linear_combination -hwindow'
  exact cksum_eq hlowEq hhighEq

/-- At every position of the input the rolling checksum is the checksum of the bytes there. -/
theorem large_cksum_rolls (seg : Bytes) (look i : Nat) (hi : i + look ≤ seg.length) :
    rollingCksum permute seg look i = lcksum permute (seg.drop i) look := by
  induction i with
  | zero => rfl
  | succ i ih =>
      have hlook : look < (seg.drop i).length := by
        rw [List.length_drop]
        omega
      rw [rollingCksum, ih (by omega), large_cksum_update_lcksum permute hlook, List.drop_drop]

end Rolling

/-- The second of three positions, with the bytes themselves as the table. -/
theorem large_cksum_rolls_one :
    rollingCksum UInt8.toUInt16 [1, 2, 3, 4] 2 1 = lcksum UInt8.toUInt16 [2, 3, 4] 2 :=
  large_cksum_rolls UInt8.toUInt16 [1, 2, 3, 4] 2 1 (by decide)

end NamelessCenter.Vcdiff
