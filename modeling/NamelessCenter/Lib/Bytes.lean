import Mathlib.Data.List.Basic
import Mathlib.Tactic.Ring
import Mathlib.Tactic.NormNum

/-!
# Byte strings as files and buffers

A file or a C buffer is a list of bytes. `slice` is what a read returns and `splice` is what a
positioned write leaves behind, zero-filling a gap past the end as a sparse file does.
`LittleEndian.encode` and `LittleEndian.decode` are the fixed-width unsigned integers of packed
structures, and `le16`, `le32`, `u16At` and `u32At` their 16- and 32-bit cases.
-/

/-- A byte string: the contents of a file or of a buffer. -/
abbrev Bytes := List UInt8

namespace Bytes

variable {α : Type*}

/-! ## Reading a range -/

/-- The at most `len` elements of `xs` that start at index `off`. -/
def slice (xs : List α) (off len : Nat) : List α := (xs.drop off).take len

/-- A slice is as long as it was asked for, unless the list ends before. -/
@[simp] theorem length_slice (xs : List α) (off len : Nat) :
    (slice xs off len).length = min len (xs.length - off) := by
  simp [slice]

/-- A slice inside the list is as long as it was asked for. -/
theorem length_slice_of_le {xs : List α} {off len : Nat} (h : off + len ≤ xs.length) :
    (slice xs off len).length = len := by
  rw [length_slice]
  omega

/-- The slice of the whole list. -/
@[simp] theorem slice_zero_length (xs : List α) : slice xs 0 xs.length = xs := by
  simp [slice]

/-- A slice inside the first list. -/
theorem slice_append_of_le {xs ys : List α} {off len : Nat} (h : off + len ≤ xs.length) :
    slice (xs ++ ys) off len = slice xs off len := by
  unfold slice
  rw [List.drop_append_of_le_length (by omega), List.take_append_of_le_length]
  rw [List.length_drop]
  omega

/-- A slice inside the second list. -/
theorem slice_append_right {xs ys : List α} {off len : Nat} (h : xs.length ≤ off) :
    slice (xs ++ ys) off len = slice ys (off - xs.length) len := by
  unfold slice
  rw [List.drop_append, List.drop_eq_nil_of_le h, List.nil_append]

/-- A part of a concatenation is found at the length of what precedes it. -/
theorem slice_append_append (xs ys zs : List α) :
    slice (xs ++ (ys ++ zs)) xs.length ys.length = ys := by
  rw [slice_append_right (Nat.le_refl _), Nat.sub_self, slice_append_of_le (by omega),
    slice_zero_length]

/-- A slice behind what is dropped. -/
theorem slice_drop (xs : List α) (skip off len : Nat) :
    slice (xs.drop skip) off len = slice xs (skip + off) len := by
  simp [slice, List.drop_drop]

/-- A slice of a slice. -/
theorem slice_slice {xs : List α} {off len off' len' : Nat} (h : off' + len' ≤ len) :
    slice (slice xs off len) off' len' = slice xs (off + off') len' := by
  unfold slice
  rw [List.drop_take, List.take_take, List.drop_drop, Nat.min_eq_left (by omega)]

/-- What is left starts with the slice. -/
theorem drop_eq_slice_append (xs : List α) (off len : Nat) :
    xs.drop off = slice xs off len ++ xs.drop (off + len) := by
  unfold slice
  rw [← List.drop_drop, List.take_append_drop]

/-- Two slices one behind the other are one. -/
theorem slice_add (xs : List α) (off len len' : Nat) :
    slice xs off (len + len') = slice xs off len ++ slice xs (off + len) len' := by
  unfold slice
  rw [List.take_add, List.drop_drop]

/-- An element of a slice. -/
theorem get_elem?_slice (xs : List α) {off len k : Nat} (hk : k < len) :
    (slice xs off len)[k]? = xs[off + k]? := by
  rw [slice, List.getElem?_take_of_lt hk, List.getElem?_drop]

/-- Reading again as much as a read returned gives the same bytes. -/
theorem slice_length_slice (xs : List α) (off len : Nat) :
    slice xs off (slice xs off len).length = slice xs off len := by
  unfold slice
  rw [List.length_take, List.take_eq_take_iff]
  omega

/-! ## Writing at a position -/

/-- The file `xs` after `ys` is written at `off`. A gap between the end of the file and `off`
reads as zeros, and an empty write leaves the file as it is. -/
def splice (xs : Bytes) (off : Nat) (ys : Bytes) : Bytes :=
  if ys = [] then xs
  else (xs ++ List.replicate (off - xs.length) 0).take off ++ ys ++ xs.drop (off + ys.length)

/-- Nothing is written. -/
@[simp] theorem splice_nil (xs : Bytes) (off : Nat) : splice xs off [] = xs := by
  simp [splice]

/-- Writing at the end of a file appends. -/
theorem splice_at_end {xs ys : Bytes} {off : Nat} (h : off = xs.length) :
    splice xs off ys = xs ++ ys := by
  subst h
  by_cases hy : ys = []
  · simp [hy]
  · simp [splice, hy]

/-- Overwriting inside a file keeps what lies before and after the written range. -/
theorem splice_inside {xs ys : Bytes} {off : Nat} (h : off + ys.length ≤ xs.length) :
    splice xs off ys = xs.take off ++ ys ++ xs.drop (off + ys.length) := by
  by_cases hy : ys = []
  · simp [hy]
  · have hgap : off - xs.length = 0 := by omega
    simp [splice, hy, hgap]

/-- The part in front of what is written, filled up with zeros. -/
private theorem length_padded (xs : Bytes) (off : Nat) :
    ((xs ++ List.replicate (off - xs.length) 0).take off).length = off := by
  simp only [List.length_take, List.length_append, List.length_replicate]
  omega

/-- Writing does not make a file shorter. -/
theorem le_length_splice (xs : Bytes) (off : Nat) (ys : Bytes) :
    xs.length ≤ (splice xs off ys).length := by
  by_cases hy : ys = []
  · simp [hy]
  · simp only [splice, if_neg hy, List.length_append, length_padded, List.length_drop]
    omega

/-- The file reaches as far as what is written. -/
theorem end_le_length_splice (xs : Bytes) (off : Nat) {ys : Bytes} (hy : ys ≠ []) :
    off + ys.length ≤ (splice xs off ys).length := by
  simp only [splice, if_neg hy, List.length_append, length_padded]
  omega

/-- What lies behind a written range is what was there before. -/
theorem drop_splice {xs ys : Bytes} {off n : Nat} (h : off + ys.length ≤ n) :
    (splice xs off ys).drop n = xs.drop n := by
  by_cases hy : ys = []
  · simp [hy]
  · have hlen := length_padded xs off
    simp only [splice, if_neg hy]
    rw [List.drop_append, List.drop_eq_nil_of_le (by simp only [List.length_append]; omega),
      List.nil_append, List.drop_drop, List.length_append, hlen]
    congr 1
    omega

/-- What lies before a written range is what was there before. -/
theorem slice_splice_before {xs ys : Bytes} {off start len : Nat} (hoff : start + len ≤ off)
    (hroom : start + len ≤ xs.length) :
    slice (splice xs off ys) start len = slice xs start len := by
  by_cases hy : ys = []
  · simp [hy]
  · have hlen := length_padded xs off
    rw [splice, if_neg hy, List.append_assoc, slice_append_of_le (by omega), slice, slice,
      List.drop_take, List.take_take, Nat.min_eq_left (by omega),
      List.drop_append_of_le_length (by omega), List.take_append_of_le_length]
    rw [List.length_drop]
    omega

/-- A written range holds what was written. -/
theorem slice_splice_self (xs ys : Bytes) (off : Nat) :
    slice (splice xs off ys) off ys.length = ys := by
  by_cases hy : ys = []
  · simp [hy, slice]
  · have hpart := slice_append_append ((xs ++ List.replicate (off - xs.length) 0).take off) ys
      (xs.drop (off + ys.length))
    rw [length_padded] at hpart
    rw [splice, if_neg hy, List.append_assoc, hpart]

/-- Two writes whose ranges touch are one write. -/
theorem splice_splice (xs : Bytes) (off : Nat) (ys zs : Bytes) :
    splice (splice xs off ys) (off + ys.length) zs = splice xs off (ys ++ zs) := by
  by_cases hy : ys = []
  · simp [hy]
  by_cases hz : zs = []
  · simp [hz]
  have hne : ys ++ zs ≠ [] := by simp [hy]
  have hlen := length_padded xs off
  have hle : off + ys.length ≤ (splice xs off ys).length :=
    end_le_length_splice xs off hy
  have hgap : off + ys.length - (splice xs off ys).length = 0 := by omega
  have htail : (splice xs off ys).drop (off + ys.length + zs.length) =
      xs.drop (off + ys.length + zs.length) := drop_splice (by omega)
  have hhead : (splice xs off ys).take (off + ys.length) =
      (xs ++ List.replicate (off - xs.length) 0).take off ++ ys := by
    simp only [splice, if_neg hy]
    rw [List.take_append_of_le_length (by simp only [List.length_append, hlen]; omega),
      List.take_of_length_le (by simp only [List.length_append, hlen]; omega)]
  rw [show splice (splice xs off ys) (off + ys.length) zs =
      ((splice xs off ys) ++ List.replicate (off + ys.length - (splice xs off ys).length) 0).take
        (off + ys.length) ++ zs ++ (splice xs off ys).drop (off + ys.length + zs.length) by
      rw [splice, if_neg hz], hgap, htail]
  simp only [List.replicate_zero, List.append_nil, hhead]
  simp only [splice, if_neg hne, List.append_assoc, List.length_append, Nat.add_assoc]

end Bytes

/-! ## Fixed-width integers -/

namespace LittleEndian

/-- The `width` low bytes of `n`, least significant first. -/
def encode : Nat → Nat → Bytes
  | 0, _ => []
  | width + 1, n => UInt8.ofNat n :: encode width (n / 256)

/-- The number whose bytes, least significant first, are `bs`. -/
def decode : Bytes → Nat
  | [] => 0
  | b :: bs => b.toNat + 256 * decode bs

/-- A number takes as many bytes as its width. -/
@[simp] theorem length_encode (width n : Nat) : (encode width n).length = width := by
  induction width generalizing n with
  | zero => rfl
  | succ width ih => simp [encode, ih]

/-- What is written is read again, modulo the width. -/
theorem decode_encode (width n : Nat) : decode (encode width n) = n % 256 ^ width := by
  induction width generalizing n with
  | zero => simp [encode, decode, Nat.mod_one]
  | succ width ih =>
      have hbyte : (UInt8.ofNat n).toNat = n % 256 := by simp
      rw [encode, decode, ih, hbyte, pow_succ', Nat.mod_mul]

/-- What is read is written again. -/
theorem encode_decode (bs : Bytes) : encode bs.length (decode bs) = bs := by
  induction bs with
  | nil => rfl
  | cons b bs ih =>
      have hb : b.toNat < 256 := b.toNat_lt
      have hlow : UInt8.ofNat (b.toNat + 256 * decode bs) = b := by
        apply UInt8.toNat_inj.1
        rw [UInt8.toNat_ofNat']
        omega
      have hhigh : (b.toNat + 256 * decode bs) / 256 = decode bs := by omega
      rw [List.length_cons, decode, encode, hlow, hhigh, ih]

/-- The bytes bound their number. -/
theorem decode_lt (bs : Bytes) : decode bs < 256 ^ bs.length := by
  induction bs with
  | nil => simp [decode]
  | cons b bs ih =>
      have hb : b.toNat < 256 := b.toNat_lt
      rw [decode, List.length_cons, pow_succ]
      omega

end LittleEndian

namespace Bytes

/-- A 16-bit field of a packed structure. -/
def le16 (x : UInt16) : Bytes := LittleEndian.encode 2 x.toNat

/-- A 32-bit field of a packed structure. -/
def le32 (x : UInt32) : Bytes := LittleEndian.encode 4 x.toNat

/-- The 16-bit field at byte `off`. -/
def u16At (bs : Bytes) (off : Nat) : UInt16 :=
  UInt16.ofNat (LittleEndian.decode (slice bs off 2))

/-- The 32-bit field at byte `off`. -/
def u32At (bs : Bytes) (off : Nat) : UInt32 :=
  UInt32.ofNat (LittleEndian.decode (slice bs off 4))

/-- A 16-bit number takes two bytes. -/
@[simp] theorem length_le16 (x : UInt16) : (le16 x).length = 2 := LittleEndian.length_encode _ _

/-- A 32-bit number takes four bytes. -/
@[simp] theorem length_le32 (x : UInt32) : (le32 x).length = 4 := LittleEndian.length_encode _ _

/-- A 16-bit number is read where it was written. -/
theorem u16_at_le16 (x : UInt16) (rest : Bytes) : u16At (le16 x ++ rest) 0 = x := by
  have hx : x.toNat < 2 ^ 16 := x.toNat_lt
  rw [u16At, slice_append_of_le (by simp), show (2 : Nat) = (le16 x).length by simp,
    slice_zero_length, le16, LittleEndian.decode_encode, Nat.mod_eq_of_lt (by omega)]
  exact UInt16.ofNat_toNat

/-- A 32-bit number is read where it was written. -/
theorem u32_at_le32 (x : UInt32) (rest : Bytes) : u32At (le32 x ++ rest) 0 = x := by
  have hx : x.toNat < 2 ^ 32 := x.toNat_lt
  rw [u32At, slice_append_of_le (by simp), show (4 : Nat) = (le32 x).length by simp,
    slice_zero_length, le32, LittleEndian.decode_encode, Nat.mod_eq_of_lt (by omega)]
  exact UInt32.ofNat_toNat

/-- A 16-bit number in the second list. -/
theorem u16_at_append_right {xs ys : Bytes} {off : Nat} (h : xs.length ≤ off) :
    u16At (xs ++ ys) off = u16At ys (off - xs.length) := by
  rw [u16At, u16At, slice_append_right h]

/-- A 32-bit number in the second list. -/
theorem u32_at_append_right {xs ys : Bytes} {off : Nat} (h : xs.length ≤ off) :
    u32At (xs ++ ys) off = u32At ys (off - xs.length) := by
  rw [u32At, u32At, slice_append_right h]

/-- A 16-bit number behind what is dropped. -/
theorem u16_at_drop (bs : Bytes) (skip off : Nat) :
    u16At (bs.drop skip) off = u16At bs (skip + off) := by
  rw [u16At, u16At, slice_drop]

/-- A 32-bit number behind what is dropped. -/
theorem u32_at_drop (bs : Bytes) (skip off : Nat) :
    u32At (bs.drop skip) off = u32At bs (skip + off) := by
  rw [u32At, u32At, slice_drop]

/-- A 16-bit number in a slice. -/
theorem u16_at_slice {bs : Bytes} {start len off : Nat} (h : off + 2 ≤ len) :
    u16At (slice bs start len) off = u16At bs (start + off) := by
  rw [u16At, u16At, slice_slice h]

/-- A 32-bit number in a slice. -/
theorem u32_at_slice {bs : Bytes} {start len off : Nat} (h : off + 4 ≤ len) :
    u32At (slice bs start len) off = u32At bs (start + off) := by
  rw [u32At, u32At, slice_slice h]

/-- A 32-bit field has a given value exactly when its four bytes are those of the value. -/
theorem u32_at_eq_iff {bs : Bytes} {off : Nat} (h : off + 4 ≤ bs.length) (x : UInt32) :
    u32At bs off = x ↔ slice bs off 4 = le32 x := by
  have hlen := length_slice_of_le h
  constructor
  · intro heq
    have hlt := LittleEndian.decode_lt (slice bs off 4)
    rw [hlen, show 256 ^ 4 = 2 ^ 32 by norm_num] at hlt
    have hbytes := LittleEndian.encode_decode (slice bs off 4)
    rw [hlen] at hbytes
    rw [← heq, u32At, le32, UInt32.toNat_ofNat', Nat.mod_eq_of_lt hlt, hbytes]
  · intro heq
    have hx := u32_at_le32 x []
    rw [List.append_nil] at hx
    rw [← hx, ← heq, u32_at_slice (by decide), Nat.add_zero]

end Bytes
