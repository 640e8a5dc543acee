import NamelessCenter.Lib.Bytes

/-!
# Whole-file signatures of MinSignAPK

`signWholeOutputFile` appends a signature block to a ZIP file as its archive comment. The
cryptography is a parameter: `writeSignatureBlock` turns the signed bytes into a block or throws.
`sign_eq_ok` describes every successful call.
-/

namespace NamelessCenter.Server

open Bytes

/-- The exceptions of `signWholeOutputFile`. -/
inductive SignException where
  | arrayIndexOutOfBounds
  | illegalArgument (message : String)
  | generalSecurity
  deriving DecidableEq, Repr

/-- The bytes `50 4b 05 06` the code compares with, one by one. -/
def eocdMagic : Bytes := [0x50, 0x4b, 0x05, 0x06]

/-- `"signed by SignApk".getBytes("UTF-8")`. -/
def message : Bytes := "signed by SignApk".toList.map fun ch => UInt8.ofNat ch.toNat

/-- `temp.write(n & 0xff)`. -/
def lowByte (n : Nat) : UInt8 := UInt8.ofNat (n &&& 0xff)

/-- `temp.write((n >> 8) & 0xff)`. -/
def highByte (n : Nat) : UInt8 := UInt8.ofNat (n >>> 8 &&& 0xff)

/-- The comment with its six-byte footer. -/
def archiveComment (block : Bytes) : Bytes :=
  let temp := message ++ 0 :: block
  let totalSize := temp.length + 6
  let signatureStart := totalSize - message.length - 1
  temp ++ [lowByte signatureStart, highByte signatureStart, 0xff, 0xff, lowByte totalSize,
    highByte totalSize]

/-- The first position of the comment with an end-of-central-directory header. -/
def spuriousEOCD (b : Bytes) : Option Nat :=
  (List.range (b.length - 3)).find? fun i => slice b i 4 == eocdMagic

/-- `signWholeOutputFile`, with the bytes written to the output stream. -/
def signWholeOutputFile (writeSignatureBlock : Bytes → Option Bytes) (zipData : Bytes) :
    Except SignException Bytes :=
  if zipData.length < 22 then .error .arrayIndexOutOfBounds
  else if slice zipData (zipData.length - 22) 4 ≠ eocdMagic then
    .error (.illegalArgument "zip data already has an archive comment")
  else
    match writeSignatureBlock (zipData.take (zipData.length - 2)) with
    | none => .error .generalSecurity
    | some block =>
        let b := archiveComment block
        if 0xffff < b.length then
          .error (.illegalArgument "signature is too big for ZIP file comment")
        else
          match spuriousEOCD b with
          | some i => .error (.illegalArgument ("found spurious EOCD header at " ++ toString i))
          | none =>
              .ok (zipData.take (zipData.length - 2) ++
                (lowByte b.length :: highByte b.length :: b))

/-! ## Successful calls -/

/-- The two bytes the code writes for a size are its 16-bit little-endian form. -/
theorem low_high_eq_le16 {n : Nat} (h : n < 2 ^ 16) (rest : Bytes) :
    lowByte n :: highByte n :: rest = le16 (UInt16.ofNat n) ++ rest := by
  have hn : (UInt16.ofNat n).toNat = n := by
    rw [UInt16.toNat_ofNat', Nat.mod_eq_of_lt h]
  have hlow : lowByte n = UInt8.ofNat n := by
    apply UInt8.toNat_inj.1
    rw [lowByte, show (0xff : Nat) = 2 ^ 8 - 1 by rfl, Nat.and_two_pow_sub_one_eq_mod]
    simp
  have hhigh : highByte n = UInt8.ofNat (n / 256) := by
    apply UInt8.toNat_inj.1
    rw [highByte, show (0xff : Nat) = 2 ^ 8 - 1 by rfl, Nat.and_two_pow_sub_one_eq_mod,
      Nat.shiftRight_eq_div_pow]
    simp
  rw [hlow, hhigh, le16, hn]
  rfl

/-- The comment has the message, the block and seven bytes more. -/
theorem length_archive_comment (block : Bytes) :
    (archiveComment block).length = message.length + block.length + 7 := by
  simp only [archiveComment, List.length_append, List.length_cons, List.length_nil]
  omega

/-- The comment starts with the readable message. -/
theorem archive_comment_eq_cons (block : Bytes) :
    ∃ rest, archiveComment block = 0x73 :: rest := ⟨_, rfl⟩

/-- A comment that passes the search contains no end-of-central-directory header. -/
theorem spurious_eocd_eq_none {b : Bytes} (h : spuriousEOCD b = none) {i : Nat}
    (hi : i + 4 ≤ b.length) : slice b i 4 ≠ eocdMagic := by
  have hall := List.find?_eq_none.1 h i (List.mem_range.2 (by omega))
  simpa using hall

/-- A successful call is given a file without comment and appends one, which is short enough and
contains no end-of-central-directory header; it sets the comment length to fit. -/
theorem sign_eq_ok {writeSignatureBlock : Bytes → Option Bytes} {zipData output : Bytes}
    (h : signWholeOutputFile writeSignatureBlock zipData = .ok output) :
    22 ≤ zipData.length ∧ slice zipData (zipData.length - 22) 4 = eocdMagic ∧
      ∃ block comment, writeSignatureBlock (zipData.take (zipData.length - 2)) = some block ∧
        comment = archiveComment block ∧ comment.length ≤ 65535 ∧
        (∀ i, i + 4 ≤ comment.length → slice comment i 4 ≠ eocdMagic) ∧
        output = zipData.take (zipData.length - 2) ++
          (le16 (UInt16.ofNat comment.length) ++ comment) := by
  unfold signWholeOutputFile at h
  split at h
  · cases h
  · rename_i hlen
    split at h
    · cases h
    · rename_i hmagic
      split at h
      · cases h
      · rename_i block hblock
        simp only at h
        split at h
        · cases h
        · rename_i hsize
          split at h
          · cases h
          · rename_i hnone
            cases h
            refine ⟨by omega, not_not.1 hmagic, block, _, hblock, rfl, by omega, fun i hi =>
              spurious_eocd_eq_none hnone hi, ?_⟩
            rw [low_high_eq_le16 (by omega)]

end NamelessCenter.Server
