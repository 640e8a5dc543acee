import NamelessCenter.Install.MD5
import NamelessCenter.Lib.Digits

/-!
# The digest of a file

`calculateMD5` reads a file in the chunks that `InputStream.read` returns, and turns the digest into
text by way of a `BigInteger`, whose text has no leading zeros. `check_md5_iff` says that the check
compares with the hexadecimal form of the whole digest, however the file was read. `MessageDigest`
is a parameter.
-/

namespace NamelessCenter.Install

open Bytes Digits

/-- `java.security.MessageDigest` for MD5: `update` is given the bytes of a buffer. -/
structure MessageDigest where
  State : Type
  getInstance : State
  update : State → Bytes → State
  digest : State → Bytes

/-- The digest is the hash of the bytes it was given, whatever pieces they came in. -/
def MessageDigest.DependsOnContent (md : MessageDigest) (hash : Bytes → Bytes) : Prop :=
  ∀ chunks : List Bytes, md.digest (chunks.foldl md.update md.getInstance) = hash chunks.flatten

/-- `new byte[8192]`. -/
def BUFFER : Nat := 8192

/-- The chunks in which `read` returns the content of a file: none is empty, and each fits the
buffer. -/
structure Chunked (content : Bytes) (chunks : List Bytes) : Prop where
  flatten : chunks.flatten = content
  pos : ∀ chunk ∈ chunks, 0 < chunk.length
  fits : ∀ chunk ∈ chunks, chunk.length ≤ BUFFER

section Calculate

variable (md : MessageDigest)

/-- The loop over the results of `read`, which stores each at the start of the buffer. -/
def readLoop (st : md.State) (buffer : Bytes) : List Bytes → md.State
  | [] => st
  | chunk :: chunks =>
      let read := chunk.length
      let buffer := chunk ++ buffer.drop read
      if 0 < read then readLoop (md.update st (buffer.take read)) buffer chunks else st

/-- `replace(' ', '0')` of a character. -/
def zeroForSpace (c : Char) : Char := if c = ' ' then '0' else c

/-- The text of a digest: `String.format("%32s", bigInt.toString(16)).replace(' ', '0')`. -/
def toText (md5sum : Bytes) : String :=
  let output := Nat.toDigits 16 (ofBytes md5sum)
  String.ofList ((output.leftpad 32 ' ').map zeroForSpace)

/-- `calculateMD5` of a file that is read in these chunks, or does not exist. -/
def calculateMD5On (updateFile : Option (List Bytes)) : Option String :=
  updateFile.map fun chunks =>
    toText (md.digest (readLoop md md.getInstance (List.replicate BUFFER 0) chunks))

/-- `checkMD5`, of a file that is read in these chunks. -/
def checkMD5On (md5 : String) (updateFile : Option (List Bytes)) : Bool :=
  if md5 = "" then false
  else
    match calculateMD5On md updateFile with
    | none => false
    | some calculatedDigest => equalsIgnoreCase calculatedDigest md5

end Calculate

/-- The text is `md5sum` in hexadecimal, two digits for each byte, in either case. -/
def IsHexOf (text : String) (md5sum : Bytes) : Prop :=
  text.toList.map Char.toLower = md5sum.flatMap hexPair

instance (text : String) (md5sum : Bytes) : Decidable (IsHexOf text md5sum) :=
  inferInstanceAs (Decidable (_ = _))

/-! ## The chunks -/

/-- The loop gives the digest the chunks as they are. -/
theorem read_loop_eq (md : MessageDigest) {chunks : List Bytes}
    (hpos : ∀ chunk ∈ chunks, 0 < chunk.length) (st : md.State) (buffer : Bytes) :
    readLoop md st buffer chunks = chunks.foldl md.update st := by
  induction chunks generalizing st buffer with
  | nil => rfl
  | cons chunk chunks ih =>
      rw [readLoop, if_pos (hpos chunk List.mem_cons_self), List.take_left,
        ih fun c hc => hpos c (List.mem_cons_of_mem chunk hc)]
      rfl

/-! ## The text -/

/-- No digit is a space, so only the padding is replaced. -/
theorem map_zero_for_space (md5sum : Bytes) :
    (md5sum.flatMap hexPair).map zeroForSpace = md5sum.flatMap hexPair := by
  have hdigit : ∀ d < 16, zeroForSpace (Nat.digitChar d) = Nat.digitChar d := by decide
  rw [List.map_flatMap]
  refine List.flatMap_congr fun b _ => ?_
  have hb := b.toNat_lt
  rw [hexPair, List.map_cons, List.map_cons, List.map_nil, hdigit _ (by omega),
    hdigit _ (by omega)]

/-- The digits of the big integer, filled up with zeros, are those of the bytes. -/
theorem hex_digest_eq (md5sum : Bytes) (hlen : md5sum.length = 16) :
    (hexDigest (ofBytes md5sum)).toList = md5sum.flatMap hexPair := by
  have hlt := of_bytes_lt md5sum
  have hfixed := fixed_of_bytes md5sum
  rw [hlen] at hlt hfixed
  rw [hexDigest, String.toList_ofList, ← hfixed, ← leftpad_to_digits (by omega) (by omega) hlt,
    List.leftpad]

/-- The text of a digest of 16 bytes has two digits for each, leading zeros included. -/
theorem to_text_eq (md5sum : Bytes) (hlen : md5sum.length = 16) :
    (toText md5sum).toList = md5sum.flatMap hexPair := by
  have hpadding : ∀ digits : List Char, (digits.leftpad 32 ' ').map zeroForSpace =
      (List.replicate (32 - digits.length) '0' ++ digits).map zeroForSpace := by
    intro digits
    rw [List.leftpad, List.map_append, List.map_append, List.map_replicate, List.map_replicate]
    rfl
  have hhex := hex_digest_eq md5sum hlen
  rw [hexDigest, String.toList_ofList] at hhex
  rw [toText, String.toList_ofList, hpadding, hhex, map_zero_for_space]

/-- Lower case does not change the digits. -/
theorem map_to_lower (md5sum : Bytes) :
    (md5sum.flatMap hexPair).map Char.toLower = md5sum.flatMap hexPair := by
  rw [List.map_flatMap]
  exact List.flatMap_congr fun b _ => to_lower_hex_pair b

/-! ## The check -/

section Check

variable {md : MessageDigest} {hash : Bytes → Bytes} {content : Bytes} {chunks : List Bytes}

/-- The text for a file that is read in any chunks. -/
theorem calculate_md5_eq (hmd : md.DependsOnContent hash) (hchunks : Chunked content chunks) :
    calculateMD5On md (some chunks) = some (toText (hash content)) := by
  rw [calculateMD5On, Option.map_some, read_loop_eq md hchunks.pos, hmd chunks, hchunks.flatten]

/-- The check in chunks is the check of the content. -/
theorem check_md5_eq (hmd : md.DependsOnContent hash) (hlen : (hash content).length = 16)
    (hchunks : Chunked content chunks) (md5 : String) :
    checkMD5On md md5 (some chunks) =
      checkMD5 (fun bytes => ofBytes (hash bytes)) md5 (some content) := by
  have htext : toText (hash content) = hexDigest (ofBytes (hash content)) :=
    String.toList_inj.1 ((to_text_eq _ hlen).trans (hex_digest_eq _ hlen).symm)
  rw [checkMD5On, checkMD5, calculate_md5_eq hmd hchunks, calculateMD5, Option.map_some, htext]

/-- For every content of a file, in whatever chunks it is read, the check succeeds exactly if the
text is the hexadecimal form of the content's hash, in either case. -/
theorem check_md5_iff (hmd : md.DependsOnContent hash) (hlen : ∀ bytes, (hash bytes).length = 16)
    (hchunks : Chunked content chunks) (md5 : String) :
    checkMD5On md md5 (some chunks) = true ↔ IsHexOf md5 (hash content) := by
  have htext := hex_digest_eq (hash content) (hlen content)
  rw [check_md5_eq hmd (hlen content) hchunks]
  unfold checkMD5 IsHexOf
  split
  · rename_i hempty
    -- the hexadecimal form has 32 digits
    refine iff_of_false Bool.false_ne_true fun heq => ?_
    have hbytes := hlen content
    cases hhash : hash content with
    | nil =>
        rw [hhash] at hbytes
        cases hbytes
    | cons b bs =>
        rw [hempty, hhash] at heq
        cases heq
  · rw [calculateMD5, Option.map_some]
    simp only [equalsIgnoreCase, htext, map_to_lower, beq_iff_eq]
    exact eq_comm

end Check

/-- MD5 of the text `jk8ssl`, which starts with eight zeros, and anything of that length for other
contents. -/
def hashOfText (content : Bytes) : Bytes :=
  if content = [0x6a, 0x6b, 0x38, 0x73, 0x73, 0x6c] then
    [0x00, 0x00, 0x00, 0x00, 0x18, 0xe6, 0x13, 0x7a, 0xc2, 0xca, 0xab, 0x16, 0x07, 0x47, 0x84, 0xa6]
  else List.replicate 16 0

/-- A digest that keeps the bytes it is given. -/
def keeping (hash : Bytes → Bytes) : MessageDigest := ⟨Bytes, [], (· ++ ·), hash⟩

/-- Such a digest does not depend on the chunks. -/
theorem keeping_depends (hash : Bytes → Bytes) : (keeping hash).DependsOnContent hash := by
  have hfold : ∀ (chunks : List Bytes) (st : Bytes),
      chunks.foldl (· ++ ·) st = st ++ chunks.flatten := by
    intro chunks
    induction chunks with
    | nil => exact fun st => (List.append_nil st).symm
    | cons chunk chunks ih =>
        intro st
        rw [List.foldl_cons, ih, List.flatten_cons, List.append_assoc]
  intro chunks
  exact congrArg hash (hfold chunks [])

/-- The text in chunks of three, one and two bytes. -/
theorem check_md5_zeros :
    checkMD5On (keeping hashOfText) "0000000018E6137AC2CAAB16074784A6"
      (some [[0x6a, 0x6b, 0x38], [0x73], [0x73, 0x6c]]) = true := by
  have hchunks : Chunked [0x6a, 0x6b, 0x38, 0x73, 0x73, 0x6c]
      [[0x6a, 0x6b, 0x38], [0x73], [0x73, 0x6c]] := ⟨rfl, by decide, by decide⟩
  refine (check_md5_iff (keeping_depends hashOfText) (fun bytes => ?_) hchunks _).2 (by decide)
  unfold hashOfText
  split <;> rfl

end NamelessCenter.Install
