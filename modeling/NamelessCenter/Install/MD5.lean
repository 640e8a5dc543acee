import Mathlib.Data.List.Basic
import NamelessCenter.Lib.Bytes

/-!
# MD5.java

The check of a file against the checksum of the server. The hash function of `MessageDigest` is a
parameter; its result is the big-endian number that `BigInteger` makes of the digest.
-/

namespace NamelessCenter.Install

open Bytes

/-- The contents of a file, if it exists. -/
abbrev Contents := Option Bytes

/-- `String.format("%32s", bigInt.toString(16)).replace(' ', '0')`. -/
def hexDigest (n : Nat) : String :=
  let digits := Nat.toDigits 16 n
  String.ofList (List.replicate (32 - digits.length) '0' ++ digits)

/-- `equalsIgnoreCase` against a hexadecimal string; no other character folds to a digit of it. -/
def equalsIgnoreCase (s t : String) : Bool :=
  s.toList.map Char.toLower == t.toList.map Char.toLower

/-- `calculateMD5`, where null is the result for a file that does not exist. -/
def calculateMD5 (digest : Bytes → Nat) (updateFile : Contents) : Option String :=
  updateFile.map fun content => hexDigest (digest content)

/-- `MD5.checkMD5(md5, updateFile)`. -/
def checkMD5 (digest : Bytes → Nat) (md5 : String) (updateFile : Contents) : Bool :=
  if md5 = "" then false
  else
    match calculateMD5 digest updateFile with
    | none => false
    | some calculatedDigest => equalsIgnoreCase calculatedDigest md5

end NamelessCenter.Install
