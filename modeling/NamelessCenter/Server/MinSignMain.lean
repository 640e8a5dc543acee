import Mathlib.Logic.Function.Basic
import NamelessCenter.Lib.OutputStream
import NamelessCenter.Server.MinSignAPK

/-!
# The output file of MinSignAPK

`main` reads the input file with a single call of `read`, which may return before the buffer is
full, and opens the output file, which empties it, before the data is checked.
`main_output_iff` says for which files and failures the output file is a signed copy of the whole
input, or stays as it was.
-/

namespace NamelessCenter.Server

open Bytes

/-- `(int) length` of a `long`. -/
def intOfLong (length : Nat) : Int := (length : Int).bmod (2 ^ 32)

/-- A new buffer into which the first `read` bytes of a file are read. -/
def fill (content : Bytes) (length read : Nat) : Bytes :=
  let stored := (content.take length).take read
  stored ++ List.replicate (length - stored.length) 0

/-- The pieces in which the output is written: the data up to the comment length, the two bytes of
the comment length, and the comment. -/
def outputPieces (zipData output : Bytes) : List Bytes :=
  let n := zipData.length - 2
  [output.take n, slice output n 1, slice output (n + 1) 1, output.drop (n + 2)]

/-- How the system behaves in a run of `main`. -/
structure MainRun where
  /-- The signature blocks of the key pair, if it can be read. -/
  keys : Option (Bytes → Option Bytes)
  /-- The input file cannot be opened, read or closed. -/
  inputThrows : Bool
  /-- The number of bytes that `read` may return. -/
  read : Nat
  output : Faults

namespace MainRun

variable (io : MainRun)

/-- `signWholeOutputFile` on the output stream. After an exception the file is as it is by then. -/
def sign (writeSignatureBlock : Bytes → Option Bytes) (buffer : Bytes) (outFile : Option Bytes) :
    Option Bytes :=
  match signWholeOutputFile writeSignatureBlock buffer with
  | .error _ => (io.output.rewrite [] outFile).1
  | .ok output => (io.output.rewrite (outputPieces buffer output) outFile).1

/-- `main`, on the files of the system. -/
def main (args : List String) (files : String → Option Bytes) : String → Option Bytes :=
  match args with
  | _pemFile :: _pk8File :: inFile :: outFile :: _ =>
      match io.keys, files inFile with
      | some writeSignatureBlock, some content =>
          let length := intOfLong content.length
          -- a buffer of negative length is a `NegativeArraySizeException`
          if length < 0 ∨ io.inputThrows then files
          else
            let buffer := fill content length.toNat io.read
            Function.update files outFile (io.sign writeSignatureBlock buffer (files outFile))
      | _, _ => files
  | _ => files

/-- The output is the signed copy of the whole input file, or the file is what it was before. -/
def SignedOrUnchanged (pemFile pk8File inFile outFile : String) (rest : List String)
    (files : String → Option Bytes) : Prop :=
  let file := io.main (pemFile :: pk8File :: inFile :: outFile :: rest) files outFile
  (∃ writeSignatureBlock content output, io.keys = some writeSignatureBlock ∧
      files inFile = some content ∧ signWholeOutputFile writeSignatureBlock content = .ok output ∧
        file = some output) ∨
    file = files outFile

/-- The run reaches the opening of the output file, and opens it. -/
structure Opens (writeSignatureBlock : Bytes → Option Bytes) (content : Bytes) : Prop where
  keys : io.keys = some writeSignatureBlock
  length : 0 ≤ intOfLong content.length
  input : io.inputThrows = false
  output : io.output.opening = false

/-- All bytes that the signature covers are read, or have the value of the buffer anyway. -/
def ReadsAll (content : Bytes) : Prop :=
  content.length < 2 ^ 31 ∧ ∀ i, io.read ≤ i → i + 2 < content.length → content[i]? = some 0

/-- The input is read, passes the checks, and is written without a failure. -/
structure Succeeds (writeSignatureBlock : Bytes → Option Bytes) (content : Bytes) : Prop where
  reads : io.ReadsAll content
  signs : ∃ output, signWholeOutputFile writeSignatureBlock content = .ok output
  writes : io.output.WritesFrom 0 4

/-- The file holds already what a run leaves that does not get through the data: it is empty, where
a check rejects the buffer, or it consists of as many bytes of the data as the first write stores
before it fails. -/
inductive Holds (writeSignatureBlock : Bytes → Option Bytes) (buffer file : Bytes) : Prop where
  | rejected (h : ∀ output, signWholeOutputFile writeSignatureBlock buffer ≠ .ok output)
      (hfile : file = [])
  | cut {output : Bytes} {n : Nat} (h : signWholeOutputFile writeSignatureBlock buffer = .ok output)
      (hwriting : io.output.writing 0 = some n)
      (hfile : file = (buffer.take (buffer.length - 2)).dropLast.take n)

/-- A run that opens the output succeeds, or the output holds what it leaves already. -/
def Safe (inFile outFile : String) (files : String → Option Bytes) : Prop :=
  ∀ writeSignatureBlock content, files inFile = some content →
    io.Opens writeSignatureBlock content →
      io.Succeeds writeSignatureBlock content ∨
        ∃ file, files outFile = some file ∧ io.Holds writeSignatureBlock
          (fill content (intOfLong content.length).toNat io.read) file

/-- The buffer passes the checks, its data is written, and the file begins with it already. -/
structure BeginsWithData (writeSignatureBlock : Bytes → Option Bytes) (buffer file : Bytes) :
    Prop where
  signs : ∃ output, signWholeOutputFile writeSignatureBlock buffer = .ok output
  writes : io.output.writing 0 = none
  begins : buffer.take (buffer.length - 2) <+: file

/-- A run that opens the output finds the data in it that it writes. -/
def Rewrites (inFile outFile : String) (files : String → Option Bytes) : Prop :=
  ∃ writeSignatureBlock content file, files inFile = some content ∧
    io.Opens writeSignatureBlock content ∧ files outFile = some file ∧
      io.BeginsWithData writeSignatureBlock
        (fill content (intOfLong content.length).toNat io.read) file

/-- What a run leaves of the output file that it has opened. -/
def left (writeSignatureBlock : Bytes → Option Bytes) (buffer : Bytes) : Bytes :=
  match signWholeOutputFile writeSignatureBlock buffer with
  | .error _ => []
  | .ok output => (io.output.writePieces 0 (outputPieces buffer output)).1

end MainRun

/-! ## Signing -/

section Sign

variable {writeSignatureBlock : Bytes → Option Bytes} {zipData zipData' output : Bytes}

/-- The last two bytes of the data are not looked at. -/
theorem sign_congr (writeSignatureBlock : Bytes → Option Bytes)
    (hlength : zipData.length = zipData'.length)
    (htake : zipData.take (zipData.length - 2) = zipData'.take (zipData'.length - 2)) :
    signWholeOutputFile writeSignatureBlock zipData =
      signWholeOutputFile writeSignatureBlock zipData' := by
  unfold signWholeOutputFile
  rw [htake, hlength]
  split
  · rfl
  · rename_i hlen
    have hmagic : ∀ data : Bytes, data.length = zipData'.length →
        slice data (zipData'.length - 22) 4 =
          slice (data.take (data.length - 2)) (zipData'.length - 22) 4 := by
      intro data hdata
      have hroom : zipData'.length - 22 + 4 ≤ (data.take (data.length - 2)).length := by
        rw [List.length_take]
        omega
      have hslice : slice (data.take (data.length - 2) ++ data.drop (data.length - 2))
          (zipData'.length - 22) 4 = slice (data.take (data.length - 2)) (zipData'.length - 22) 4 :=
        slice_append_of_le hroom
      rwa [List.take_append_drop] at hslice
    rw [hmagic zipData hlength, hmagic zipData' rfl, htake]

/-- The output is the data up to the comment length, and a comment of limited length. -/
theorem sign_output (h : signWholeOutputFile writeSignatureBlock zipData = .ok output) :
    22 ≤ zipData.length ∧ output.take (zipData.length - 2) = zipData.take (zipData.length - 2) ∧
      zipData.length + 24 ≤ output.length ∧ output.length ≤ zipData.length + 65535 := by
  obtain ⟨hlen, -, block, comment, -, hcomment, hsize, -, rfl⟩ := sign_eq_ok h
  have hpart : (zipData.take (zipData.length - 2)).length = zipData.length - 2 := by
    rw [List.length_take]
    omega
  have hmessage : message.length = 17 := rfl
  have hcommentlen := length_archive_comment block
  refine ⟨hlen, ?_, ?_, ?_⟩
  · rw [List.take_append_of_le_length hpart.ge, List.take_of_length_le hpart.le]
  · rw [List.length_append, List.length_append, length_le16, hpart, hcomment]
    omega
  · rw [List.length_append, List.length_append, length_le16, hpart]
    omega

/-- Data of one length whose outputs start alike are alike up to the comment length. -/
theorem take_eq_of_output_prefix {output' : Bytes}
    (h : signWholeOutputFile writeSignatureBlock zipData = .ok output)
    (h' : signWholeOutputFile writeSignatureBlock zipData' = .ok output')
    (hlength : zipData.length = zipData'.length) (hstart : output <+: output') :
    zipData.take (zipData.length - 2) = zipData'.take (zipData'.length - 2) := by
  obtain ⟨-, htake, hlower, -⟩ := sign_output h
  obtain ⟨-, htake', -, -⟩ := sign_output h'
  obtain ⟨rest, rfl⟩ := hstart
  rw [← htake, ← htake', ← hlength, List.take_append_of_le_length (by omega)]

/-- The pieces that are written are the output. -/
theorem flatten_output_pieces : (outputPieces zipData output).flatten = output := by
  unfold outputPieces
  simp only [List.flatten_cons, List.flatten_nil, List.append_nil]
  rw [← drop_eq_slice_append, ← drop_eq_slice_append, List.take_append_drop]

/-- None of them is empty. -/
theorem ne_nil_of_mem_output_pieces (hlen : 22 ≤ zipData.length)
    (houtput : zipData.length + 24 ≤ output.length) {piece : Bytes}
    (h : piece ∈ outputPieces zipData output) : piece ≠ [] := by
  refine List.ne_nil_of_length_pos ?_
  simp only [outputPieces, List.mem_cons, List.not_mem_nil, or_false] at h
  rcases h with rfl | rfl | rfl | rfl
  · rw [List.length_take]
    omega
  · rw [length_slice]
    omega
  · rw [length_slice]
    omega
  · rw [List.length_drop]
    omega

end Sign

/-! ## The buffer -/

section Buffer

variable {content : Bytes} {length read : Nat}

/-- A buffer has the length of the file if that is below 2 GiB. Otherwise the file is longer by far,
or there is no buffer. -/
theorem int_of_long_cases {n : Nat} (h : 0 ≤ intOfLong n) :
    n < 2 ^ 31 ∧ (intOfLong n).toNat = n ∨ 2 ^ 32 ≤ n ∧ (intOfLong n).toNat < 2 ^ 31 := by
  unfold intOfLong at h ⊢
  rw [Int.bmod_def] at h ⊢
  split at h <;> omega

/-- The buffer has the length of the file. -/
theorem length_fill (content : Bytes) (length read : Nat) :
    (fill content length read).length = length := by
  unfold fill
  simp only [List.length_append, List.length_replicate, List.length_take]
  omega

/-- It has the bytes that were read, and zeros behind them. -/
theorem get_elem?_fill {i : Nat} (hi : i < length) (hlength : length ≤ content.length) :
    (fill content length read)[i]? = if i < read then content[i]? else some 0 := by
  unfold fill
  simp only
  rw [List.getElem?_append, List.length_take, List.length_take]
  split
  · rw [if_pos (by omega), List.getElem?_take_of_lt (by omega), List.getElem?_take_of_lt hi]
  · rw [if_neg (by omega), List.getElem?_replicate, if_pos (by omega)]

/-- The buffer agrees with the file in what is read, and where the file has zeros. -/
theorem take_fill_eq_iff :
    (fill content content.length read).take (content.length - 2) =
        content.take (content.length - 2) ↔
      ∀ i, read ≤ i → i + 2 < content.length → content[i]? = some 0 := by
  constructor
  · intro heq i hread hi
    have hbyte := congrArg (·[i]?) heq
    simp only [List.getElem?_take_of_lt (show i < content.length - 2 by omega)] at hbyte
    rw [get_elem?_fill (by omega) le_rfl, if_neg (by omega)] at hbyte
    exact hbyte.symm
  · intro h
    refine List.ext_getElem? fun i => ?_
    by_cases hi : i < content.length - 2
    · rw [List.getElem?_take_of_lt hi, List.getElem?_take_of_lt hi,
        get_elem?_fill (by omega) le_rfl]
      split
      · rfl
      · exact (h i (by omega) (by omega)).symm
    · rw [List.getElem?_take_eq_none (by omega), List.getElem?_take_eq_none (by omega)]

end Buffer

/-! ## A run -/

namespace MainRun

variable {io : MainRun} {writeSignatureBlock : Bytes → Option Bytes} {content : Bytes}

/-- What is left is the start of the signed buffer. -/
theorem left_prefix (io : MainRun) {buffer output : Bytes}
    (h : signWholeOutputFile writeSignatureBlock buffer = .ok output) :
    io.left writeSignatureBlock buffer <+: output := by
  have hwritten : (io.output.writePieces 0 (outputPieces buffer output)).1 <+:
      (outputPieces buffer output).flatten := Faults.written_prefix
  rw [flatten_output_pieces] at hwritten
  simpa only [left, h] using hwritten

/-- All of the signed buffer is left exactly if no write fails. -/
theorem left_eq_output_iff {buffer output : Bytes}
    (h : signWholeOutputFile writeSignatureBlock buffer = .ok output) :
    io.left writeSignatureBlock buffer = output ↔ io.output.WritesFrom 0 4 := by
  obtain ⟨hlen, -, houtput, -⟩ := sign_output h
  have hwritten : (io.output.writePieces 0 (outputPieces buffer output)).1 =
      (outputPieces buffer output).flatten ↔ io.output.WritesFrom 0 4 :=
    Faults.written_eq_iff fun piece => ne_nil_of_mem_output_pieces hlen houtput
  rw [flatten_output_pieces] at hwritten
  simpa only [left, h] using hwritten

/-- A file whose signed copy is left is read into a buffer of its length. -/
theorem length_of_left_signed {output : Bytes} (hlength : 0 ≤ intOfLong content.length)
    (hsign : signWholeOutputFile writeSignatureBlock content = .ok output)
    (hleft : io.left writeSignatureBlock
      (fill content (intOfLong content.length).toNat io.read) = output) :
    content.length < 2 ^ 31 ∧ (intOfLong content.length).toNat = content.length := by
  obtain ⟨-, -, hlower, -⟩ := sign_output hsign
  rcases int_of_long_cases hlength with hsmall | ⟨hlarge, hbuffer⟩
  · exact hsmall
  · -- a file of 4 GiB or more is longer than anything that is written
    exfalso
    cases hsigned : signWholeOutputFile writeSignatureBlock
        (fill content (intOfLong content.length).toNat io.read) with
    | error e =>
        simp only [left, hsigned] at hleft
        rw [← hleft, List.length_nil] at hlower
        omega
    | ok output' =>
        have hstart := left_prefix io hsigned
        have hle := hstart.length_le
        obtain ⟨-, -, -, hupper⟩ := sign_output hsigned
        rw [length_fill] at hupper
        rw [hleft] at hle
        omega

/-- A file is read whole if its signed copy is left. -/
theorem reads_all_of_left_signed {output : Bytes} (hsmall : content.length < 2 ^ 31)
    (hsign : signWholeOutputFile writeSignatureBlock content = .ok output)
    (hleft : io.left writeSignatureBlock (fill content content.length io.read) = output) :
    io.ReadsAll content := by
  refine ⟨hsmall, take_fill_eq_iff.1 ?_⟩
  cases hbuffer : signWholeOutputFile writeSignatureBlock
      (fill content content.length io.read) with
  | error e =>
      obtain ⟨-, -, hlower, -⟩ := sign_output hsign
      simp only [left, hbuffer] at hleft
      rw [← hleft, List.length_nil] at hlower
      omega
  | ok output' =>
      have hstart := left_prefix io hbuffer
      rw [hleft] at hstart
      have hsame :=
        take_eq_of_output_prefix hsign hbuffer (length_fill content _ io.read).symm hstart
      rw [length_fill] at hsame
      exact hsame.symm

/-- What a run leaves is the signed copy of the file exactly if the file is read, can be signed, and
no write fails. -/
theorem left_eq_signed_iff (hlength : 0 ≤ intOfLong content.length) :
    (∃ output, signWholeOutputFile writeSignatureBlock content = .ok output ∧
        io.left writeSignatureBlock
          (fill content (intOfLong content.length).toNat io.read) = output) ↔
      io.Succeeds writeSignatureBlock content := by
  -- a buffer that is read whole is signed as the file is
  have hbuffer (hreads : io.ReadsAll content) :
      signWholeOutputFile writeSignatureBlock (fill content content.length io.read) =
        signWholeOutputFile writeSignatureBlock content :=
    sign_congr writeSignatureBlock (length_fill content _ io.read)
      (by rw [length_fill]; exact take_fill_eq_iff.2 hreads.2)
  constructor
  · rintro ⟨output, hsign, hleft⟩
    obtain ⟨hsmall, hint⟩ := length_of_left_signed hlength hsign hleft
    rw [hint] at hleft
    have hreads := reads_all_of_left_signed hsmall hsign hleft
    exact ⟨hreads, ⟨output, hsign⟩,
      (left_eq_output_iff ((hbuffer hreads).trans hsign)).1 hleft⟩
  · rintro ⟨hreads, ⟨output, hsign⟩, hwrites⟩
    have hint : (intOfLong content.length).toNat = content.length := by
      rcases int_of_long_cases hlength with ⟨-, hint⟩ | ⟨hlarge, -⟩
      · exact hint
      · have hsmall := hreads.1
        omega
    rw [hint]
    exact ⟨output, hsign, (left_eq_output_iff ((hbuffer hreads).trans hsign)).2 hwrites⟩

/-- The output file is opened before the data is checked. -/
theorem sign_eq {buffer : Bytes} {outFile : Option Bytes} :
    io.sign writeSignatureBlock buffer outFile =
      if io.output.opening then outFile else some (io.left writeSignatureBlock buffer) := by
  unfold sign left
  cases signWholeOutputFile writeSignatureBlock buffer with
  | error e => exact Faults.rewrite_fst
  | ok output => exact Faults.rewrite_fst

variable {pemFile pk8File inFile outFile : String} {rest : List String}
  {files : String → Option Bytes}

/-- A run that opens the output file. -/
theorem main_of_opens (h : io.Opens writeSignatureBlock content)
    (hin : files inFile = some content) :
    io.main (pemFile :: pk8File :: inFile :: outFile :: rest) files outFile =
      some (io.left writeSignatureBlock
        (fill content (intOfLong content.length).toNat io.read)) := by
  have hreads : ¬ (intOfLong content.length < 0 ∨ io.inputThrows) := by
    rw [h.input, not_or]
    exact ⟨h.length.not_gt, Bool.false_ne_true⟩
  simp only [main, h.keys, hin, if_neg hreads, Function.update_self, sign_eq, h.output]
  rfl

/-- A run that does not leaves it alone. -/
theorem main_of_not_opens
    (h : ∀ writeSignatureBlock content, files inFile = some content →
      ¬ io.Opens writeSignatureBlock content) :
    io.main (pemFile :: pk8File :: inFile :: outFile :: rest) files outFile = files outFile := by
  unfold main
  cases hkeys : io.keys with
  | none => rfl
  | some writeSignatureBlock =>
      cases hin : files inFile with
      | none => simp only [hin]
      | some content =>
          simp only [hin]
          split
          · rfl
          · rename_i hreads
            rw [not_or, not_lt, Bool.not_eq_true] at hreads
            have hopening : io.output.opening = true := by
              by_contra hopening
              exact h writeSignatureBlock content hin
                ⟨hkeys, hreads.1, hreads.2, Bool.eq_false_of_not_eq_true hopening⟩
            rw [Function.update_self, sign_eq, if_pos hopening]

/-- The output file is the signed copy of the whole input or what it was before, exactly if the run
that opens it has read and signs all of the input and writes without a failure, or leaves the bytes
that were there. -/
theorem signed_or_unchanged_iff_left :
    io.SignedOrUnchanged pemFile pk8File inFile outFile rest files ↔
      ∀ writeSignatureBlock content, files inFile = some content →
        io.Opens writeSignatureBlock content →
          io.Succeeds writeSignatureBlock content ∨
            files outFile = some (io.left writeSignatureBlock
              (fill content (intOfLong content.length).toNat io.read)) := by
  unfold SignedOrUnchanged
  constructor
  · intro h writeSignatureBlock content hin hopens
    rw [← left_eq_signed_iff hopens.length]
    simp only [main_of_opens hopens hin] at h
    rcases h with ⟨_, _, output, hkeys, hin', hsign, hleft⟩ | hsame
    · rw [hopens.keys] at hkeys
      rw [hin] at hin'
      cases hkeys
      cases hin'
      exact .inl ⟨output, hsign, Option.some.inj hleft⟩
    · exact .inr hsame.symm
  · intro h
    by_cases hopens : ∃ writeSignatureBlock content, files inFile = some content ∧
        io.Opens writeSignatureBlock content
    · obtain ⟨writeSignatureBlock, content, hin, hopens⟩ := hopens
      have hcase := h writeSignatureBlock content hin hopens
      rw [← left_eq_signed_iff hopens.length] at hcase
      simp only [main_of_opens hopens hin]
      rcases hcase with ⟨output, hsign, hleft⟩ | hsame
      · exact .inl ⟨_, _, output, hopens.keys, hin, hsign, congrArg some hleft⟩
      · exact .inr hsame.symm
    · refine .inr (main_of_not_opens fun writeSignatureBlock content hin hopen => ?_)
      exact hopens ⟨writeSignatureBlock, content, hin, hopen⟩

/-- A buffer that the checks reject leaves nothing. -/
theorem left_of_rejected {buffer : Bytes}
    (h : ∀ output, signWholeOutputFile writeSignatureBlock buffer ≠ .ok output) :
    io.left writeSignatureBlock buffer = [] := by
  unfold left
  cases hsign : signWholeOutputFile writeSignatureBlock buffer with
  | error e => rfl
  | ok output => exact absurd hsign (h output)

/-- The first write stores a part of the data, or all of it comes to be in the file. -/
theorem left_of_signed {buffer output : Bytes}
    (h : signWholeOutputFile writeSignatureBlock buffer = .ok output) :
    (∀ n, io.output.writing 0 = some n → io.left writeSignatureBlock buffer =
        (buffer.take (buffer.length - 2)).dropLast.take n) ∧
      (io.output.writing 0 = none →
        buffer.take (buffer.length - 2) <+: io.left writeSignatureBlock buffer) := by
  obtain ⟨-, hdata, -, -⟩ := sign_output h
  simp only [left, h, outputPieces, Faults.writePieces]
  refine ⟨fun n hwriting => ?_, fun hwriting => ?_⟩
  · rw [hwriting, hdata]
  · rw [hwriting, hdata]
    exact List.prefix_append _ _

/-- A file that holds what such a run leaves is what the run leaves. -/
theorem left_of_holds {buffer file : Bytes} (h : io.Holds writeSignatureBlock buffer file) :
    file = io.left writeSignatureBlock buffer := by
  cases h with
  | rejected h hfile => rw [hfile, left_of_rejected h]
  | cut h hwriting hfile => rw [hfile, (left_of_signed h).1 _ hwriting]

/-- What a run leaves is such a file, or begins with the data. -/
theorem holds_left (io : MainRun) (writeSignatureBlock : Bytes → Option Bytes) (buffer : Bytes) :
    io.Holds writeSignatureBlock buffer (io.left writeSignatureBlock buffer) ∨
      io.BeginsWithData writeSignatureBlock buffer (io.left writeSignatureBlock buffer) := by
  cases hsign : signWholeOutputFile writeSignatureBlock buffer with
  | error e =>
      have hrejected : ∀ output, signWholeOutputFile writeSignatureBlock buffer ≠ .ok output := by
        rw [hsign]
        exact nofun
      exact .inl (.rejected hrejected (left_of_rejected hrejected))
  | ok output =>
      cases hwriting : io.output.writing 0 with
      | none => exact .inr ⟨⟨output, hsign⟩, hwriting, (left_of_signed hsign).2 hwriting⟩
      | some n => exact .inl (.cut hsign hwriting ((left_of_signed hsign).1 n hwriting))

end MainRun

/-- For every input file and key pair, and whatever the system does: after `main`, the output file
is the signed copy of the whole input or what it was before, if every run that opens it has read the
input (which is below 2 GiB), passes the checks and writes without a failure, or if it does not get
through the data and the file held as much of them before. This is also necessary, unless the data
is written over a file that begins with it already. -/
theorem main_output_iff (io : MainRun) (pemFile pk8File inFile outFile : String)
    (rest : List String) (files : String → Option Bytes) :
    (io.Safe inFile outFile files →
      io.SignedOrUnchanged pemFile pk8File inFile outFile rest files) ∧
    (¬ io.Rewrites inFile outFile files →
      (io.SignedOrUnchanged pemFile pk8File inFile outFile rest files ↔
        io.Safe inFile outFile files)) := by
  have henough : io.Safe inFile outFile files →
      io.SignedOrUnchanged pemFile pk8File inFile outFile rest files := by
    intro h
    rw [MainRun.signed_or_unchanged_iff_left]
    intro writeSignatureBlock content hin hopens
    rcases h writeSignatureBlock content hin hopens with hsucceeds | ⟨file, hfile, hholds⟩
    · exact .inl hsucceeds
    · exact .inr (hfile.trans (congrArg some (MainRun.left_of_holds hholds)))
  refine ⟨henough, fun hrewrites => ⟨fun h => ?_, henough⟩⟩
  rw [MainRun.signed_or_unchanged_iff_left] at h
  intro writeSignatureBlock content hin hopens
  rcases h writeSignatureBlock content hin hopens with hsucceeds | hsame
  · exact .inl hsucceeds
  · rcases MainRun.holds_left io writeSignatureBlock
      (fill content (intOfLong content.length).toNat io.read) with hholds | hdata
    · exact .inr ⟨_, hsame, hholds⟩
    · exact absurd ⟨_, content, _, hin, hopens, hsame, hdata⟩ hrewrites

/-- A run without failures that reads up to 22 bytes. -/
def reads22 : MainRun where
  keys := some fun _ => some []
  inputThrows := false
  read := 22
  output := ⟨false, fun _ => none, false⟩

/-- An input that is not a ZIP file, and an output file of an earlier run. -/
def noZip (path : String) : Option Bytes :=
  if path = "in.zip" then some (List.replicate 22 0)
  else if path = "out.zip" then some [0x50, 0x4b]
  else none

/-- The input is rejected when the output file is empty already. -/
theorem rejected_input_empties_output :
    reads22.main ["key.pem", "key.pk8", "in.zip", "out.zip"] noZip "out.zip" = some [] ∧
      ¬ reads22.SignedOrUnchanged "key.pem" "key.pk8" "in.zip" "out.zip" [] noZip := by
  have hmain : reads22.main ["key.pem", "key.pk8", "in.zip", "out.zip"] noZip "out.zip" =
      some [] := by decide
  refine ⟨hmain, fun h => ?_⟩
  rcases h with ⟨_, content, output, hkeys, hin, hsign, -⟩ | hsame
  · cases hkeys
    cases hin
    obtain ⟨-, hmagic, -⟩ := sign_eq_ok hsign
    revert hmagic
    decide
  · rw [hmain] at hsame
    cases hsame

end NamelessCenter.Server
