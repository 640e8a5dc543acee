import Mathlib.Data.List.Basic
import Mathlib.Data.List.Infix
import Mathlib.Data.List.TakeWhile
import NamelessCenter.Lib.Bytes

/-!
# Texts

Strings are written to a file in UTF-8. Such a file is read again in one of two ways: line by
line, or as a sequence of calls whose arguments are string literals of C. `lines_unlines_iff` and
`literal_append_iff` say what a text may contain for either reader to find it as it was written.
-/

namespace Text

open Bytes

/-! ## UTF-8 -/

/-- The bytes of a string. -/
def utf8 (s : String) : Bytes := s.toList.flatMap String.utf8EncodeChar

/-- Texts are encoded one behind the other. -/
@[simp] theorem utf8_append (s t : String) : utf8 (s ++ t) = utf8 s ++ utf8 t := by
  simp [utf8]

/-- The bytes of a character that is not ASCII are not ASCII. -/
theorem le_of_mem_utf8_encode_char {c : Char} {b : UInt8} (hc : 0x7f < c.toNat)
    (hb : b ∈ String.utf8EncodeChar c) : 0x80 ≤ b.toNat := by
  have hv : ¬ c.val.toNat ≤ 0x7f := Nat.not_le.2 hc
  unfold String.utf8EncodeChar at hb
  simp only [if_neg hv] at hb
  -- sequences of two, three and four bytes, each with its highest bit set
  split at hb
  · simp only [List.mem_cons, List.not_mem_nil, or_false] at hb
    rcases hb with rfl | rfl <;> simp only [UInt8.toNat_ofNat'] <;> omega
  · split at hb
    · simp only [List.mem_cons, List.not_mem_nil, or_false] at hb
      rcases hb with rfl | rfl | rfl <;> simp only [UInt8.toNat_ofNat'] <;> omega
    · simp only [List.mem_cons, List.not_mem_nil, or_false] at hb
      rcases hb with rfl | rfl | rfl | rfl <;> simp only [UInt8.toNat_ofNat'] <;> omega

/-- A character of ASCII is one byte. -/
theorem utf8_encode_char_of_le {c : Char} (hc : c.toNat ≤ 0x7f) :
    String.utf8EncodeChar c = [UInt8.ofNat c.toNat] := by
  have hv : c.val.toNat ≤ 0x7f := hc
  unfold String.utf8EncodeChar
  simp only [if_pos hv]
  rfl

/-- An ASCII character is in a string if its byte is among the bytes of the string. -/
theorem mem_utf8_iff {s : String} {c : Char} (hc : c.toNat ≤ 0x7f) :
    UInt8.ofNat c.toNat ∈ utf8 s ↔ c ∈ s.toList := by
  unfold utf8
  rw [List.mem_flatMap]
  constructor
  · intro ⟨d, hmem, hb⟩
    -- the byte is too small to belong to a longer sequence
    have hd : d.toNat ≤ 0x7f := by
      by_contra hlt
      have hle := le_of_mem_utf8_encode_char (Nat.lt_of_not_le hlt) hb
      rw [UInt8.toNat_ofNat'] at hle
      omega
    rw [utf8_encode_char_of_le hd, List.mem_singleton] at hb
    have hnat : c.toNat = d.toNat := by
      have hmod := congrArg UInt8.toNat hb
      rw [UInt8.toNat_ofNat', UInt8.toNat_ofNat'] at hmod
      omega
    rwa [Char.toNat_inj.1 hnat]
  · intro hmem
    exact ⟨c, hmem, by rw [utf8_encode_char_of_le hc]; exact List.mem_singleton_self _⟩

/-! ## Removing substrings -/

/-- The text without the occurrences of `target`, which are found from left to right and do not
overlap; the first `skip` characters belong to one of them. -/
def removeFrom (target : List Char) : Nat → List Char → List Char
  | _, [] => []
  | skip + 1, _ :: cs => removeFrom target skip cs
  | 0, c :: cs =>
      if target.isPrefixOf (c :: cs) then removeFrom target (target.length - 1) cs
      else c :: removeFrom target 0 cs

/-- `s.replace(target, "")` of a `target` that is not empty. -/
def removeAll (target s : String) : String := String.ofList (removeFrom target.toList 0 s.toList)

/-- The text with the occurrences of `target` replaced, found as by `removeFrom`. -/
def replaceFrom (target replacement : List Char) : Nat → List Char → List Char
  | _, [] => []
  | skip + 1, _ :: cs => replaceFrom target replacement skip cs
  | 0, c :: cs =>
      if target.isPrefixOf (c :: cs) then
        replacement ++ replaceFrom target replacement (target.length - 1) cs
      else c :: replaceFrom target replacement 0 cs

/-- `s.replace(target, replacement)` of a `target` that is not empty. -/
def replaceAll (target replacement s : String) : String :=
  String.ofList (replaceFrom target.toList replacement.toList 0 s.toList)

section Remove

variable {target text : List Char}

/-- What was skipped does not matter. -/
theorem remove_from_drop (n : Nat) :
    removeFrom target n text = removeFrom target 0 (text.drop n) := by
  induction text generalizing n with
  | nil => simp [removeFrom]
  | cons c cs ih =>
      cases n with
      | zero => rfl
      | succ n => exact ih n

/-- An occurrence at the start is removed. -/
theorem remove_from_append (hne : target ≠ []) :
    removeFrom target 0 (target ++ text) = removeFrom target 0 text := by
  cases target with
  | nil => exact (hne rfl).elim
  | cons c cs =>
      have hstarts : (c :: cs).isPrefixOf (c :: (cs ++ text)) := by
        rw [List.isPrefixOf_iff_prefix]
        exact List.prefix_append (c :: cs) text
      rw [List.cons_append, removeFrom, if_pos hstarts, remove_from_drop, List.length_cons,
        Nat.add_sub_cancel, List.drop_left]

/-- Removing makes no text longer. -/
theorem length_remove_from_le (target : List Char) (n : Nat) (text : List Char) :
    (removeFrom target n text).length ≤ text.length := by
  fun_induction removeFrom target n text with
  | case1 => exact le_rfl
  | case2 n c cs ih => exact Nat.le_succ_of_le ih
  | case3 c cs hstarts ih => exact Nat.le_succ_of_le ih
  | case4 c cs hstarts ih => exact Nat.succ_le_succ ih

/-- Only a text without the target stays as it is. -/
theorem remove_from_eq_self_iff (hne : target ≠ []) :
    removeFrom target 0 text = text ↔ ¬ target <:+: text := by
  induction text with
  | nil => simp [removeFrom, hne]
  | cons c cs ih =>
      rw [removeFrom, List.infix_cons_iff, ← List.isPrefixOf_iff_prefix]
      split
      · rename_i hstarts
        -- what is left is too short
        have hle := length_remove_from_le target (target.length - 1) cs
        refine iff_of_false (fun heq => ?_) (not_not_intro (.inl hstarts))
        rw [heq, List.length_cons] at hle
        omega
      · rename_i hstarts
        simp [hstarts, ih]

/-- What is in front of the first occurrence of the target stays. -/
theorem remove_from_starts (h : target <:+: text) :
    ∃ before, before ++ target <+: text ∧ before <+: removeFrom target 0 text := by
  induction text with
  | nil =>
      obtain rfl := List.infix_nil.1 h
      exact ⟨[], List.prefix_rfl, List.prefix_rfl⟩
  | cons c cs ih =>
      rw [removeFrom]
      split
      · rename_i hstarts
        exact ⟨[], List.isPrefixOf_iff_prefix.1 hstarts, List.nil_prefix⟩
      · rename_i hstarts
        rw [List.isPrefixOf_iff_prefix] at hstarts
        obtain ⟨before, hbefore, hstays⟩ :=
          ih ((List.infix_cons_iff.1 h).resolve_left hstarts)
        exact ⟨c :: before, List.cons_prefix_cons.2 ⟨rfl, hbefore⟩,
          List.cons_prefix_cons.2 ⟨rfl, hstays⟩⟩

end Remove

/-! ## Numbers -/

/-- The zeros of the decimal digits of Unicode that are one code unit long. -/
def decimalZeros : List Nat :=
  [0x0030, 0x0660, 0x06f0, 0x07c0, 0x0966, 0x09e6, 0x0a66, 0x0ae6, 0x0b66, 0x0be6, 0x0c66, 0x0ce6,
    0x0d66, 0x0de6, 0x0e50, 0x0ed0, 0x0f20, 0x1040, 0x1090, 0x17e0, 0x1810, 0x1946, 0x19d0, 0x1a80,
    0x1a90, 0x1b50, 0x1bb0, 0x1c40, 0x1c50, 0xa620, 0xa8d0, 0xa900, 0xa9d0, 0xa9f0, 0xaa50, 0xabf0,
    0xff10]

/-- `Character.digit(c, 10)`. -/
def decimalDigit (c : Char) : Option Nat :=
  decimalZeros.findSome? fun first =>
    if first ≤ c.toNat ∧ c.toNat < first + 10 then some (c.toNat - first) else none

/-- `Integer.parseInt(s)`, if it does not throw. -/
def parseInt (s : String) : Option Int :=
  let (negative, digits) :=
    match s.toList with
    | '-' :: cs => (true, cs)
    | '+' :: cs => (false, cs)
    | cs => (false, cs)
  match digits.mapM decimalDigit with
  | none | some [] => none
  | some values =>
      let magnitude : Int := values.foldl (fun n d => 10 * n + d) 0
      let value := if negative then -magnitude else magnitude
      if -2 ^ 31 ≤ value ∧ value < 2 ^ 31 then some value else none

/-! ## Lines -/

section Lines

variable {α : Type*} {newline : α}

/-- The lines of a text. A line break may end the last one. -/
def lines [DecidableEq α] (newline : α) (text : List α) : List (List α) :=
  let parts := text.splitOn newline
  if parts.getLast? = some [] then parts.dropLast else parts

/-- The text with these lines. -/
def unlines (newline : α) (ls : List (List α)) : List α := ls.flatMap (· ++ [newline])

variable [DecidableEq α]

/-- A part contains no separator. -/
theorem not_mem_of_mem_split_on {text part : List α} (h : part ∈ text.splitOn newline) :
    newline ∉ part := by
  induction text generalizing part with
  | nil =>
      rw [List.splitOn_nil, List.mem_singleton] at h
      simp [h]
  | cons c cs ih =>
      rw [List.splitOn_cons_eq_if_modifyHead] at h
      split at h
      · rcases List.mem_cons.1 h with rfl | htail
        · exact List.not_mem_nil
        · exact ih htail
      · rename_i hc
        have hne : newline ≠ c := fun heq => hc (by simp [heq])
        -- the character belongs to the first part
        cases hsplit : cs.splitOn newline with
        | nil => exact (List.splitOn_ne_nil newline cs hsplit).elim
        | cons first rest =>
            rw [hsplit] at h ih
            rcases List.mem_cons.1 h with rfl | htail
            · simpa [hne] using ih List.mem_cons_self
            · exact ih (List.mem_cons_of_mem _ htail)

/-- A line contains no line feed. -/
theorem not_mem_of_mem_lines {text line : List α} (h : line ∈ lines newline text) :
    newline ∉ line := by
  unfold lines at h
  simp only at h
  split at h
  · exact not_mem_of_mem_split_on ((List.dropLast_sublist _).subset h)
  · exact not_mem_of_mem_split_on h

/-- Lines without line feeds are found again, and an empty part behind the last. -/
theorem split_on_unlines {ls : List (List α)} (h : ∀ l ∈ ls, newline ∉ l) :
    (unlines newline ls).splitOn newline = ls ++ [[]] := by
  induction ls with
  | nil => rfl
  | cons l ls ih =>
      have htail := ih fun m hm => h m (List.mem_cons_of_mem _ hm)
      have hcons : unlines newline (l :: ls) = l ++ newline :: unlines newline ls := by
        simp [unlines]
      rw [hcons, List.splitOn_append_cons_self_of_not_mem (h l List.mem_cons_self), htail]
      rfl

/-- A text has the lines it was made of if none of them contains a line break. -/
theorem lines_unlines_iff {ls : List (List α)} :
    lines newline (unlines newline ls) = ls ↔ ∀ l ∈ ls, newline ∉ l := by
  constructor
  · intro heq l hl
    exact not_mem_of_mem_lines (heq ▸ hl)
  · intro h
    simp [lines, split_on_unlines h]

end Lines

/-! ## String literals -/

/-- The line feed. -/
def newline : UInt8 := 0x0a

/-- The quotation mark. -/
def quote : UInt8 := 0x22

/-- The backslash. -/
def backslash : UInt8 := 0x5c

/-- The three bytes with a meaning are different. -/
theorem newline_ne_quote : newline ≠ quote := by decide

/-- A backslash is no line feed. -/
theorem backslash_ne_newline : backslash ≠ newline := by decide

/-- A backslash is no quotation mark. -/
theorem backslash_ne_quote : backslash ≠ quote := by decide

/-- The escape sequences of one character. -/
def simpleEscape (c : UInt8) : Option UInt8 :=
  [(0x22, 0x22), (0x27, 0x27), (0x3f, 0x3f), (0x5c, 0x5c), (0x61, 0x07), (0x62, 0x08), (0x66, 0x0c),
    (0x6e, 0x0a), (0x72, 0x0d), (0x74, 0x09), (0x76, 0x0b)].lookup c

/-- A digit of an octal escape. -/
def isOctal (c : UInt8) : Bool := 0x30 ≤ c && c ≤ 0x37

/-- A digit of a hexadecimal escape. -/
def isHex (c : UInt8) : Bool :=
  (0x30 ≤ c && c ≤ 0x39) || (0x41 ≤ c && c ≤ 0x46) || (0x61 ≤ c && c ≤ 0x66)

/-- The value of a digit. -/
def digit (c : UInt8) : Nat := if c ≤ 0x39 then (c - 0x30).toNat else ((c ||| 0x20) - 0x57).toNat

/-- An escape sequence of digits, whose value has to fit into a character. -/
def numeric (base : Nat) (digits rest : Bytes) : Option (UInt8 × Bytes) :=
  let value := digits.foldl (fun n c => n * base + digit c) 0
  if value < 256 then some (UInt8.ofNat value, rest) else none

/-- The escape sequence behind a backslash: the character it stands for, and what follows it. -/
def escape : Bytes → Option (UInt8 × Bytes)
  | [] => none
  | c :: cs =>
      match simpleEscape c with
      | some value => some (value, cs)
      | none =>
          if isOctal c then
            -- at most three digits
            let digits := (cs.take 2).takeWhile isOctal
            numeric 8 (c :: digits) (cs.drop digits.length)
          else if c = 0x78 then
            -- as many digits as there are
            let digits := cs.takeWhile isHex
            if digits = [] then none else numeric 16 digits (cs.drop digits.length)
          else none

/-- A numeric escape leaves what follows its digits. -/
theorem numeric_eq_some {base : Nat} {digits rest rest' : Bytes} {value : UInt8}
    (h : numeric base digits rest = some (value, rest')) : rest' = rest := by
  unfold numeric at h
  simp only at h
  split at h
  · cases h
    rfl
  · cases h

/-- The digits and what follows them. -/
theorem take_while_append_drop (p : UInt8 → Bool) (n : Nat) (cs : Bytes) :
    (cs.take n).takeWhile p ++ cs.drop ((cs.take n).takeWhile p).length = cs :=
  List.prefix_iff_eq_append.1 ((List.takeWhile_prefix _).trans (List.take_prefix n cs))

/-- An escape sequence has at least one character, and no line break. -/
theorem escape_eq_some {text rest : Bytes} {value : UInt8} (h : escape text = some (value, rest)) :
    ∃ sequence, text = sequence ++ rest ∧ sequence ≠ [] ∧ newline ∉ sequence := by
  cases text with
  | nil => cases h
  | cons c cs =>
      simp only [escape] at h
      split at h
      · rename_i hsimple
        cases h
        refine ⟨[c], rfl, List.cons_ne_nil _ _, fun hmem => ?_⟩
        rw [← List.mem_singleton.1 hmem] at hsimple
        cases hsimple
      · split at h
        · rename_i hoctal
          rw [numeric_eq_some h]
          refine ⟨c :: (cs.take 2).takeWhile isOctal, ?_, List.cons_ne_nil _ _, fun hmem => ?_⟩
          · rw [List.cons_append, take_while_append_drop]
          · have hdigit : isOctal newline := by
              rcases List.mem_cons.1 hmem with heq | hmem
              · rw [heq]; exact hoctal
              · exact List.mem_takeWhile_imp hmem
            cases hdigit
        · split at h
          · rename_i hx
            split at h
            · cases h
            · rw [numeric_eq_some h]
              refine ⟨c :: cs.takeWhile isHex, ?_, List.cons_ne_nil _ _, fun hmem => ?_⟩
              · have happend := take_while_append_drop isHex cs.length cs
                rw [List.take_length] at happend
                rw [List.cons_append, happend]
              · rcases List.mem_cons.1 hmem with heq | hmem
                · rw [← heq] at hx
                  cases hx
                · have hdigit : isHex newline := List.mem_takeWhile_imp hmem
                  cases hdigit
          · cases h

/-- An escape consumes a byte at least. -/
theorem escape_length {text rest : Bytes} {value : UInt8} (h : escape text = some (value, rest)) :
    rest.length < text.length := by
  obtain ⟨sequence, rfl, hne, -⟩ := escape_eq_some h
  have := List.length_pos_of_ne_nil hne
  rw [List.length_append]
  omega

/-- A string literal behind its opening quote: its characters, and what follows the closing quote. A
literal does not extend over a line break. -/
def literal : Bytes → Option (Bytes × Bytes)
  | [] => none
  | c :: cs =>
      if c = quote then some ([], cs)
      else if c = newline then none
      else if c = backslash then
        match _h : escape cs with
        | none => none
        | some (value, rest) => (literal rest).map fun (tail, end') => (value :: tail, end')
      else (literal cs).map fun (tail, end') => (c :: tail, end')
termination_by text => text.length
decreasing_by
  · have := escape_length _h
    simp only [List.length_cons]
    omega
  · simp

/-- Nothing in the text is special in a string literal. -/
def Plain (text : Bytes) : Prop := newline ∉ text ∧ quote ∉ text ∧ backslash ∉ text

instance (text : Bytes) : Decidable (Plain text) := inferInstanceAs (Decidable (_ ∧ _))

section Literal

variable {cs : Bytes}

/-- A string that is not closed. -/
@[simp] theorem literal_nil : literal [] = none := by
  rw [literal]

/-- The end of a string. -/
@[simp] theorem literal_quote : literal (quote :: cs) = some ([], cs) := by
  rw [literal, if_pos rfl]

/-- A string that is broken by a line feed. -/
@[simp] theorem literal_newline : literal (newline :: cs) = none := by
  rw [literal, if_neg newline_ne_quote, if_pos rfl]

/-- An escape in a string. -/
theorem literal_backslash :
    literal (backslash :: cs) = (escape cs).bind fun (value, rest) =>
      (literal rest).map fun (tail, end') => (value :: tail, end') := by
  rw [literal, if_neg backslash_ne_quote, if_neg backslash_ne_newline, if_pos rfl]
  split <;> simp_all

/-- A byte that stands for itself. -/
theorem literal_plain {c : UInt8} (hnewline : c ≠ newline) (hquote : c ≠ quote)
    (hbackslash : c ≠ backslash) :
    literal (c :: cs) = (literal cs).map fun (tail, end') => (c :: tail, end') := by
  rw [literal, if_neg hquote, if_neg hnewline, if_neg hbackslash]

end Literal

/-- The text of a literal has no line break, and is longer than its value unless it is plain. -/
theorem literal_eq_some {text value rest : Bytes} (h : literal text = some (value, rest)) :
    ∃ body, text = body ++ quote :: rest ∧ newline ∉ body ∧
      (body = value ∧ Plain body ∨ value.length < body.length) := by
  induction text using literal.induct generalizing value rest with
  | case1 => simp at h
  | case2 cs =>
      rw [literal_quote] at h
      cases h
      exact ⟨[], rfl, List.not_mem_nil, .inl ⟨rfl, by decide⟩⟩
  | case3 cs => simp at h
  | case4 cs hescape => simp [literal_backslash, hescape] at h
  | case5 cs character rest' hescape _ _ ih =>
      -- the sequence is longer than the character it stands for, so the literal is not plain
      rw [literal_backslash, hescape, Option.bind_some] at h
      obtain ⟨⟨tail, end'⟩, htail, hvalue⟩ := Option.map_eq_some_iff.1 h
      cases hvalue
      obtain ⟨body, rfl, hbody, hshape⟩ := ih htail
      obtain ⟨sequence, rfl, hne, hsequence⟩ := escape_eq_some hescape
      have hpos := List.length_pos_of_ne_nil hne
      have hle : tail.length ≤ body.length := by
        rcases hshape with ⟨rfl, -⟩ | hlt
        · exact le_rfl
        · exact hlt.le
      refine ⟨backslash :: sequence ++ body, by simp, ?_, .inr ?_⟩
      · simp [backslash_ne_newline.symm, hsequence, hbody]
      · simp only [List.length_cons, List.length_append]
        omega
  | case6 c cs hquote hnewline hbackslash ih =>
      rw [literal_plain hnewline hquote hbackslash] at h
      obtain ⟨⟨tail, end'⟩, htail, hvalue⟩ := Option.map_eq_some_iff.1 h
      cases hvalue
      obtain ⟨body, rfl, hbody, hshape⟩ := ih htail
      refine ⟨c :: body, rfl, ?_, ?_⟩
      · simp [Ne.symm hnewline, hbody]
      · rcases hshape with ⟨rfl, hplain⟩ | hlt
        · refine .inl ⟨rfl, ?_⟩
          simpa [Plain, Ne.symm hnewline, Ne.symm hquote, Ne.symm hbackslash] using hplain
        · exact .inr (Nat.succ_lt_succ hlt)

/-- A string consumes a byte at least. -/
theorem literal_length {text value rest : Bytes} (h : literal text = some (value, rest)) :
    rest.length < text.length := by
  obtain ⟨body, rfl, -⟩ := literal_eq_some h
  simp only [List.length_append, List.length_cons]
  omega

/-- A plain text is the literal that it looks like. -/
theorem literal_append {text rest : Bytes} (h : Plain text) :
    literal (text ++ quote :: rest) = some (text, rest) := by
  induction text with
  | nil => exact literal_quote
  | cons c cs ih =>
      simp only [Plain, List.mem_cons, not_or] at h
      obtain ⟨⟨hnewline, hnewlines⟩, ⟨hquote, hquotes⟩, ⟨hbackslash, hbackslashes⟩⟩ := h
      rw [List.cons_append, literal_plain (Ne.symm hnewline) (Ne.symm hquote) (Ne.symm hbackslash),
        ih ⟨hnewlines, hquotes, hbackslashes⟩]
      rfl

/-- A text between quotes is read as itself only if it is plain, when no further quote follows on
the line: a longer literal would have to end there. -/
theorem literal_append_iff {text line rest rest' : Bytes} (hline : quote ∉ line) :
    literal (text ++ quote :: (line ++ newline :: rest)) = some (text, rest') ↔
      Plain text ∧ rest' = line ++ newline :: rest := by
  constructor
  · intro h
    obtain ⟨body, htext, hbody, ⟨rfl, hplain⟩ | hlt⟩ := literal_eq_some h
    · refine ⟨hplain, ?_⟩
      simpa using htext.symm
    · -- the literal ends behind the first quote, and before the line break
      exfalso
      obtain ⟨middle, rfl, hmiddle⟩ | ⟨after, rfl, -⟩ := List.append_eq_append_iff.1 htext
      · cases middle with
        | nil => simp at hlt
        | cons c middle =>
            obtain ⟨rfl, hrest⟩ := List.cons.inj hmiddle
            obtain ⟨after, rfl, hafter⟩ | ⟨before, rfl, hbefore⟩ :=
              List.append_eq_append_iff.1 hrest
            · -- it would contain the line break
              cases after with
              | nil => exact absurd (List.cons.inj hafter).1 newline_ne_quote
              | cons d after =>
                  rw [← (List.cons.inj hafter).1] at hbody
                  exact hbody (by simp)
            · -- it would end at a quote of the line
              cases before with
              | nil => exact absurd (List.cons.inj hbefore).1 newline_ne_quote.symm
              | cons d before =>
                  rw [← (List.cons.inj hbefore).1] at hline
                  exact hline (by simp)
      · rw [List.length_append] at hlt
        omega
  · rintro ⟨hplain, rfl⟩
    exact literal_append hplain

/-! ## Calls -/

/-- The tokens of a script. -/
inductive Token where
  | word (name : Bytes)
  | string (value : Bytes)
  | lparen
  | rparen
  | comma
  | semicolon
  deriving DecidableEq, Repr

/-- White space between tokens. -/
def isBlank (c : UInt8) : Bool := c = 0x20 || c = 0x09 || c = newline || c = 0x0d

/-- The bytes of a name. -/
def isWordChar (c : UInt8) : Bool :=
  (0x30 ≤ c && c ≤ 0x39) || (0x41 ≤ c && c ≤ 0x5a) || (0x61 ≤ c && c ≤ 0x7a) || c = 0x5f

/-- The tokens of one byte. -/
def punctuation (c : UInt8) : Option Token :=
  [(0x28, .lparen), (0x29, .rparen), (0x2c, .comma), (0x3b, .semicolon)].lookup c

/-- The tokens of a text. -/
def tokens : Bytes → Option (List Token)
  | [] => some []
  | c :: cs =>
      match punctuation c with
      | some token => (tokens cs).map (token :: ·)
      | none =>
          if isBlank c then tokens cs
          else if c = quote then
            match _h : literal cs with
            | none => none
            | some (value, rest) => (tokens rest).map (.string value :: ·)
          else if isWordChar c then
            (tokens (cs.dropWhile isWordChar)).map (.word (c :: cs.takeWhile isWordChar) :: ·)
          else none
termination_by text => text.length
decreasing_by
  · simp
  · simp
  · have := literal_length _h
    simp only [List.length_cons]
    omega
  · have := (List.dropWhile_sublist isWordChar (l := cs)).length_le
    simp only [List.length_cons]
    omega

/-- A call of a function on strings. -/
structure Call where
  name : Bytes
  args : List Bytes
  deriving DecidableEq, Repr

/-- A sequence of calls, behind the arguments that a first call already has. -/
def parseCalls : Option Call → List Token → Option (List Call)
  | none, [] => some []
  | none, .word name :: .lparen :: ts => parseCalls (some ⟨name, []⟩) ts
  | some c, .string value :: .comma :: ts =>
      parseCalls (some { c with args := c.args ++ [value] }) ts
  | some c, .string value :: .rparen :: .semicolon :: ts =>
      (parseCalls none ts).map ({ c with args := c.args ++ [value] } :: ·)
  | _, _ => none

/-- The calls that a text consists of. Each ends with a semicolon. -/
def calls (text : Bytes) : Option (List Call) := (tokens text).bind (parseCalls none)

/-- The arguments of a call as it is written. -/
def argsText : List Bytes → Bytes
  | [] => []
  | [a] => quote :: a ++ [quote]
  | a :: args => quote :: a ++ [quote, 0x2c, 0x20] ++ argsText args

/-- The text of a call. -/
def Call.text (c : Call) : Bytes := c.name ++ 0x28 :: argsText c.args ++ [0x29, 0x3b]

/-- The call has a name and an argument. -/
structure Call.WellFormed (c : Call) : Prop where
  name_ne_nil : c.name ≠ []
  name_word : ∀ b ∈ c.name, isWordChar b
  args_ne_nil : c.args ≠ []

section Calls

variable {cs rest : Bytes}

/-- A token of one byte. -/
theorem tokens_punctuation {c : UInt8} (token : Token) (h : punctuation c = some token) :
    tokens (c :: cs) = (tokens cs).map (token :: ·) := by
  rw [tokens, h]

/-- White space is skipped. -/
theorem tokens_blank {c : UInt8} (hnone : punctuation c = none) (h : isBlank c) :
    tokens (c :: cs) = tokens cs := by
  rw [tokens, hnone]
  exact if_pos h

/-- A string is one token. -/
theorem tokens_quote :
    tokens (quote :: cs) = (literal cs).bind fun (value, rest) =>
      (tokens rest).map (.string value :: ·) := by
  have hnone : punctuation quote = none := rfl
  have hblank : ¬ isBlank quote := by decide
  rw [tokens, hnone]
  simp only [if_neg hblank, ↓reduceIte]
  split <;> simp_all

/-- A word ends in front of a character that words do not have. -/
theorem tokens_word {word : Bytes} {c : UInt8} (hne : word ≠ []) (hword : ∀ b ∈ word, isWordChar b)
    (hc : ¬ isWordChar c) :
    tokens (word ++ c :: cs) = (tokens (c :: cs)).map (.word word :: ·) := by
  cases word with
  | nil => exact (hne rfl).elim
  | cons b word =>
      have hb : isWordChar b := hword b List.mem_cons_self
      have hdiffers : ∀ d, ¬ isWordChar d → b ≠ d := fun d hd heq => hd (heq ▸ hb)
      have hnone : punctuation b = none := by
        rw [punctuation, List.lookup_eq_none_iff]
        intro mark hmark
        have hsign : ¬ isWordChar mark.1 := by
          simp only [List.mem_cons, List.not_mem_nil, or_false] at hmark
          rcases hmark with rfl | rfl | rfl | rfl <;> decide
        exact bne_iff_ne.2 (hdiffers mark.1 hsign)
      have hblank : ¬ isBlank b := by
        simp [isBlank, hdiffers 0x20 (by decide), hdiffers 0x09 (by decide),
          hdiffers newline (by decide), hdiffers 0x0d (by decide)]
      have hquote : b ≠ quote := hdiffers quote (by decide)
      have htail : ∀ d ∈ word, isWordChar d := fun d hd => hword d (List.mem_cons_of_mem _ hd)
      rw [List.cons_append, tokens, hnone]
      simp only [if_neg hblank, if_neg hquote, if_pos hb]
      rw [List.takeWhile_append_of_pos htail, List.dropWhile_append_of_pos htail,
        List.takeWhile_cons_of_neg hc, List.dropWhile_cons_of_neg hc, List.append_nil]

/-- So is a string without a byte of a special meaning. -/
theorem tokens_string {a : Bytes} (h : Plain a) :
    tokens (quote :: (a ++ quote :: cs)) = (tokens cs).map (.string a :: ·) := by
  rw [tokens_quote, literal_append h, Option.bind_some]

/-- The end of a call, up to the line break. -/
theorem tokens_end :
    tokens (0x29 :: 0x3b :: newline :: cs) = (tokens cs).map (.rparen :: .semicolon :: ·) := by
  rw [tokens_punctuation .rparen rfl, tokens_punctuation .semicolon rfl,
    tokens_blank rfl (by decide), Option.map_map]
  rfl

/-- An empty script has no calls. -/
@[simp] theorem calls_nil : calls [] = some [] := by
  rw [calls, tokens]
  rfl

/-- A call is read up to its name and parenthesis. -/
theorem calls_text_append {c : Call} (h : c.WellFormed) :
    calls (c.text ++ newline :: rest) =
      (tokens (argsText c.args ++ 0x29 :: 0x3b :: newline :: rest)).bind
        (parseCalls (some ⟨c.name, []⟩)) := by
  have htext : c.text ++ newline :: rest =
      c.name ++ 0x28 :: (argsText c.args ++ 0x29 :: 0x3b :: newline :: rest) := by
    simp [Call.text]
  rw [calls, htext, tokens_word h.name_ne_nil h.name_word (by decide),
    tokens_punctuation .lparen rfl, Option.map_map, Option.bind_map]
  rfl

/-- Plain arguments are read as they are, behind the arguments that `c` already has. -/
theorem parse_calls_args_text {args : List Bytes} (hne : args ≠ []) (hplain : ∀ a ∈ args, Plain a)
    (c : Call) :
    (tokens (argsText args ++ 0x29 :: 0x3b :: newline :: rest)).bind (parseCalls (some c)) =
      (calls rest).map ({ c with args := c.args ++ args } :: ·) := by
  -- the arguments that have been read are those of `c`, so the induction has to be about any `c`
  induction args generalizing c with
  | nil => exact (hne rfl).elim
  | cons a args ih =>
      have ha := hplain a List.mem_cons_self
      cases args with
      | nil =>
          have htext : argsText [a] ++ 0x29 :: 0x3b :: newline :: rest =
              quote :: (a ++ quote :: (0x29 :: 0x3b :: newline :: rest)) := by
            simp [argsText]
          rw [htext, tokens_string ha, tokens_end, Option.map_map, Option.bind_map, calls,
            Option.map_bind]
          rfl
      | cons b args =>
          have htext : argsText (a :: b :: args) ++ 0x29 :: 0x3b :: newline :: rest =
              quote :: (a ++ quote :: 0x2c :: 0x20 ::
                (argsText (b :: args) ++ 0x29 :: 0x3b :: newline :: rest)) := by
            simp [argsText]
          have htail := ih (List.cons_ne_nil b args)
            (fun d hd => hplain d (List.mem_cons_of_mem _ hd)) { c with args := c.args ++ [a] }
          rw [htext, tokens_string ha, tokens_punctuation .comma rfl,
            tokens_blank rfl (by decide), Option.map_map, Option.bind_map]
          rw [List.append_assoc] at htail
          exact htail

/-- The next token is the next argument of the call that is being read. -/
theorem parse_calls_head {c d : Call} {ts : List Token} {ds : List Call}
    (h : parseCalls (some c) ts = some (d :: ds)) :
    ∃ value ts' more, ts = .string value :: ts' ∧ d.args = c.args ++ value :: more := by
  generalize hstate : some c = state at h
  fun_induction parseCalls state ts generalizing c d ds with
  | case1 => cases hstate
  | case2 => cases hstate
  | case3 c' value ts ih =>
      cases hstate
      obtain ⟨_, _, more, -, hargs⟩ := ih rfl h
      exact ⟨value, _, _, rfl, by rw [hargs, List.append_assoc]; rfl⟩
  | case4 c' value ts ih =>
      -- the call ends here, so the argument is its last one
      cases hstate
      obtain ⟨tail, -, hcons⟩ := Option.map_eq_some_iff.1 h
      cases hcons
      exact ⟨value, _, [], rfl, rfl⟩
  | case5 => cases h

/-- A call of plain arguments is read as it was written. -/
theorem calls_append {c : Call} (h : c.WellFormed) (hplain : ∀ a ∈ c.args, Plain a) :
    calls (c.text ++ newline :: rest) = (calls rest).map (c :: ·) := by
  rw [calls_text_append h, parse_calls_args_text h.args_ne_nil hplain]
  rfl

/-- If a call of one argument is read as it was written, the argument is plain. -/
theorem plain_of_calls {name a : Bytes} {cs : List Call} (hne : name ≠ [])
    (hword : ∀ b ∈ name, isWordChar b)
    (h : calls (Call.text ⟨name, [a]⟩ ++ newline :: rest) = some (⟨name, [a]⟩ :: cs)) :
    Plain a := by
  have htext : argsText [a] ++ 0x29 :: 0x3b :: newline :: rest =
      quote :: (a ++ quote :: ([0x29, 0x3b] ++ newline :: rest)) := by
    simp [argsText]
  rw [calls_text_append ⟨hne, hword, List.cons_ne_nil _ _⟩, htext, tokens_quote] at h
  obtain ⟨ts, hts, hparse⟩ := Option.bind_eq_some_iff.1 h
  obtain ⟨⟨value, rest'⟩, hliteral, hrest⟩ := Option.bind_eq_some_iff.1 hts
  obtain ⟨ts', -, rfl⟩ := Option.map_eq_some_iff.1 hrest
  have hvalue : value = a := by
    obtain ⟨first, tail, more, htokens, hargs⟩ := parse_calls_head hparse
    cases htokens
    exact (List.cons.inj hargs).1.symm
  rw [hvalue] at hliteral
  exact ((literal_append_iff (by decide)).1 hliteral).1

/-- Calls of one argument, or of arguments that are plain anyway, are read as they were written if
all arguments are plain. -/
theorem calls_unlines_iff {cs : List Call} (hcs : ∀ c ∈ cs, c.WellFormed)
    (hargs : ∀ c ∈ cs, c.args.length = 1 ∨ ∀ a ∈ c.args, Plain a) :
    calls (unlines newline (cs.map Call.text)) = some cs ↔ ∀ c ∈ cs, ∀ a ∈ c.args, Plain a := by
  induction cs with
  | nil => simp [unlines]
  | cons c cs ih =>
      have htail := ih (fun d hd => hcs d (List.mem_cons_of_mem _ hd))
        fun d hd => hargs d (List.mem_cons_of_mem _ hd)
      have htext : unlines newline ((c :: cs).map Call.text) =
          c.text ++ newline :: unlines newline (cs.map Call.text) := by
        simp [unlines]
      have hc := hcs c List.mem_cons_self
      -- a plain first call is read back, and then the others are read on their own
      have hread : (∀ a ∈ c.args, Plain a) → (calls (unlines newline ((c :: cs).map Call.text)) =
          some (c :: cs) ↔ ∀ d ∈ cs, ∀ a ∈ d.args, Plain a) := fun hplain => by
        rw [htext, calls_append hc hplain, ← htail]
        simp
      rw [List.forall_mem_cons]
      constructor
      · intro h
        have hplain : ∀ a ∈ c.args, Plain a := by
          rcases hargs c List.mem_cons_self with hone | hplain
          · obtain ⟨a, ha⟩ := List.length_eq_one_iff.1 hone
            have hcall : c = ⟨c.name, [a]⟩ := by rw [← ha]
            rw [htext, hcall] at h
            rw [ha]
            exact List.forall_mem_singleton.2 (plain_of_calls hc.name_ne_nil hc.name_word h)
          · exact hplain
        exact ⟨hplain, (hread hplain).1 h⟩
      · intro ⟨hplain, hrest⟩
        exact (hread hplain).2 hrest

end Calls

end Text
