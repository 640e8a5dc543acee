import NamelessCenter.Lib.Text

/-!
# Reading a text line by line

A reader ends a line at a line feed, at a carriage return, or at a carriage return and the line feed
behind it, and returns the line without them. The lines joined are the text without its line
terminators (`flatten_read_lines`). A property is a line whose text in front of the first `=` is the
key (`value_of_eq_some_iff`).
-/

namespace Text

/-! ## Lines -/

/-- The character ends a line. -/
def IsTerminator (c : Char) : Prop := c = '\n' ∨ c = '\r'

instance : DecidablePred IsTerminator := fun _ => inferInstanceAs (Decidable (_ ∨ _))

/-- The results of `readLine()` up to the end of the text. -/
def readLines : List Char → List (List Char)
  | [] => []
  | '\r' :: '\n' :: cs => [] :: readLines cs
  | c :: cs =>
      if IsTerminator c then [] :: readLines cs
      else
        match readLines cs with
        | [] => [[c]]
        | line :: rest => (c :: line) :: rest

/-- The lines are the text without its terminators. -/
theorem flatten_read_lines (text : List Char) :
    (readLines text).flatten = text.filter fun c => ¬ IsTerminator c := by
  fun_induction readLines text with
  | case1 => rfl
  | case2 cs ih =>
      rw [List.flatten_cons, List.nil_append, ih]
      rfl
  | case3 d cs _ hd ih =>
      rw [List.flatten_cons, List.nil_append, ih, List.filter_cons_of_neg (by simpa using hd)]
  | case4 d cs _ hd hnil ih =>
      rw [hnil] at ih
      rw [List.filter_cons_of_pos (by simpa using hd), ← ih]
      rfl
  | case5 d cs _ hd first rest hcons ih =>
      rw [hcons] at ih
      rw [List.filter_cons_of_pos (by simpa using hd), ← ih]
      rfl

/-- Nothing is lost exactly if the text has a single line. -/
theorem flatten_read_lines_eq_iff {text : List Char} :
    (readLines text).flatten = text ↔ ∀ c ∈ text, ¬ IsTerminator c := by
  rw [flatten_read_lines, List.filter_eq_self]
  simp

example : readLines "a\r\n\nb\n".toList = ["a".toList, [], "b".toList] := by decide

/-! ## Properties -/

/-- The value of a line with this key: the text behind its first `=`. -/
def valueOf (key line : List Char) : Option (List Char) :=
  match line.dropWhile (· ≠ '=') with
  | [] => none
  | _ :: value => if line.takeWhile (· ≠ '=') = key then some value else none

/-- A line has a value for the key exactly if it is the key, an equals sign and the value. -/
theorem value_of_eq_some_iff {key line value : List Char} :
    valueOf key line = some value ↔ '=' ∉ key ∧ line = key ++ '=' :: value := by
  constructor
  · intro h
    have hline := List.takeWhile_append_dropWhile (p := (· ≠ '=')) (l := line)
    unfold valueOf at h
    split at h
    · cases h
    · rename_i c rest hdrop
      obtain ⟨hkey, hrest⟩ := Option.ite_none_right_eq_some.1 h
      cases hrest
      -- what the key ends in front of is the equals sign
      have hc : c = '=' := by
        have hhead := List.head?_dropWhile_not (· ≠ '=') line
        rw [hdrop] at hhead
        simpa using hhead
      refine ⟨fun hmem => ?_, ?_⟩
      · rw [← hkey] at hmem
        simpa using List.mem_takeWhile_imp hmem
      · rw [hdrop, hkey, hc] at hline
        exact hline.symm
  · rintro ⟨hkey, rfl⟩
    have hall : ∀ c ∈ key, (decide (c ≠ '=')) = true := fun c hc =>
      decide_eq_true fun heq => hkey (heq ▸ hc)
    rw [valueOf, List.dropWhile_append_of_pos hall, List.takeWhile_append_of_pos hall]
    simp

/-- A line with the key contains it. -/
theorem infix_of_value_of {key line value : List Char} (h : valueOf key line = some value) :
    key <:+: line := by
  rw [(value_of_eq_some_iff.1 h).2]
  exact (List.prefix_append key _).isInfix

/-- The value of the first line with the key. -/
def firstValue (key : List Char) (ls : List (List Char)) : Option (List Char) :=
  ls.findSome? (valueOf key)

/-- No line has the key if none contains it. -/
theorem first_value_eq_none {key : List Char} {ls : List (List Char)}
    (h : ls.find? (key <:+: ·) = none) : firstValue key ls = none := by
  rw [firstValue, List.findSome?_eq_none_iff]
  intro line hline
  rw [Option.eq_none_iff_forall_ne_some]
  intro value hvalue
  exact List.find?_eq_none.1 h line hline (decide_eq_true (infix_of_value_of hvalue))

/-- The first line that contains the key is the first one that has it, if it has it at all. -/
theorem first_value_eq_some {key line value : List Char} {ls : List (List Char)}
    (h : ls.find? (key <:+: ·) = some line) (hvalue : valueOf key line = some value) :
    firstValue key ls = some value := by
  obtain ⟨-, before, after, rfl, hbefore⟩ := List.find?_eq_some_iff_append.1 h
  have hnone : firstValue key before = none :=
    first_value_eq_none (List.find?_eq_none.2 fun l hl => by simpa using hbefore l hl)
  rw [firstValue] at hnone ⊢
  rw [List.findSome?_append, hnone, Option.none_or, List.findSome?_cons, hvalue]

end Text
