import Mathlib.Data.List.Basic

/-!
# Self-delimiting codes

A `PrefixDecoder` recognises a code at the start of a string and reports how much of the string
it occupies. The code delimits itself: what follows it cannot change the decoding. This is all
that is used of a compressed format whose end is marked inside the data.
-/

/-- A decoder of a self-delimiting code. `decode bs = some (out, used)` says that the first `used`
symbols of `bs` are a complete code word and that `out` is what it stands for. -/
structure PrefixDecoder (α β : Type*) where
  decode : List α → Option (List β × Nat)
  used_le : ∀ {bs : List α} {out : List β} {used : Nat},
    decode bs = some (out, used) → used ≤ bs.length
  decode_extend : ∀ {bs : List α} {out : List β} {used : Nat} (rest : List α),
    decode bs = some (out, used) → decode (bs.take used ++ rest) = some (out, used)

namespace PrefixDecoder

variable {α β : Type*} (D : PrefixDecoder α β)

/-- A complete code word stays complete, with the same meaning, when symbols are appended. -/
theorem decode_append {bs : List α} {out : List β} {used : Nat} (rest : List α)
    (h : D.decode bs = some (out, used)) : D.decode (bs ++ rest) = some (out, used) := by
  have hextend := D.decode_extend (bs.drop used ++ rest) h
  rwa [← List.append_assoc, List.take_append_drop] at hextend

/-- The code word alone decodes to the same meaning. -/
theorem decode_take {bs : List α} {out : List β} {used : Nat}
    (h : D.decode bs = some (out, used)) : D.decode (bs.take used) = some (out, used) := by
  simpa using D.decode_extend [] h

/-- A code word found in a prefix is the one found in the whole string. -/
theorem decode_mono {xs bs : List α} {out : List β} {used : Nat} (hinitial : xs <+: bs)
    (h : D.decode xs = some (out, used)) : D.decode bs = some (out, used) := by
  obtain ⟨rest, rfl⟩ := hinitial
  exact D.decode_append rest h

end PrefixDecoder
