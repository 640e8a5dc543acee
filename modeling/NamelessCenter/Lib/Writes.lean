import NamelessCenter.Lib.Bytes

/-!
# Sequences of positioned writes

A file that is written piece by piece at arbitrary positions holds at each position the byte of the
last write that reaches it. `slice_write_all_iff` says when a written region still holds what was
written to it after further writes.
-/

namespace Bytes

/-- A write: the position and the bytes. -/
abbrev Write := Nat × Bytes

/-- The file after the writes, in their order. -/
def writeAll (xs : Bytes) (ws : List Write) : Bytes := ws.foldl (fun xs w => splice xs w.1 w.2) xs

/-- The byte that a write puts at position `q`, if it reaches that position. -/
def byteAt (w : Write) (q : Nat) : Option UInt8 := if w.1 ≤ q then w.2[q - w.1]? else none

/-- The byte that the last write reaching position `q` puts there, if there is one. -/
def lastByte : List Write → Nat → Option UInt8
  | [], _ => none
  | w :: ws, q => (lastByte ws q).or (byteAt w q)

/-- No write changes nothing. -/
@[simp] theorem write_all_nil (xs : Bytes) : writeAll xs [] = xs := rfl

/-- The first write is done first. -/
@[simp] theorem write_all_cons (xs : Bytes) (w : Write) (ws : List Write) :
    writeAll xs (w :: ws) = writeAll (splice xs w.1 w.2) ws := rfl

/-- Writes are done one after the other. -/
theorem write_all_append (xs : Bytes) (ws vs : List Write) :
    writeAll xs (ws ++ vs) = writeAll (writeAll xs ws) vs := List.foldl_append

/-- A write changes the bytes it reaches and no others of the file. -/
theorem get_elem?_splice {xs ys : Bytes} {off q : Nat} (hq : q < xs.length) :
    (splice xs off ys)[q]? = (byteAt (off, ys) q).or xs[q]? := by
  unfold byteAt
  by_cases hbefore : q < off
  · -- in front of the written range
    have hkept : slice (splice xs off ys) q 1 = slice xs q 1 := slice_splice_before hbefore hq
    have hsame := congrArg (·[0]?) hkept
    simp only [get_elem?_slice _ Nat.zero_lt_one, Nat.add_zero] at hsame
    rw [hsame, if_neg (by simp only; omega), Option.none_or]
  · rw [if_pos (by simp only; omega)]
    by_cases hinside : q < off + ys.length
    · have hwritten := congrArg (·[q - off]?) (slice_splice_self xs ys off)
      simp only [get_elem?_slice _ (show q - off < ys.length by omega)] at hwritten
      rw [Nat.add_sub_cancel' (by omega)] at hwritten
      rw [hwritten, List.getElem?_eq_getElem (show q - off < ys.length by omega), Option.some_or]
    · -- behind it
      have hkept : (splice xs off ys).drop (off + ys.length) = xs.drop (off + ys.length) :=
        drop_splice le_rfl
      have hsame := congrArg (·[q - (off + ys.length)]?) hkept
      simp only [List.getElem?_drop] at hsame
      rw [Nat.add_sub_cancel' (by omega)] at hsame
      rw [hsame, List.getElem?_eq_none (show ys.length ≤ q - off by omega), Option.none_or]

/-- A byte is the one that was written to it last, if any was. -/
theorem get_elem?_write_all {xs : Bytes} {ws : List Write} {q : Nat} (hq : q < xs.length) :
    (writeAll xs ws)[q]? = (lastByte ws q).or xs[q]? := by
  induction ws generalizing xs with
  | nil => rfl
  | cons w ws ih =>
      rw [write_all_cons, ih (hq.trans_le (le_length_splice xs w.1 w.2)), get_elem?_splice hq,
        lastByte, Option.or_assoc]

/-- A written region holds what was written to it exactly if later writes put the same bytes where
they reach into it. -/
theorem slice_write_all_iff (xs ys : Bytes) (off : Nat) (ws : List Write) :
    slice (writeAll (splice xs off ys) ws) off ys.length = ys ↔
      ∀ k < ys.length, ∀ b ∈ lastByte ws (off + k), ys[k]? = some b := by
  have hroom : ∀ k < ys.length, off + k < (splice xs off ys).length := fun k hk => by
    have hne : ys ≠ [] := List.ne_nil_of_length_pos (Nat.zero_lt_of_lt hk)
    have hend := end_le_length_splice xs off hne
    omega
  have hbyte : ∀ k < ys.length, (slice (writeAll (splice xs off ys) ws) off ys.length)[k]? =
      (lastByte ws (off + k)).or ys[k]? := fun k hk => by
    have hself := congrArg (·[k]?) (slice_splice_self xs ys off)
    simp only [get_elem?_slice _ hk] at hself
    rw [get_elem?_slice _ hk, get_elem?_write_all (hroom k hk), hself]
  constructor
  · intro heq k hk b hb
    have hk' := hbyte k hk
    rw [heq, Option.mem_def.1 hb, Option.some_or] at hk'
    exact hk'
  · intro hall
    refine List.ext_getElem? fun k => ?_
    by_cases hk : k < ys.length
    · rw [hbyte k hk]
      cases hlast : lastByte ws (off + k) with
      | none => exact Option.none_or
      | some b => exact (hall k hk b hlast).symm
    · have hlen : (slice (writeAll (splice xs off ys) ws) off ys.length).length ≤ k := by
        rw [length_slice]
        omega
      rw [List.getElem?_eq_none hlen, List.getElem?_eq_none (by omega)]

end Bytes
