import NamelessCenter.Lib.Bytes

/-!
# Files that are written anew

A file is opened, which empties it, filled piece by piece and closed, and each of these steps may
fail. A failure ends the writing: what is in the file by then is the start of what should have been
(`written_prefix`), and all of it if and only if no piece failed (`written_eq_iff`).
-/

namespace Bytes

/-- The failures that a file meets while it is written. -/
structure Faults where
  /-- The file cannot be opened, and stays as it was. -/
  opening : Bool
  /-- The write with this number fails after so many bytes, and before its last one. -/
  writing : Nat → Option Nat
  closing : Bool

namespace Faults

variable (f : Faults)

/-- None of the first `n` writes fails. -/
def WritesFrom (i n : Nat) : Prop := ∀ k < n, f.writing (i + k) = none

/-- A file of `n` pieces is written without a failure. -/
structure NoneIn (n : Nat) : Prop where
  opening : f.opening = false
  writing : f.WritesFrom 0 n
  closing : f.closing = false

/-- The bytes of the pieces that reach the file, and whether all of them do; `i` is the number of
the first piece. -/
def writePieces : Nat → List Bytes → Bytes × Bool
  | _, [] => ([], true)
  | i, piece :: pieces =>
      match f.writing i with
      | some n => (piece.dropLast.take n, false)
      | none =>
          let (written, completed) := writePieces (i + 1) pieces
          (piece ++ written, completed)

/-- The file with these pieces, if it could be opened, and whether nothing failed. -/
def rewrite (pieces : List Bytes) (file : Option Bytes) : Option Bytes × Bool :=
  if f.opening then (file, false)
  else
    let (written, completed) := f.writePieces 0 pieces
    (some written, completed && !f.closing)

variable {f} {i : Nat} {pieces : List Bytes} {file : Option Bytes}

/-- A piece and those behind it are written if none of the writes fails. -/
theorem writes_from_succ {n : Nat} :
    f.WritesFrom i (n + 1) ↔ f.writing i = none ∧ f.WritesFrom (i + 1) n := by
  unfold WritesFrom
  constructor
  · intro h
    refine ⟨h 0 (Nat.succ_pos n), fun k hk => ?_⟩
    rw [Nat.add_assoc, Nat.add_comm 1 k]
    exact h (k + 1) (Nat.succ_lt_succ hk)
  · intro ⟨hfirst, hrest⟩ k hk
    cases k with
    | zero => exact hfirst
    | succ k =>
        have hnext := hrest k (Nat.lt_of_succ_lt_succ hk)
        rwa [Nat.add_assoc, Nat.add_comm 1 k] at hnext

/-- All pieces are written exactly if none of the writes fails. -/
theorem completed_iff :
    (f.writePieces i pieces).2 = true ↔ f.WritesFrom i pieces.length := by
  induction pieces generalizing i with
  | nil => simp [writePieces, WritesFrom]
  | cons piece pieces ih =>
      rw [List.length_cons, writes_from_succ, writePieces]
      cases f.writing i with
      | none => simp [ih]
      | some n => simp

/-- The bytes that are written are the first ones of the pieces. -/
theorem written_prefix : (f.writePieces i pieces).1 <+: pieces.flatten := by
  induction pieces generalizing i with
  | nil => exact List.prefix_rfl
  | cons piece pieces ih =>
      rw [List.flatten_cons, writePieces]
      cases f.writing i with
      | none => exact (List.prefix_append_right_inj piece).2 ih
      | some n =>
          exact ((List.take_prefix n _).trans (List.dropLast_prefix piece)).trans
            (List.prefix_append piece _)

/-- Without a failure, all bytes are written. -/
theorem written_of_completed (h : f.WritesFrom i pieces.length) :
    (f.writePieces i pieces).1 = pieces.flatten := by
  induction pieces generalizing i with
  | nil => rfl
  | cons piece pieces ih =>
      obtain ⟨hfirst, hrest⟩ := writes_from_succ.1 h
      rw [List.flatten_cons, writePieces, hfirst]
      exact congrArg (piece ++ ·) (ih hrest)

/-- If no piece is empty, all bytes are written only without a failure. -/
theorem written_eq_iff (hne : ∀ piece ∈ pieces, piece ≠ []) :
    (f.writePieces i pieces).1 = pieces.flatten ↔ f.WritesFrom i pieces.length := by
  refine ⟨fun h => ?_, written_of_completed⟩
  induction pieces generalizing i with
  | nil => exact fun k hk => absurd hk (Nat.not_lt_zero k)
  | cons piece pieces ih =>
      rw [List.flatten_cons, writePieces] at h
      rw [List.length_cons, writes_from_succ]
      cases hwriting : f.writing i with
      | none =>
          rw [hwriting] at h
          have htail : ∀ p ∈ pieces, p ≠ [] := fun p hp => hne p (List.mem_cons_of_mem _ hp)
          exact ⟨rfl, ih htail (List.append_cancel_left h)⟩
      | some n =>
          -- the last byte of the piece is missing
          rw [hwriting] at h
          have hpos := List.length_pos_of_ne_nil (hne piece List.mem_cons_self)
          have hlength := congrArg List.length h
          simp only [List.length_take, List.length_dropLast, List.length_append] at hlength
          omega

/-- The file afterwards. -/
theorem rewrite_fst :
    (f.rewrite pieces file).1 = if f.opening then file else some (f.writePieces 0 pieces).1 := by
  unfold rewrite
  split <;> rfl

/-- A file that is rewritten without a failure. -/
theorem rewrite_of_none_in (h : f.NoneIn pieces.length) :
    f.rewrite pieces file = (some pieces.flatten, true) := by
  have hcompleted := completed_iff.2 h.writing
  rw [rewrite, if_neg (by rw [h.opening]; exact Bool.false_ne_true)]
  simp only [written_of_completed h.writing, hcompleted, h.closing, Bool.not_false, Bool.and_self]

/-- A file is rewritten exactly if nothing fails, from its opening to its closing. -/
theorem rewrite_completed_iff : (f.rewrite pieces file).2 = true ↔ f.NoneIn pieces.length := by
  constructor
  · intro h
    unfold rewrite at h
    split at h
    · cases h
    · rename_i hopening
      obtain ⟨hwriting, hclosing⟩ := Bool.and_eq_true_iff.1 h
      exact ⟨Bool.eq_false_of_not_eq_true hopening, completed_iff.1 hwriting,
        by simpa using hclosing⟩
  · intro h
    rw [rewrite_of_none_in h]

end Faults

end Bytes
