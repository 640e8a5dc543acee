import Mathlib.Data.List.Basic
import Mathlib.Tactic.Ring

/-!
# Instructions that build a list from another one

A target list is built by instructions that add elements, repeat one, or copy a part of a segment
or of the target itself. The addresses of the target follow those of the segment, from `start` on,
and a copy within the target may read what it has just written. An instruction `Describes` a target
at a position if it does the right thing there; instructions that describe the target one behind
the other build it (`build_eq_take`).
-/

namespace Copies

variable {α : Type}

/-- The list with `n` more elements, each a copy of the one at `src`, `src + 1`, .. of the list
itself. -/
def extend (out : List α) (src : Nat) : Nat → Option (List α)
  | 0 => some out
  | n + 1 =>
      match out[src]? with
      | none => none
      | some a => extend (out ++ [a]) (src + 1) n

/-- A copy of no elements. -/
@[simp] theorem extend_zero (out : List α) (src : Nat) : extend out src 0 = some out := rfl

/-- A copy goes on with one element after the other, those it has copied itself included. -/
theorem extend_succ {out : List α} {src : Nat} {a : α} (h : out[src]? = some a) (n : Nat) :
    extend out src (n + 1) = extend (out ++ [a]) (src + 1) n := by
  rw [extend, h]

/-- A copy adds as many elements as it is long. -/
theorem length_of_extend {out out' : List α} {src n : Nat} (h : extend out src n = some out') :
    out'.length = out.length + n := by
  induction n generalizing out src with
  | zero =>
      rw [extend_zero, Option.some.injEq] at h
      rw [← h, Nat.add_zero]
  | succ n ih =>
      unfold extend at h
      cases hget : out[src]? with
      | none => simp [hget] at h
      | some a =>
          simp only [hget] at h
          rw [ih h, List.length_append, List.length_singleton]
          omega

/-- If the target repeats itself where the copy goes, the copy extends it. -/
theorem extend_take {target : List α} {pos src n : Nat} (hsrc : src < pos)
    (hroom : pos + n ≤ target.length) (h : ∀ k < n, target[src + k]? = target[pos + k]?) :
    extend (target.take pos) src n = some (target.take (pos + n)) := by
  induction n generalizing pos src with
  | zero => rw [extend_zero, Nat.add_zero]
  | succ n ih =>
      have hpos : pos < target.length := by omega
      have hget : (target.take pos)[src]? = some target[pos] := by
        rw [List.getElem?_take_of_lt hsrc, ← Nat.add_zero src, h 0 (Nat.succ_pos n), Nat.add_zero,
          List.getElem?_eq_getElem hpos]
      have hgrown : target.take pos ++ [target[pos]] = target.take (pos + 1) :=
        List.take_append_getElem hpos
      rw [extend_succ hget, hgrown, ih (by omega) (by omega), Nat.add_right_comm, Nat.add_assoc]
      intro k hk
      have hstep := h (k + 1) (by omega)
      rwa [Nat.add_right_comm src, Nat.add_right_comm pos, Nat.add_assoc src, Nat.add_assoc pos]

/-- An instruction. -/
inductive Inst (α : Type) where
  | add (xs : List α)
  | run (a : α) (n : Nat)
  | copy (addr n : Nat)
  deriving DecidableEq, Repr

namespace Inst

/-- The number of elements that an instruction makes. -/
def size : Inst α → Nat
  | add xs => xs.length
  | run _ n => n
  | copy _ n => n

/-- What an instruction does to the target so far. The target's addresses begin at `start`; those
below are in the segment, from which a copy does not go on into the target. -/
def apply (segment : List α) (start : Nat) (out : List α) : Inst α → Option (List α)
  | add xs => some (out ++ xs)
  | run a n => some (out ++ List.replicate n a)
  | copy addr n =>
      if addr < start then
        if addr + n ≤ start ∧ addr + n ≤ segment.length then
          some (out ++ (segment.drop addr).take n)
        else none
      else extend out (addr - start) n

/-- The instruction makes what the target has at `pos`. -/
def Describes (segment : List α) (start : Nat) (target : List α) (pos : Nat) : Inst α → Prop
  | add xs => xs <+: target.drop pos
  | run a n => List.replicate n a <+: target.drop pos
  | copy addr n =>
      pos + n ≤ target.length ∧
        if addr < start then
          addr + n ≤ start ∧ addr + n ≤ segment.length ∧
            (segment.drop addr).take n <+: target.drop pos
        else addr - start < pos ∧ ∀ k < n, target[addr - start + k]? = target[pos + k]?

/-- An instruction adds as many elements as its size. -/
theorem length_of_apply {segment out out' : List α} {start : Nat} {i : Inst α}
    (h : i.apply segment start out = some out') : out'.length = out.length + i.size := by
  cases i with
  | add xs =>
      cases h
      exact List.length_append
  | run a n =>
      cases h
      rw [List.length_append, List.length_replicate, size]
  | copy addr n =>
      unfold apply at h
      by_cases hseg : addr < start
      · simp only [if_pos hseg] at h
        by_cases hfits : addr + n ≤ start ∧ addr + n ≤ segment.length
        · rw [if_pos hfits] at h
          cases h
          rw [List.length_append, List.length_take, List.length_drop, size]
          omega
        · rw [if_neg hfits] at h
          cases h
      · simp only [if_neg hseg] at h
        exact length_of_extend h

/-- A prefix of what is left goes behind what there is. -/
theorem take_append_of_starts {target xs : List α} {pos : Nat} (h : xs <+: target.drop pos) :
    target.take pos ++ xs = target.take (pos + xs.length) := by
  rw [List.take_add]
  congr 1
  exact List.prefix_iff_eq_take.1 h

/-- An instruction that describes the target extends it. -/
theorem Describes.apply {segment target : List α} {start pos : Nat} {i : Inst α}
    (h : i.Describes segment start target pos) :
    i.apply segment start (target.take pos) = some (target.take (pos + i.size)) := by
  cases i with
  | add xs => exact congrArg some (take_append_of_starts h)
  | run a n =>
      have hrun := take_append_of_starts h
      rw [List.length_replicate] at hrun
      exact congrArg some hrun
  | copy addr n =>
      obtain ⟨hroom, h⟩ := h
      unfold Inst.apply
      by_cases hseg : addr < start
      · rw [if_pos hseg] at h
        obtain ⟨hstart, hlen, hsame⟩ := h
        have hcopy := take_append_of_starts hsame
        rw [List.length_take, List.length_drop, min_eq_left (by omega)] at hcopy
        simp only [if_pos hseg, if_pos (And.intro hstart hlen)]
        exact congrArg some hcopy
      · rw [if_neg hseg] at h
        simp only [if_neg hseg]
        exact extend_take h.1 hroom h.2

/-- A copy from the segment in two parts. -/
theorem apply_copy_rest {segment out out' : List α} {start addr n k : Nat}
    (h : (copy addr n).apply segment start out = some out') (hseg : addr < start) (hk : k < n) :
    (copy (addr + k) (n - k)).apply segment start (out ++ (segment.drop addr).take k) =
      some out' := by
  simp only [Inst.apply, if_pos hseg] at h
  split at h
  · rename_i hroom
    cases h
    have hrest : addr + k < start := by omega
    have hfits : addr + k + (n - k) ≤ start ∧ addr + k + (n - k) ≤ segment.length := by omega
    have htake : (segment.drop addr).take k ++ ((segment.drop addr).drop k).take (n - k) =
        (segment.drop addr).take n := by
      rw [← List.take_add, Nat.add_sub_cancel' hk.le]
    simp only [Inst.apply, if_pos hrest, if_pos hfits]
    rw [List.append_assoc, ← List.drop_drop, htake]
  · cases h

end Inst

/-- The target that instructions build. -/
def build (segment : List α) (start : Nat) : List (Inst α) → List α → Option (List α)
  | [], out => some out
  | i :: is, out => (i.apply segment start out).bind (build segment start is)

/-- No instruction makes nothing. -/
@[simp] theorem build_nil (segment out : List α) (start : Nat) :
    build segment start [] out = some out := rfl

/-- The first instruction is applied first. -/
theorem build_cons (segment out : List α) (start : Nat) (i : Inst α) (is : List (Inst α)) :
    build segment start (i :: is) out = (i.apply segment start out).bind (build segment start is) :=
  rfl

/-- The number of elements that instructions make. -/
def total (is : List (Inst α)) : Nat := (is.map Inst.size).sum

/-- No instruction makes no elements. -/
@[simp] theorem total_nil : total ([] : List (Inst α)) = 0 := rfl

/-- The size of the first counts. -/
@[simp] theorem total_cons (i : Inst α) (is : List (Inst α)) :
    total (i :: is) = i.size + total is := rfl

/-- The sizes of two lists add up. -/
@[simp] theorem total_append (is js : List (Inst α)) : total (is ++ js) = total is + total js := by
  simp [total]

/-- Instructions make as many elements as their sizes add up to. -/
theorem length_of_build {segment out out' : List α} {start : Nat} {is : List (Inst α)}
    (h : build segment start is out = some out') : out'.length = out.length + total is := by
  induction is generalizing out with
  | nil =>
      cases h
      rfl
  | cons i is ih =>
      obtain ⟨mid, hone, hrest⟩ := Option.bind_eq_some_iff.1 h
      rw [ih hrest, Inst.length_of_apply hone, total_cons, Nat.add_assoc]

/-- The instructions describe the target one behind the other. -/
def DescribesFrom (segment : List α) (start : Nat) (target : List α) : Nat → List (Inst α) → Prop
  | _, [] => True
  | pos, i :: is =>
      i.Describes segment start target pos ∧ DescribesFrom segment start target (pos + i.size) is

/-- Instructions that describe the target up to a position, and from there on. -/
theorem DescribesFrom.append {segment target : List α} {start pos : Nat} {is js : List (Inst α)}
    (his : DescribesFrom segment start target pos is)
    (hjs : DescribesFrom segment start target (pos + total is) js) :
    DescribesFrom segment start target pos (is ++ js) := by
  induction is generalizing pos with
  | nil => exact hjs
  | cons i is ih =>
      refine ⟨his.1, ih his.2 ?_⟩
      rwa [Nat.add_assoc]

/-- Instructions that describe the target build it. -/
theorem build_eq_take {segment target : List α} {start pos : Nat} {is : List (Inst α)}
    (h : DescribesFrom segment start target pos is) :
    build segment start is (target.take pos) = some (target.take (pos + total is)) := by
  induction is generalizing pos with
  | nil => rfl
  | cons i is ih => rw [build_cons, h.1.apply, Option.bind_some, ih h.2, total_cons, Nat.add_assoc]

end Copies
