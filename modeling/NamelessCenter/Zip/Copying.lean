import NamelessCenter.Zip.Transfer

/-!
# Copying when calls fail

The loop of `xfilecopy` keeps the result of `read` in a `size_t`. A failed read looks like one of
2^64 - 1 bytes there, and a failed write of as many like a complete one, so that a round in which
both fail goes unnoticed and leaves one byte more to copy. `copies_exactly_iff` says for which
results of the calls the loop copies the given number of bytes or returns 0.
-/

namespace NamelessCenter.Zip

open Bytes Native

/-! ## Rounds -/

/-- The results of the two calls of a round: the bytes that are read, and how many of them are
written. `none` is -1. -/
structure Round where
  read : Option Bytes
  write : Option Nat

namespace Round

variable (r : Round)

/-- The variable `r` of the loop. -/
def size : UInt64 := sizeT (r.read.map List.length)

/-- What the system may return when `wanted` bytes are asked for. A count is a `ssize_t`. -/
structure Fits (wanted : Nat) : Prop where
  read : ∀ data, r.read = some data → data.length ≤ wanted
  write : ∀ n, r.write = some n → n ≤ r.size.toNat ∧ n < 2 ^ 63

/-- A call fails, or the file has ended. -/
def Fails : Prop := r.read = none ∨ r.read = some [] ∨ r.write = none

/-- The read fails and so does the write, of as many bytes. -/
def BothFail : Prop := r.read = none ∧ r.write = none

/-- Some bytes are read, and all of them are written. -/
def Complete : Prop := ∃ data, r.read = some data ∧ data ≠ [] ∧ r.write = some data.length

/-- The loop goes on. -/
def Passes : Prop := r.size ≠ 0 ∧ sizeT r.write = r.size

instance : Decidable r.Passes := inferInstanceAs (Decidable (_ ∧ _))

end Round

/-- How many rounds there have been, and what they have appended to the output. -/
structure Copied where
  rounds : Nat
  output : Bytes
  deriving DecidableEq, Repr

/-- The device that answers each round with its results. -/
def roundsDevice (rounds : Nat → Round) : Device Copied where
  read s _ := ((rounds s.rounds).read, s)
  write s buf _ :=
    let written := (rounds s.rounds).write
    (written, ⟨s.rounds + 1, s.output ++ buf.take (written.getD 0)⟩)
  memory _ := []

section Run

variable (bytes : UInt64) (rounds : Nat → Round)

/-- The loop of `xfilecopy` for at most `fuel` rounds. -/
def copyRounds (fuel : Nat) : Option (Bool × Copied) :=
  xfilecopyLoop (roundsDevice rounds) fuel bytes ⟨0, []⟩

/-- The variable `left` after `n` rounds. -/
def leftAfter : Nat → UInt64
  | 0 => bytes
  | n + 1 => leftAfter n - (rounds n).size

/-- What `n` rounds have appended. -/
def copiedAfter : Nat → Bytes
  | 0 => []
  | n + 1 => copiedAfter n ++ ((rounds n).read.getD []).take ((rounds n).write.getD 0)

/-- The loop gets to its test after `n` rounds. -/
def Reaches (n : Nat) : Prop := ∀ i < n, leftAfter bytes rounds i ≠ 0 ∧ (rounds i).Passes

/-- The loop makes the calls of round `n`. -/
def Executes (n : Nat) : Prop := Reaches bytes rounds n ∧ leftAfter bytes rounds n ≠ 0

/-- Every call returns what it may. -/
def MayReturn : Prop :=
  ∀ n, Executes bytes rounds n → (rounds n).Fits (min (leftAfter bytes rounds n).toNat CHUNK)

/-- The loop returns 1 only if no call has failed and exactly `bytes` bytes that were read have been
appended in their order. A call that fails or meets the end of the file makes it return 0, and reads
that keep failing do not keep it from returning. -/
structure CopiesExactly : Prop where
  success : ∀ fuel s, copyRounds bytes rounds fuel = some (true, s) →
    (∀ i < s.rounds, ¬ (rounds i).Fails) ∧
      s.output = (List.range s.rounds).flatMap (fun i => (rounds i).read.getD []) ∧
      s.output.length = bytes.toNat
  failure : ∀ n, Executes bytes rounds n → (rounds n).Fails →
    ∃ fuel s, copyRounds bytes rounds fuel = some (false, s)
  ends : (∃ n, ∀ i, n ≤ i → (rounds i).read = none) →
    ∃ fuel result, copyRounds bytes rounds fuel = some result

end Run

/-! ## One round -/

section Step

variable {rounds : Nat → Round}

/-- The state after the two calls of a round. -/
def Copied.next (rounds : Nat → Round) (s : Copied) : Copied :=
  ⟨s.rounds + 1,
    s.output ++ ((rounds s.rounds).read.getD []).take ((rounds s.rounds).write.getD 0)⟩

/-- A round of the loop. -/
theorem copy_round (fuel : Nat) {left : UInt64} (hleft : left ≠ 0) (s : Copied) :
    xfilecopyLoop (roundsDevice rounds) (fuel + 1) left s =
      if (rounds s.rounds).size = 0 then some (false, s)
      else if sizeT (rounds s.rounds).write = (rounds s.rounds).size then
        xfilecopyLoop (roundsDevice rounds) fuel (left - (rounds s.rounds).size) (s.next rounds)
      else some (false, s.next rounds) := by
  rw [xfilecopyLoop, if_neg hleft]
  rfl

/-- A round that passes goes on with the next. -/
theorem copy_round_passes (fuel : Nat) {left : UInt64} (hleft : left ≠ 0) {s : Copied}
    (h : (rounds s.rounds).Passes) :
    xfilecopyLoop (roundsDevice rounds) (fuel + 1) left s =
      xfilecopyLoop (roundsDevice rounds) fuel (left - (rounds s.rounds).size) (s.next rounds) := by
  rw [copy_round fuel hleft, if_neg h.1, if_pos h.2]

/-- One that does not ends the loop with 0. -/
theorem copy_round_stops (fuel : Nat) {left : UInt64} (hleft : left ≠ 0) {s : Copied}
    (h : ¬ (rounds s.rounds).Passes) :
    ∃ s', xfilecopyLoop (roundsDevice rounds) (fuel + 1) left s = some (false, s') := by
  rw [copy_round fuel hleft]
  by_cases hzero : (rounds s.rounds).size = 0
  · exact ⟨s, if_pos hzero⟩
  · exact ⟨s.next rounds, by rw [if_neg hzero, if_neg fun hwritten => h ⟨hzero, hwritten⟩]⟩

/-- A round in which both fail passes. -/
theorem Round.BothFail.passes {r : Round} (h : r.BothFail) : r.Passes := by
  rw [Round.Passes, Round.size, h.1, h.2]
  decide

/-- The value -1 is the largest one. -/
theorem to_nat_size_t_none : (sizeT none).toNat = 2 ^ 64 - 1 := rfl

/-- The rounds that go on are those in which nothing fails, and those in which everything does. -/
theorem Round.Fits.passes_iff {r : Round} {wanted : Nat} (h : r.Fits wanted)
    (hwanted : wanted ≤ CHUNK) : r.Passes ↔ r.Complete ∨ r.BothFail := by
  unfold Round.Passes Round.Complete Round.BothFail
  have hchunk : CHUNK < 2 ^ 63 := by decide
  rw [ne_eq, ← UInt64.toNat_inj, ← UInt64.toNat_inj, UInt64.toNat_zero]
  cases hread : r.read with
  | none =>
      have hsize : r.size.toNat = 2 ^ 64 - 1 := by rw [Round.size, hread]; rfl
      rw [hsize]
      cases hwrite : r.write with
      | none => exact iff_of_true ⟨by decide, rfl⟩ (.inr ⟨rfl, rfl⟩)
      | some n =>
          have hn := (h.write n hwrite).2
          rw [to_nat_size_t_some (by omega)]
          refine iff_of_false (by omega) ?_
          rintro (⟨data, hdata, -⟩ | ⟨-, hwritten⟩)
          · cases hdata
          · cases hwritten
  | some data =>
      have hlength := h.read data hread
      have hsize : r.size.toNat = data.length := by
        rw [Round.size, hread, Option.map_some, to_nat_size_t_some (by omega)]
      have hcomplete : (∃ data', some data = some data' ∧ data' ≠ [] ∧
          r.write = some data'.length) ↔ data ≠ [] ∧ r.write = some data.length := by
        simp
      rw [hsize, hcomplete, List.length_eq_zero_iff]
      cases hwrite : r.write with
      | none =>
          rw [to_nat_size_t_none]
          simp only [reduceCtorEq, and_false, false_and, or_false, iff_false]
          omega
      | some n =>
          have hn := (h.write n hwrite).2
          rw [to_nat_size_t_some (by omega)]
          simp

end Step

/-! ## Runs -/

section Runs

variable {bytes : UInt64} {rounds : Nat → Round}

/-- The loop reaches its first round. -/
theorem reaches_zero : Reaches bytes rounds 0 := fun i hi => absurd hi (Nat.not_lt_zero i)

/-- A round that passes leads to the next. -/
theorem Executes.reaches_succ {n : Nat} (h : Executes bytes rounds n)
    (hpasses : (rounds n).Passes) : Reaches bytes rounds (n + 1) := by
  intro i hi
  rcases Nat.lt_succ_iff_lt_or_eq.1 hi with hlt | rfl
  · exact h.1 i hlt
  · exact ⟨h.2, hpasses⟩

/-- The rounds before it are executed. -/
theorem Reaches.executes {n i : Nat} (h : Reaches bytes rounds n) (hi : i < n) :
    Executes bytes rounds i :=
  ⟨fun j hj => h j (hj.trans hi), (h i hi).1⟩

/-- The rounds that the loop gets through. -/
theorem copy_rounds_add {n : Nat} (h : Reaches bytes rounds n) (fuel : Nat) :
    copyRounds bytes rounds (fuel + n) =
      xfilecopyLoop (roundsDevice rounds) fuel (leftAfter bytes rounds n)
        ⟨n, copiedAfter rounds n⟩ := by
  induction n generalizing fuel with
  | zero => rfl
  | succ n ih =>
      have hlast := h n n.lt_succ_self
      rw [← Nat.add_assoc, Nat.add_right_comm, ih (h.executes n.lt_succ_self).1,
        copy_round_passes fuel hlast.1 (s := ⟨n, copiedAfter rounds n⟩) hlast.2]
      rfl

/-- The loop returns 1 when there is nothing left. -/
theorem copy_rounds_returns1 {n : Nat} (h : Reaches bytes rounds n)
    (hleft : leftAfter bytes rounds n = 0) :
    copyRounds bytes rounds (1 + n) = some (true, ⟨n, copiedAfter rounds n⟩) := by
  rw [copy_rounds_add h, xfilecopyLoop, if_pos hleft]

/-- The loop returns 0 in a round that does not go on. -/
theorem copy_rounds_returns0 {n : Nat} (h : Executes bytes rounds n)
    (hstops : ¬ (rounds n).Passes) :
    ∃ s, copyRounds bytes rounds (1 + n) = some (false, s) := by
  rw [copy_rounds_add h.1]
  exact copy_round_stops 0 h.2 hstops

/-- There is no other way for the loop to return. -/
theorem returned_cases {n fuel : Nat} (h : Reaches bytes rounds n) {result : Bool × Copied}
    (hrun : xfilecopyLoop (roundsDevice rounds) fuel (leftAfter bytes rounds n)
      ⟨n, copiedAfter rounds n⟩ = some result) :
    (∃ m, Reaches bytes rounds m ∧ leftAfter bytes rounds m = 0 ∧
        result = (true, ⟨m, copiedAfter rounds m⟩)) ∨
      ∃ m, Executes bytes rounds m ∧ ¬ (rounds m).Passes ∧ result.1 = false := by
  induction fuel generalizing n with
  | zero => cases hrun
  | succ fuel ih =>
      by_cases hleft : leftAfter bytes rounds n = 0
      · rw [xfilecopyLoop, if_pos hleft] at hrun
        cases hrun
        exact .inl ⟨n, h, hleft, rfl⟩
      by_cases hpasses : (rounds n).Passes
      · rw [copy_round_passes fuel hleft (s := ⟨n, copiedAfter rounds n⟩) hpasses] at hrun
        exact ih (Executes.reaches_succ ⟨h, hleft⟩ hpasses) hrun
      · obtain ⟨s, hstop⟩ := copy_round_stops fuel hleft (s := ⟨n, copiedAfter rounds n⟩) hpasses
        rw [hstop] at hrun
        cases hrun
        exact .inr ⟨n, ⟨h, hleft⟩, hpasses, rfl⟩

/-- A round that does not go on is the last one, so that the loop does not return 1. -/
theorem not_returns1_of_stops {n : Nat} (h : Executes bytes rounds n)
    (hstops : ¬ (rounds n).Passes) (fuel : Nat) (s : Copied) :
    copyRounds bytes rounds fuel ≠ some (true, s) := by
  intro hrun
  rcases returned_cases reaches_zero hrun with ⟨m, hm, hzero, -⟩ | ⟨m, -, -, hresult⟩
  · have hle : m ≤ n := by
      by_contra hlt
      exact hstops (hm n (by omega)).2
    rcases hle.lt_or_eq with hlt | rfl
    · exact (h.1 m hlt).1 hzero
    · exact h.2 hzero
  · cases hresult

/-! ## What is copied -/

/-- If nothing fails, the bytes that are read are appended, and counted. -/
theorem copied_of_complete {n : Nat} (hos : MayReturn bytes rounds) (h : Reaches bytes rounds n)
    (hcomplete : ∀ i < n, (rounds i).Complete) :
    copiedAfter rounds n = (List.range n).flatMap (fun i => (rounds i).read.getD []) ∧
      (copiedAfter rounds n).length + (leftAfter bytes rounds n).toNat = bytes.toNat := by
  induction n with
  | zero => exact ⟨rfl, Nat.zero_add _⟩
  | succ n ih =>
      have hlast : Executes bytes rounds n := h.executes n.lt_succ_self
      obtain ⟨houtput, hcount⟩ := ih hlast.1 fun i hi => hcomplete i (Nat.lt_succ_of_lt hi)
      obtain ⟨data, hread, -, hwrite⟩ := hcomplete n n.lt_succ_self
      have hlength := (hos n hlast).read data hread
      have hsize : (rounds n).size = UInt64.ofNat data.length := by
        rw [Round.size, hread]
        rfl
      have happended : ((rounds n).read.getD []).take ((rounds n).write.getD 0) = data := by
        rw [hread, hwrite, Option.getD_some, Option.getD_some, List.take_length]
      have hleft : (leftAfter bytes rounds n - (rounds n).size).toNat =
          (leftAfter bytes rounds n).toNat - data.length := by
        rw [hsize, to_nat_sub_of_nat (by omega)]
      refine ⟨?_, ?_⟩
      · rw [copiedAfter, happended, houtput, List.range_succ, List.flatMap_append,
          List.flatMap_singleton, hread, Option.getD_some]
      · rw [copiedAfter, leftAfter, happended, hleft, List.length_append]
        omega

/-- Rounds in which the read fails and which go on add one to what is left. -/
theorem left_after_add {n : Nat} (hread : ∀ i, n ≤ i → (rounds i).read = none) (k : Nat) :
    leftAfter bytes rounds (n + k) = leftAfter bytes rounds n + UInt64.ofNat k := by
  induction k with
  | zero => simp
  | succ k ih =>
      have hsize : (rounds (n + k)).size = sizeT none := by
        rw [Round.size, hread (n + k) (by omega), Option.map_none]
      rw [← Nat.add_assoc, leftAfter, ih, hsize]
      refine UInt64.toNat_inj.1 ?_
      rw [UInt64.toNat_sub, to_nat_size_t_none]
      simp only [UInt64.toNat_add, UInt64.toNat_ofNat']
      omega

/-- A read that keeps failing does not keep the loop from returning. -/
theorem returns_of_reads_fail {n : Nat} (hread : ∀ i, n ≤ i → (rounds i).read = none) :
    ∃ fuel result, copyRounds bytes rounds fuel = some result := by
  by_contra hruns
  rw [not_exists] at hruns
  have hreach : ∀ m, Reaches bytes rounds m := by
    intro m
    induction m with
    | zero => exact reaches_zero
    | succ m ih =>
        have hleft : leftAfter bytes rounds m ≠ 0 := fun hzero =>
          hruns _ ⟨_, copy_rounds_returns1 ih hzero⟩
        have hpasses : (rounds m).Passes := by
          by_contra hstops
          obtain ⟨s, hrun⟩ := copy_rounds_returns0 ⟨ih, hleft⟩ hstops
          exact hruns _ ⟨_, hrun⟩
        exact Executes.reaches_succ ⟨ih, hleft⟩ hpasses
  -- the count comes to zero in the end, by overflow
  have hzero : leftAfter bytes rounds (n + (2 ^ 64 - (leftAfter bytes rounds n).toNat)) = 0 := by
    rw [left_after_add hread]
    refine UInt64.toNat_inj.1 ?_
    have hbound := (leftAfter bytes rounds n).toNat_lt
    rw [UInt64.toNat_add, UInt64.toNat_ofNat', UInt64.toNat_zero]
    omega
  exact hruns _ ⟨_, copy_rounds_returns1 (hreach _) hzero⟩

end Runs

section Exactly

variable {bytes : UInt64} {rounds : Nat → Round}

/-- A complete round does not fail. -/
theorem Round.Complete.not_fails {r : Round} (h : r.Complete) : ¬ r.Fails := by
  obtain ⟨data, hread, hne, hwrite⟩ := h
  rintro (hnone | hnil | hnone)
  · rw [hread] at hnone
    cases hnone
  · rw [hread, Option.some.injEq] at hnil
    exact hne hnil
  · rw [hwrite] at hnone
    cases hnone

/-- A round passes exactly if it is complete or both calls fail. -/
theorem passes_iff (hos : MayReturn bytes rounds) {n : Nat} (h : Executes bytes rounds n) :
    (rounds n).Passes ↔ (rounds n).Complete ∨ (rounds n).BothFail :=
  (hos n h).passes_iff (Nat.min_le_right _ _)

/-- Where no round fails as a whole, the loop notices every failure. -/
theorem copies_exactly_of_not_both_fail (hos : MayReturn bytes rounds)
    (h : ∀ n, Executes bytes rounds n → ¬ (rounds n).BothFail) : CopiesExactly bytes rounds where
  success fuel s hrun := by
    rcases returned_cases reaches_zero hrun with ⟨m, hm, hzero, hresult⟩ | ⟨m, -, -, hresult⟩
    · cases hresult
      have hcomplete : ∀ i < m, (rounds i).Complete := by
        intro i hi
        have hexecutes := hm.executes hi
        rcases (passes_iff hos hexecutes).1 (hm i hi).2 with hcomplete | hboth
        · exact hcomplete
        · exact absurd hboth (h i hexecutes)
      obtain ⟨houtput, hcount⟩ := copied_of_complete hos hm hcomplete
      rw [hzero, UInt64.toNat_zero, Nat.add_zero] at hcount
      exact ⟨fun i hi => (hcomplete i hi).not_fails, houtput, hcount⟩
    · cases hresult
  failure n hn hfails := by
    have hstops : ¬ (rounds n).Passes := by
      rw [passes_iff hos hn, not_or]
      exact ⟨fun hcomplete => hcomplete.not_fails hfails, h n hn⟩
    exact ⟨_, copy_rounds_returns0 hn hstops⟩
  ends := fun ⟨_, hread⟩ => returns_of_reads_fail hread

/-- A round that ends the loop with 0 makes up for the failures before it. -/
theorem copies_exactly_of_stops {n : Nat} (hn : Executes bytes rounds n)
    (hstops : ¬ (rounds n).Passes) : CopiesExactly bytes rounds where
  success fuel s hrun := absurd hrun (not_returns1_of_stops hn hstops fuel s)
  failure _ _ _ := ⟨_, copy_rounds_returns0 hn hstops⟩
  ends _ := by
    obtain ⟨s, hrun⟩ := copy_rounds_returns0 hn hstops
    exact ⟨_, _, hrun⟩

end Exactly

/-- If all calls fail, the loop returns 1 in the end. -/
theorem returns1_of_all_fail (bytes : UInt64) {rounds : Nat → Round}
    (h : ∀ n, (rounds n).BothFail) :
    ∃ fuel n, copyRounds bytes rounds fuel = some (true, ⟨n, []⟩) := by
  obtain ⟨fuel, result, hrun⟩ : ∃ fuel result, copyRounds bytes rounds fuel = some result :=
    returns_of_reads_fail (n := 0) fun i _ => (h i).1
  rcases returned_cases reaches_zero hrun with ⟨n, -, -, rfl⟩ | ⟨n, -, hstops, -⟩
  · have hnothing : ∀ m, copiedAfter rounds m = [] := by
      intro m
      induction m with
      | zero => rfl
      | succ m ih =>
          simp only [copiedAfter, ih, (h m).1, Option.getD_none, List.take_nil, List.append_nil]
    exact ⟨fuel, n, by rw [hrun, hnothing]⟩
  · exact absurd (h n).passes hstops

/-- For every byte count and all results of the calls: the loop copies exactly, or returns 0, if and
only if there is no round in which the read and the write both fail, or there is one that ends the
loop with 0, as the file ends in it, or only one of the calls fails, or the write falls short. -/
theorem copies_exactly_iff (bytes : UInt64) (rounds : Nat → Round) (hos : MayReturn bytes rounds) :
    CopiesExactly bytes rounds ↔
      (∀ n, Executes bytes rounds n → ¬ (rounds n).BothFail) ∨
        ∃ n, Executes bytes rounds n ∧ ¬ (rounds n).Complete ∧ ¬ (rounds n).BothFail := by
  constructor
  · intro h
    by_cases hboth : ∃ n, Executes bytes rounds n ∧ (rounds n).BothFail
    · obtain ⟨n, hn, hfails⟩ := hboth
      obtain ⟨fuel, s, hrun⟩ := h.failure n hn (.inl hfails.1)
      rcases returned_cases reaches_zero hrun with ⟨m, -, -, hresult⟩ | ⟨m, hm, hstops, -⟩
      · cases hresult
      · rw [passes_iff hos hm, not_or] at hstops
        exact .inr ⟨m, hm, hstops⟩
    · exact .inl fun n hn hfails => hboth ⟨n, hn, hfails⟩
  · rintro (hnone | ⟨n, hn, hstops⟩)
    · exact copies_exactly_of_not_both_fail hos hnone
    · rw [← not_or, ← passes_iff hos hn] at hstops
      exact copies_exactly_of_stops hn hstops

/-- A round that reads and writes `data`. -/
def moves (data : Bytes) : Round := ⟨some data, some data.length⟩

/-- A round that moves its bytes is complete. -/
theorem fits_moves {data : Bytes} {wanted : Nat} (h : data.length ≤ wanted)
    (hwanted : wanted ≤ CHUNK) : (moves data).Fits wanted := by
  have hchunk : CHUNK < 2 ^ 63 := by decide
  refine ⟨fun data' hread => ?_, fun n hwrite => ?_⟩
  · cases hread
    exact h
  · cases hwrite
    have hsize : (moves data).size.toNat = data.length := to_nat_size_t_some (by omega)
    rw [hsize]
    omega

/-- Three bytes, in two rounds. -/
def twoRounds : Nat → Round
  | 0 => moves [1, 2]
  | _ => moves [3]

/-- Three bytes in two rounds. -/
theorem copies_exactly_three : CopiesExactly 3 twoRounds := by
  refine (copies_exactly_iff 3 twoRounds fun n hn => ?_).2 (.inl fun n _ hboth => ?_)
  · have hleft : 0 < (leftAfter 3 twoRounds n).toNat :=
      Nat.pos_of_ne_zero fun hzero => hn.2 (UInt64.toNat_inj.1 hzero)
    cases n with
    | zero => exact fits_moves (by decide) (by decide)
    | succ n => exact fits_moves (Nat.le_min.2 ⟨hleft, by decide⟩) (Nat.min_le_right _ _)
  · cases n with
    | zero => cases hboth.1
    | succ n => cases hboth.1

/-- The first round fails, and the second one reads as much as the loop asks for then. -/
def failedOnce : Nat → Round
  | 0 => ⟨none, none⟩
  | _ => moves [1, 2]

/-- The loop returns 1 when it has copied two bytes instead of one. -/
theorem failed_round_unnoticed :
    MayReturn 1 failedOnce ∧ copyRounds 1 failedOnce 3 = some (true, ⟨2, [1, 2]⟩) ∧
      ¬ CopiesExactly 1 failedOnce := by
  have hrun : copyRounds 1 failedOnce 3 = some (true, ⟨2, [1, 2]⟩) := by decide
  have hzero : leftAfter 1 failedOnce 2 = 0 := by decide
  refine ⟨fun n hn => ?_, hrun, fun h => ?_⟩
  · rcases n with _ | _ | _ | n
    · exact ⟨nofun, nofun⟩
    · exact fits_moves (by decide) (by decide)
    · exact absurd hzero hn.2
    · exact absurd hzero (hn.1 2 (by omega)).1
  · exact (h.success 3 _ hrun).1 0 (by decide) (.inl rfl)

end NamelessCenter.Zip
