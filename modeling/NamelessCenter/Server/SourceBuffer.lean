import NamelessCenter.Lib.Bits
import NamelessCenter.Server.MinSignMain
import NamelessCenter.Server.OpenDelta

/-!
# The source buffers of the delta script

`opendelta.sh` runs xdelta3 twice. The size of the source buffer is the power of two that
`nextPowerOf2` finds for the size of a file. That file is the target of the run, not its source, so
`source_buffer_covers_iff` says for which files the buffer covers the source. What xdelta3 accepts
as the size of its buffer is in `option_srcwinsz_is_some_iff`.
-/

namespace NamelessCenter.Server

open Bytes

/-! ## The power of two -/

/-- `nextPowerOf2`, in the 64-bit arithmetic of bash. -/
def nextPowerOf2 (n : Int64) : Int64 :=
  let v := n - 1
  let v := v ||| v >>> 1
  let v := v ||| v >>> 2
  let v := v ||| v >>> 4
  let v := v ||| v >>> 8
  let v := v ||| v >>> 16
  v + 1

/-- The bits of `v` have been spread over `w` positions of a number of 32 bits. -/
def Filled (v w : Nat) (x : Int64) : Prop :=
  ∃ m < 2 ^ 32, x = Int64.ofNat m ∧ Bits.Fills v w m

/-- A number below 2 ^ 63 has no sign bit. -/
theorem msb_of_nat {m : Nat} (hm : m < 2 ^ 63) : (BitVec.ofNat 64 m).msb = false := by
  rw [BitVec.msb_eq_false_iff_two_mul_lt, BitVec.toNat_ofNat]
  omega

/-- The arithmetic shift of a number that is not negative. -/
theorem of_nat_shift_right {m s : Nat} (hm : m < 2 ^ 63) (hs : s < 64) :
    Int64.ofNat m >>> Int64.ofNat s = Int64.ofNat (m >>> s) := by
  have hamount : ((BitVec.ofNat 64 s).smod 64).toNat = s := by
    have hwidth : (64 : BitVec 64).msb = false := by decide
    rw [BitVec.toNat_smod, msb_of_nat (by omega), hwidth]
    simp only
    rw [BitVec.umod_eq, BitVec.toNat_umod, BitVec.toNat_ofNat,
      Nat.mod_eq_of_lt (show s < 2 ^ 64 by omega)]
    exact Nat.mod_eq_of_lt hs
  rw [← Int64.toBitVec_inj, Int64.toBitVec_shiftRight, BitVec.sshiftRight_eq',
    Int64.toBitVec_ofNat', Int64.toBitVec_ofNat', Int64.toBitVec_ofNat', hamount,
    BitVec.sshiftRight_eq_of_msb_false (msb_of_nat hm)]
  refine BitVec.eq_of_toNat_eq ?_
  rw [BitVec.toNat_ushiftRight, BitVec.toNat_ofNat, BitVec.toNat_ofNat,
    Nat.mod_eq_of_lt (show m < 2 ^ 64 by omega),
    Nat.mod_eq_of_lt ((Nat.shiftRight_le m s).trans_lt (show m < 2 ^ 64 by omega))]

/-- The bits of numbers are those of their 64-bit values. -/
theorem of_nat_or (m k : Nat) : Int64.ofNat m ||| Int64.ofNat k = Int64.ofNat (m ||| k) := by
  rw [← Int64.toBitVec_inj, Int64.toBitVec_or, Int64.toBitVec_ofNat', Int64.toBitVec_ofNat',
    Int64.toBitVec_ofNat', BitVec.ofNat_or]

/-- One step of the function. -/
theorem Filled.or_shift_right {v w : Nat} {x : Int64} (h : Filled v w x) {s : Nat} (hs : s ≤ w)
    (hlt : s < 64) : Filled v (w + s) (x ||| x >>> Int64.ofNat s) := by
  obtain ⟨m, hm, rfl, hfills⟩ := h
  refine ⟨m ||| m >>> s, ?_, ?_, hfills.or_shift_right hs⟩
  · exact Nat.or_lt_two_pow hm ((Nat.shiftRight_le m s).trans_lt hm)
  · rw [of_nat_shift_right (by omega) hlt, of_nat_or]

/-- The five steps fill a number of 32 bits. -/
theorem next_power_of2_eq {n : Nat} (hn : 1 ≤ n) (hle : n ≤ 2 ^ 32) :
    nextPowerOf2 (Int64.ofNat n) = Int64.ofNat (2 ^ Nat.clog 2 n) := by
  have hone : Filled (n - 1) 1 (Int64.ofNat n - 1) :=
    ⟨n - 1, by omega, (Int64.ofNat_sub n 1 hn).symm, Bits.fills_self (n - 1)⟩
  have htwo := hone.or_shift_right (s := 1) le_rfl (by decide)
  have hfour := htwo.or_shift_right (s := 2) le_rfl (by decide)
  have height := hfour.or_shift_right (s := 4) le_rfl (by decide)
  have hsixteen := height.or_shift_right (s := 8) le_rfl (by decide)
  obtain ⟨m, -, hm, hfills⟩ := hsixteen.or_shift_right (s := 16) le_rfl (by decide)
  have hpower := hfills.add_one (by omega)
  rw [Nat.sub_add_cancel hn] at hpower
  calc nextPowerOf2 (Int64.ofNat n) = Int64.ofNat m + 1 := congrArg (· + 1) hm
    _ = Int64.ofNat (m + 1) := (Int64.ofNat_add m 1).symm
    _ = Int64.ofNat (2 ^ Nat.clog 2 n) := by rw [hpower]

/-- As a signed number, it is that power of two. -/
theorem to_int_next_power_of2 {n : Nat} (hn : 1 ≤ n) (hle : n ≤ 2 ^ 32) :
    (nextPowerOf2 (Int64.ofNat n)).toInt = ((2 ^ Nat.clog 2 n : Nat) : Int) := by
  have hclog : Nat.clog 2 n ≤ 32 := Nat.clog_le_of_le_pow hle
  have hpower : 2 ^ Nat.clog 2 n ≤ 2 ^ 32 := Nat.pow_le_pow_right Nat.two_pos hclog
  rw [next_power_of2_eq hn hle, Int64.toInt_ofNat_of_lt (by omega)]

/-! ## The runs of xdelta3 -/

/-- The arguments of `$BIN_XDELTA -B srcBuff -9evfS none -s source target`. -/
structure XdeltaRun where
  srcBuff : Int64
  source : String
  target : String

/-- `$(nextPowerOf2 $(getFileSize file))`, where an empty argument counts as zero. -/
def srcBuff (file : Option Bytes) : Int64 :=
  nextPowerOf2 (match file with
    | none => 0
    | some content => Int64.ofNat content.length)

/-- The two runs of the script, for the files in `work`. -/
def xdeltaRuns (work : Directory) : List XdeltaRun :=
  [⟨srcBuff (work.find "current.zip"), "last.zip", "current.zip"⟩,
    ⟨srcBuff (work.find "current_signed.zip"), "current.zip", "current_signed.zip"⟩]

namespace XdeltaRun

variable (run : XdeltaRun) (work : Directory)

/-- The target is there, and no larger than an archive of zipadjust can be. -/
def InRange : Prop :=
  ∃ target, work.find run.target = some target ∧ 1 ≤ target.length ∧ target.length ≤ 2 ^ 32

/-- The source buffer is as large as the source. -/
def CoversSource : Prop :=
  ∀ source, work.find run.source = some source → (source.length : Int) ≤ run.srcBuff.toInt

/-- No power of two is as large as the target but smaller than the source. -/
def NoPowerBetween : Prop :=
  ∀ source, work.find run.source = some source → ∀ target, work.find run.target = some target →
    ∀ k, target.length ≤ 2 ^ k → source.length ≤ 2 ^ k

end XdeltaRun

/-- A source that is no larger than its target leaves no power in between. -/
theorem XdeltaRun.no_power_between_of_le {run : XdeltaRun} {work : Directory}
    {source target : Bytes} (hsource : work.find run.source = some source)
    (htarget : work.find run.target = some target) (hle : source.length ≤ target.length) :
    run.NoPowerBetween work := by
  intro source' hsource' target' htarget' k hk
  rw [hsource] at hsource'
  rw [htarget] at htarget'
  cases hsource'
  cases htarget'
  exact hle.trans hk

/-- There are two runs. -/
theorem forall_mem_xdelta_runs {work : Directory} {P : XdeltaRun → Prop} :
    (∀ run ∈ xdeltaRuns work, P run) ↔
      P ⟨srcBuff (work.find "current.zip"), "last.zip", "current.zip"⟩ ∧
        P ⟨srcBuff (work.find "current_signed.zip"), "current.zip", "current_signed.zip"⟩ := by
  rw [xdeltaRuns, List.forall_mem_cons, List.forall_mem_singleton]

/-- Both runs take the size of their target. -/
theorem src_buff_of_mem {work : Directory} {run : XdeltaRun} (h : run ∈ xdeltaRuns work) :
    run.srcBuff = srcBuff (work.find run.target) := by
  have hboth : ∀ run ∈ xdeltaRuns work, run.srcBuff = srcBuff (work.find run.target) := by
    rw [forall_mem_xdelta_runs]
    exact ⟨rfl, rfl⟩
  exact hboth run h

/-- A run gets the power of two for its target. -/
theorem to_int_src_buff {work : Directory} {run : XdeltaRun} (h : run ∈ xdeltaRuns work)
    {target : Bytes} (htarget : work.find run.target = some target) (hpos : 1 ≤ target.length)
    (hle : target.length ≤ 2 ^ 32) :
    run.srcBuff.toInt = ((2 ^ Nat.clog 2 target.length : Nat) : Int) := by
  rw [src_buff_of_mem h, htarget, srcBuff, to_int_next_power_of2 hpos hle]

/-! ## The option -/

/-- The unit of the allocations of xdelta3. -/
def XD3_ALLOCSIZE : Nat := 1 <<< 14

/-- The number of its source blocks. -/
def MAX_LRU_SIZE : Nat := 32

/-- The smallest value of `-B`. -/
def XD3_MINSRCWINSZ : Nat := XD3_ALLOCSIZE * MAX_LRU_SIZE

/-- The largest value of `-B`. -/
def XD3_MAXSRCWINSZ : Nat := 1 <<< 31

/-- `main_atoux` of xdelta3, for the text of an integer. -/
def mainAtoux (x : Int) (low high : Nat) : Option Nat :=
  if x < 0 then none
  else if x < low then none
  else if high ≠ 0 ∧ high < x then none
  else some x.toNat

/-- `option_srcwinsz`, if the value of `-B` is taken. -/
def optionSrcwinsz (run : XdeltaRun) : Option Nat :=
  mainAtoux run.srcBuff.toInt XD3_MINSRCWINSZ XD3_MAXSRCWINSZ

/-- A number is taken exactly if it is in the range. -/
theorem main_atoux_is_some_iff {x low high : Nat} :
    (mainAtoux x low high).isSome ↔ low ≤ x ∧ (high = 0 ∨ x ≤ high) := by
  unfold mainAtoux
  rw [if_neg (by omega)]
  split
  · exact iff_of_false Bool.false_ne_true (by omega)
  · split
    · exact iff_of_false Bool.false_ne_true (by omega)
    · exact iff_of_true rfl (by omega)

/-- xdelta3 does not run at all for targets up to 256 KiB, and for those above 2 GiB. -/
theorem option_srcwinsz_is_some_iff {work : Directory} {run : XdeltaRun}
    (h : run ∈ xdeltaRuns work) {target : Bytes} (htarget : work.find run.target = some target)
    (hpos : 1 ≤ target.length) (hle : target.length ≤ 2 ^ 32) :
    (optionSrcwinsz run).isSome ↔ 2 ^ 18 < target.length ∧ target.length ≤ 2 ^ 31 := by
  have hlow : 2 ^ 19 ≤ 2 ^ Nat.clog 2 target.length ↔ 2 ^ 18 < target.length := by
    rw [Nat.pow_le_pow_iff_right Nat.one_lt_two, ← Nat.lt_clog_iff_pow_lt Nat.one_lt_two,
      Nat.lt_iff_add_one_le]
  have hhigh : 2 ^ Nat.clog 2 target.length ≤ 2 ^ 31 ↔ target.length ≤ 2 ^ 31 := by
    rw [Nat.pow_le_pow_iff_right Nat.one_lt_two, Nat.clog_le_iff_le_pow Nat.one_lt_two]
  have hmin : XD3_MINSRCWINSZ = 2 ^ 19 := rfl
  have hmax : XD3_MAXSRCWINSZ = 2 ^ 31 := rfl
  rw [optionSrcwinsz, to_int_src_buff h htarget hpos hle, main_atoux_is_some_iff, hmin, hmax, hlow,
    hhigh]
  simp

/-! ## The covering -/

/-- A source buffer as large as the target is large enough if no power of two comes between. -/
theorem covers_source_iff {work : Directory} {run : XdeltaRun} (h : run ∈ xdeltaRuns work)
    (hrange : run.InRange work) : run.CoversSource work ↔ run.NoPowerBetween work := by
  obtain ⟨target, htarget, hpos, hle⟩ := hrange
  unfold XdeltaRun.CoversSource XdeltaRun.NoPowerBetween
  rw [to_int_src_buff h htarget hpos hle, htarget]
  simp only [Option.some.injEq, forall_eq', Nat.cast_le, Bits.le_two_pow_clog_iff]

/-- The signature is computed from a source that is no longer than its signed copy. -/
theorem signature_run_covers {work : Directory} {current signed : Bytes}
    {writeSignatureBlock : Bytes → Option Bytes}
    (hcurrent : work.find "current.zip" = some current)
    (hsigned : work.find "current_signed.zip" = some signed)
    (hsign : signWholeOutputFile writeSignatureBlock current = .ok signed) :
    XdeltaRun.NoPowerBetween ⟨srcBuff (work.find "current_signed.zip"), "current.zip",
      "current_signed.zip"⟩ work := by
  obtain ⟨-, -, hlonger, -⟩ := sign_output hsign
  exact XdeltaRun.no_power_between_of_le hcurrent hsigned (by omega)

/-- For every size up to 4 GiB, `nextPowerOf2` is the power of two that is not below the size but
below twice the size. The source buffers of both runs cover their sources if and only if no power
of two comes between the size of a run's target, which the buffer is computed from, and the larger
size of its source. -/
theorem source_buffer_covers_iff (work : Directory)
    (hrange : ∀ run ∈ xdeltaRuns work, run.InRange work) :
    (∀ n : Nat, 1 ≤ n → n ≤ 2 ^ 32 →
      ∃ k : Nat, (nextPowerOf2 (Int64.ofNat n)).toInt = 2 ^ k ∧ n ≤ 2 ^ k ∧ 2 ^ k < 2 * n) ∧
    ((∀ run ∈ xdeltaRuns work, run.CoversSource work) ↔
      ∀ run ∈ xdeltaRuns work, run.NoPowerBetween work) := by
  refine ⟨fun n hn hle => ?_, ?_⟩
  · have hpower := to_int_next_power_of2 hn hle
    push_cast at hpower
    exact ⟨Nat.clog 2 n, hpower, Nat.le_pow_clog Nat.one_lt_two n, Bits.two_pow_clog_lt hn⟩
  · exact forall₂_congr fun run hrun => covers_source_iff hrun (hrange run hrun)

/-- Archives of the given sizes. -/
def workOfSizes (last current signed : Nat) : Directory :=
  [("current.zip", List.replicate current 0), ("last.zip", List.replicate last 0),
    ("current_signed.zip", List.replicate signed 0)]

/-- Both targets are in the range of the script, and xdelta3 takes both buffers. -/
theorem runs_of_sizes {last current signed : Nat} (hcurrent : 2 ^ 18 < current ∧ current ≤ 2 ^ 31)
    (hsigned : 2 ^ 18 < signed ∧ signed ≤ 2 ^ 31) :
    ∀ run ∈ xdeltaRuns (workOfSizes last current signed),
      run.InRange (workOfSizes last current signed) ∧ (optionSrcwinsz run).isSome := by
  have haccepted : ∀ run ∈ xdeltaRuns (workOfSizes last current signed), ∀ size,
      2 ^ 18 < size ∧ size ≤ 2 ^ 31 →
        (workOfSizes last current signed).find run.target = some (List.replicate size 0) →
          run.InRange (workOfSizes last current signed) ∧ (optionSrcwinsz run).isSome := by
    intro run hrun size hsize htarget
    have hlength : (List.replicate size (0 : UInt8)).length = size := List.length_replicate
    refine ⟨⟨_, htarget, by omega, by omega⟩, ?_⟩
    exact (option_srcwinsz_is_some_iff hrun htarget (by omega) (by omega)).2 (by rwa [hlength])
  intro run hrun
  refine (forall_mem_xdelta_runs (P := fun run => run ∈ xdeltaRuns _ →
    run.InRange _ ∧ (optionSrcwinsz run).isSome)).2 ⟨fun h => ?_, fun h => ?_⟩ run hrun hrun
  · exact haccepted _ h current hcurrent rfl
  · exact haccepted _ h signed hsigned rfl

/-- A build that grows from 512 KiB to 514 KiB, and its signed copy. -/
theorem source_buffer_covers_grown :
    (∃ k : Nat, (nextPowerOf2 (Int64.ofNat 526336)).toInt = 2 ^ k ∧ 526336 ≤ 2 ^ k ∧
      2 ^ k < 1052672) ∧
    ∀ run ∈ xdeltaRuns (workOfSizes 524288 526336 528098),
      run.CoversSource (workOfSizes 524288 526336 528098) ∧ (optionSrcwinsz run).isSome := by
  have hruns : ∀ run ∈ xdeltaRuns (workOfSizes 524288 526336 528098),
      run.InRange (workOfSizes 524288 526336 528098) ∧ (optionSrcwinsz run).isSome :=
    runs_of_sizes (by decide) (by decide)
  obtain ⟨hpower, hcovers⟩ := source_buffer_covers_iff (workOfSizes 524288 526336 528098)
    fun run hrun => (hruns run hrun).1
  refine ⟨hpower 526336 (by decide) (by decide), fun run hrun => ⟨?_, (hruns run hrun).2⟩⟩
  refine hcovers.2 (forall_mem_xdelta_runs.2 ⟨?_, ?_⟩) run hrun
  · exact XdeltaRun.no_power_between_of_le rfl rfl (by simp only [List.length_replicate]; decide)
  · exact XdeltaRun.no_power_between_of_le rfl rfl (by simp only [List.length_replicate]; decide)

/-- A build that shrinks by a byte to 512 KiB. -/
theorem smaller_build_uncovered :
    (∀ run ∈ xdeltaRuns (workOfSizes 524289 524288 526050),
      run.InRange (workOfSizes 524289 524288 526050) ∧ (optionSrcwinsz run).isSome) ∧
      ¬ ∀ run ∈ xdeltaRuns (workOfSizes 524289 524288 526050),
        run.CoversSource (workOfSizes 524289 524288 526050) := by
  refine ⟨runs_of_sizes (by decide) (by decide), fun h => ?_⟩
  have hfirst : ((List.replicate 524289 0 : Bytes).length : Int) ≤
      (srcBuff (some (List.replicate 524288 0))).toInt := h _ List.mem_cons_self _ rfl
  rw [srcBuff, List.length_replicate, List.length_replicate] at hfirst
  revert hfirst
  decide

end NamelessCenter.Server
