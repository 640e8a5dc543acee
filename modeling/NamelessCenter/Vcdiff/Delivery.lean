import NamelessCenter.Vcdiff.Heads
import NamelessCenter.Vcdiff.Resumption

/-!
# The decoder delivers the target

`Delivers` says that a caller who takes the output of the decoder and answers its requests for the
source gets the given bytes, and that the decoder then asks for more input. A caller may answer with
less of a block than the source has, and only then may the decoder give up. If the input is small
enough for its sections to be copied, a caller may also cut it into pieces. The decoder delivers
what a complete delta means (`vcdiff_delivers`): a window is read, its target is made with one
request after the other, and the rest follows from the windows behind it.
-/

namespace NamelessCenter.Vcdiff

open Bytes Copies Resumable Format

/-- An answer of the caller: a part of the block that the decoder asked for, or all of it if its
answers are complete. -/
structure Answers (source : Bytes) (blksize : Nat) (complete : Prop) (getblkno : Nat)
    (curblk : Bytes) (onblk : Nat) : Prop where
  length : onblk ≤ curblk.length
  starts : curblk.take onblk <+: slice source (blksize * getblkno) blksize
  whole : complete → onblk = (slice source (blksize * getblkno) blksize).length

/-- The stream with the block that it asked for. -/
def Stream.answer (s : Stream) (curblk : Bytes) (onblk : Nat) : Stream :=
  { s with src := s.src.map fun src => { src with curblk, onblk, curblkno := src.getblkno } }

section Delivery

variable (T : Bytes → Nat → Nat → Except (ErrorCode × String) (List Dinst)) (source : Bytes)
  (blksize : Nat) (complete small : Prop)

/-- What a caller gets from a call of the decoder on. -/
inductive Delivers : Ret × Stream → Bytes → Prop where
  | done {s : Stream} (hinput : s.availIn = []) (hstate : s.decState = .winind) :
      Delivers (.input, s) []
  | notice {ret : Ret} {s : Stream} {out : Bytes}
      (hret : ret = .gotheader ∨ ret = .winstart ∨ ret = .winfinish)
      (hfits : small → InSections s → Fits s) (hnext : Delivers (decodeInput T s) out) :
      Delivers (ret, s) out
  | output {s : Stream} {out : Bytes} (hstate : ¬ InSections s)
      (hsize : s.nextOut.length ≤ XD3_HARDMAXWINSIZE)
      (hnext : Delivers (decodeInput T { s with nextOut := [] }) out) :
      Delivers (.output, s) (s.nextOut ++ out)
  | source {s : Stream} {src : Source} {out : Bytes} (hstate : ¬ InSections s)
      (hsrc : s.src = some src)
      (hnext : ∀ curblk onblk, Answers source blksize complete src.getblkno curblk onblk →
        Delivers (decodeInput T (s.answer curblk onblk)) out) :
      Delivers (.getsrcblk, s) out
  | short {s : Stream} {out : Bytes} (hshort : ¬ complete) :
      Delivers (.error .invalidInput "source file too short", s) out

variable {T source blksize complete small}

section Inversion

variable {s : Stream} {out : Bytes}

/-- A stream that asks for input has used up what it had, between two windows. -/
theorem Delivers.of_input (h : Delivers T source blksize complete small (.input, s) out) :
    out = [] ∧ s.availIn = [] ∧ s.decState = .winind := by
  cases h with
  | done hinput hstate => exact ⟨rfl, hinput, hstate⟩
  | notice hret => rcases hret with hret | hret | hret <;> cases hret

/-- Behind a notice, the stream is called again. -/
theorem Delivers.of_notice {ret : Ret} (h : Delivers T source blksize complete small (ret, s) out)
    (hret : ret = .gotheader ∨ ret = .winstart ∨ ret = .winfinish) :
    (small → InSections s → Fits s) ∧
      Delivers T source blksize complete small (decodeInput T s) out := by
  cases h with
  | notice _ hfits hnext => exact ⟨hfits, hnext⟩
  | done | output | source | short => rcases hret with hret | hret | hret <;> cases hret

/-- Output is a part of what is delivered, and the rest follows behind it. -/
theorem Delivers.of_output (h : Delivers T source blksize complete small (.output, s) out) :
    ¬ InSections s ∧ ∃ out', out = s.nextOut ++ out' ∧
      Delivers T source blksize complete small (decodeInput T { s with nextOut := [] }) out' := by
  cases h with
  | output hstate _ hnext => exact ⟨hstate, _, rfl, hnext⟩
  | notice hret => rcases hret with hret | hret | hret <;> cases hret

/-- Behind an answer to its request, the stream is called again. -/
theorem Delivers.of_getsrcblk (h : Delivers T source blksize complete small (.getsrcblk, s) out) :
    ¬ InSections s ∧ ∃ src, s.src = some src ∧
      ∀ curblk onblk, Answers source blksize complete src.getblkno curblk onblk →
        Delivers T source blksize complete small (decodeInput T (s.answer curblk onblk)) out := by
  cases h with
  | source hstate hsrc hnext => exact ⟨hstate, _, hsrc, hnext⟩
  | notice hret => rcases hret with hret | hret | hret <;> cases hret

/-- Nothing is delivered past the end of a buffer. -/
theorem Delivers.not_overrun {ret : Ret}
    (h : Delivers T source blksize complete small (ret, s) out) : ret ≠ .overrun := by
  rintro rfl
  cases h with
  | notice hret => rcases hret with hret | hret | hret <;> cases hret

end Inversion

/-! ## The position of the segment -/

/-- The source with the position of a segment. -/
def Source.locate (src : Source) (cpyoff : Nat) : Source :=
  { src with
    cpyoffBlocks := (src.blksizeDiv cpyoff).1
    cpyoffBlkoff := (src.blksizeDiv cpyoff).2 }

/-- The stream in which the position of the segment is set, if the window has one. -/
def Stream.located (s : Stream) : Stream :=
  if s.decWinInd &&& VCD_SOURCE ≠ 0 then
    { s with src := s.src.map fun src => src.locate s.decCpyoff }
  else s

/-- The emission starts with locating the source window. -/
theorem case_emit_eq {s : Stream} {src : Source} (hsrc : s.src = some src) :
    caseEmit s = decodeEmit s.located := by
  unfold caseEmit Stream.located
  rw [get_bind, hsrc]
  split
  · rfl
  · rfl

/-- Locating the window changes only where the source stands. -/
theorem located_some {s : Stream} {src : Source} (hsrc : s.src = some src) :
    ∃ src', s.located = { s with src := some src' } ∧ src'.blksize = src.blksize ∧
      (∀ source, src.Supplies source → src'.Supplies source) ∧
      (∀ source, src.Whole source → src'.Whole source) ∧
      (s.decWinInd &&& VCD_SOURCE ≠ 0 →
        (src'.cpyoffBlocks, src'.cpyoffBlkoff) = src'.blksizeDiv s.decCpyoff) := by
  by_cases hon : s.decWinInd &&& VCD_SOURCE ≠ 0
  · refine ⟨src.locate s.decCpyoff, ?_, rfl, fun _ h => h, fun _ h => h, fun _ => rfl⟩
    refine (if_pos hon).trans ?_
    rw [hsrc]
    rfl
  · refine ⟨src, ?_, rfl, fun _ h => h, fun _ h => h, fun h => absurd h hon⟩
    refine (if_neg hon).trans ?_
    rw [← hsrc]

/-! ## Windows -/

variable {start : Nat} {rest target out : Bytes} {s : Stream} {p : Progress}

/-- What holds of the stream behind the header. -/
structure Settled (source : Bytes) (blksize : Nat) (complete small : Prop) (start : Nat)
    (rest : Bytes) (s : Stream) : Prop where
  availIn : s.availIn = rest
  small : small → rest.length + XD3_ALLOCSIZE ≤ 2 ^ 32
  buffer : s.outBuffer = s.decBuffer
  start : s.decWinstart + s.decTgtlen = start
  near : s.sNear = CodeTableDesc.rfc3284.nearModes
  same : s.sSame = CodeTableDesc.rfc3284.sameModes
  table : s.codeTable = rfc3284CodeTable
  part32 : s.dec32part = 0
  part64 : s.dec64part = 0
  src : ∃ src, s.src = some src ∧ src.blksize = blksize ∧ src.Supplies source ∧
    (complete → src.Whole source)

/-- The stream in front of a window. -/
structure Ready (source : Bytes) (blksize : Nat) (complete small : Prop) (start : Nat)
    (rest : Bytes) (s : Stream) : Prop
    extends Settled source blksize complete small start rest s where
  state : s.decState = .winind
  out : s.nextOut = []
  winbytes : s.decWinbytes = 0
  taken : ∀ which, (s.sect which).taken = []
  idle : s.progress.Idle

/-- The stream while the target of a window is made. -/
structure Emits (source target : Bytes) (blksize : Nat) (complete small : Prop) (start : Nat)
    (rest : Bytes) (s : Stream) : Prop
    extends Settled source blksize complete small start rest s where
  state : s.decState = .emit
  size : target.length ≤ XD3_HARDMAXWINSIZE
  layout : Layout source target s
  located : ∀ src, s.src = some src → s.decWinInd &&& VCD_SOURCE ≠ 0 →
    (src.cpyoffBlocks, src.cpyoffBlkoff) = src.blksizeDiv s.decCpyoff

/-- The copies of the window are found from the offset of its segment already. -/
theorem case_emit_at (h : Emits source target blksize complete small start rest s) :
    caseEmit (s.at p) = decodeEmit (s.at p) := by
  obtain ⟨src, hsrc, -⟩ := h.src
  have hat : (s.at p).src = some src := hsrc
  have hlocated : (s.at p).located = s.at p := by
    by_cases hon : s.decWinInd &&& VCD_SOURCE ≠ 0
    · have hdiv := h.located src hsrc hon
      rw [Prod.ext_iff] at hdiv
      have hsame : src.locate s.decCpyoff = src := by
        unfold Source.locate
        rw [← hdiv.1, ← hdiv.2]
      refine (if_pos hon).trans ?_
      show { s.at p with src := s.src.map fun src => src.locate s.decCpyoff } = s.at p
      rw [hsrc, Option.map_some, hsame, ← hsrc]
      rfl
    · exact if_neg hon
  rw [case_emit_eq hat, hlocated]

/-- A call while the target of a window is made. -/
theorem decode_input_emit (h : Emits source target blksize complete small start rest s) :
    decodeInput T (s.at p) = returned (decodeEmit (s.at p)) := by
  have hstate : (s.at p).decState = .emit := h.state
  unfold decodeInput
  rw [hstate]
  exact congrArg returned (case_emit_at h)

/-- The call behind the target of a window. -/
theorem decode_input_finish (hstate : s.decState = .finish)
    (htarget : s.decWinInd &&& VCD_TARGET = 0) :
    decodeInput T s = (.winfinish, { s with
      decLaststart := s.decWinstart
      decWindowCount := s.decWindowCount + 1
      decState := .winind }) := by
  unfold decodeInput
  rw [hstate]
  show returned (caseFinish s) = _
  unfold caseFinish
  rw [get_bind, only_if_of_not (not_not_intro htarget), pure_bind]
  rfl

/-- The stream that is asked for another block has the block of its answer. -/
theorem Emits.answer {src : Source} {blkno : Nat} {curblk : Bytes} {onblk : Nat}
    (h : Emits source target blksize complete small start rest s) (hsrc : s.src = some src)
    (hanswer : Answers source blksize complete blkno curblk onblk) :
    Emits source target blksize complete small start rest
      ((s.request blkno).answer curblk onblk) := by
  let src' : Source := { src with getblkno := blkno, curblk, onblk, curblkno := blkno }
  have hsrc' : ((s.request blkno).answer curblk onblk).src = some src' := by
    show ((s.src.map _).map _) = _
    rw [hsrc]
    rfl
  obtain ⟨old, hold, hblksize, -, -⟩ := h.src
  cases hsrc.symm.trans hold
  have hsupplies : src'.Supplies source := fun _ => ⟨hanswer.length, by
    rw [show src'.blksize = blksize from hblksize]
    exact hanswer.starts⟩
  have hwhole : complete → src'.Whole source := fun hcomplete _ => by
    rw [show src'.blksize = blksize from hblksize]
    exact hanswer.whole hcomplete
  refine ⟨⟨h.availIn, h.small, h.buffer, h.start, h.near, h.same, h.table, h.part32, h.part64,
    src', hsrc', hblksize, hsupplies, hwhole⟩, h.state, h.size, ?_, ?_⟩
  · refine { h.layout with src := fun hpos => ?_ }
    obtain ⟨src₀, hsrc₀, -, hdiv, hlimit⟩ := h.layout.src hpos
    cases hsrc.symm.trans hsrc₀
    exact ⟨src', hsrc', hsupplies, hdiv, hlimit⟩
  · intro src₁ hsrc₁ hon
    cases hsrc'.symm.trans hsrc₁
    exact h.located src hsrc hon

/-- What is left to be done does not depend on the block. -/
theorem Good.answer {blkno : Nat} {curblk : Bytes} {onblk : Nat} {more : List Hinst}
    (h : Good source target s p more) :
    Good source target ((s.request blkno).answer curblk onblk) p more :=
  ⟨h.parsed, h.here, h.renders⟩

/-- The next copy has the block that it asked for. -/
theorem not_blocked_answer {src : Source} {blkno : Nat} {curblk : Bytes} {onblk : Nat}
    {inst : Hinst} (hsrc : s.src = some src) (hasks : Asks s inst blkno) :
    ¬ Blocked ((s.request blkno).answer curblk onblk) inst := by
  rintro ⟨src', hsrc', hother⟩
  obtain ⟨-, src₀, hsrc₀, hblock⟩ := hasks
  cases hsrc.symm.trans hsrc₀
  have hnew : ((s.request blkno).answer curblk onblk).src =
      some { src with getblkno := blkno, curblk, onblk, curblkno := blkno } := by
    show ((s.src.map _).map _) = _
    rw [hsrc]
    rfl
  cases hnew.symm.trans hsrc'
  exact hother hblock

/-- A stream in another state is not inside the sections. -/
theorem not_in_sections_of_state {state : DecState} (h : s.decState = state)
    (hdata : state ≠ .data) (hinst : state ≠ .inst) (haddr : state ≠ .addr) :
    ¬ InSections s := by
  rintro (hs | hs | hs)
  · exact hdata (h.symm.trans hs)
  · exact hinst (h.symm.trans hs)
  · exact haddr (h.symm.trans hs)

/-- One call while the target of a window is made: it is delivered with what follows, if it is from
wherever the call may stop. -/
theorem emit_step (h : Emits source target blksize complete small start rest s)
    {more : List Hinst} (hgood : Good source target s p more)
    (hnext : ∀ t, Ready source blksize complete small start rest t →
      Delivers T source blksize complete small (decodeInput T t) out)
    (hlater : ∀ s' p' more', Emits source target blksize complete small start rest s' →
      Good source target s' p' more' → p'.next.type ≠ .noop → ¬ Blocked s' p'.next →
      (p.next.type ≠ .noop → ¬ Blocked s p.next → weight (p'.left more') < weight (p.left more)) →
      Delivers T source blksize complete small (decodeInput T (s'.at p')) (target ++ out)) :
    Delivers T source blksize complete small (decodeInput T (s.at p)) (target ++ out) := by
  rw [decode_input_emit h]
  rcases decode_emit_emits h.layout hgood with ⟨p', hp', hend⟩ | hstops
  · rw [hp']
    have hout : (s.at p').finished.nextOut = target := hend.out
    have hfinish : (s.at p').finished.decState = .finish := rfl
    have hdeliver : Delivers T source blksize complete small (.output, (s.at p').finished)
        ((s.at p').finished.nextOut ++ out) := by
      refine .output (not_in_sections_of_state hfinish nofun nofun nofun) (hout ▸ h.size) ?_
      rw [decode_input_finish (s := { (s.at p').finished with nextOut := [] }) rfl
        h.layout.indicator]
      refine .notice (.inr (.inr rfl))
        (fun _ hsect => absurd hsect (not_in_sections_of_state rfl nofun nofun nofun)) (hnext _ ?_)
      have hsettled := h.toSettled
      exact ⟨⟨hsettled.availIn, hsettled.small, hsettled.buffer, hsettled.start, hsettled.near,
        hsettled.same, hsettled.table, hsettled.part32, hsettled.part64, hsettled.src⟩, rfl, rfl,
        rfl, fun which => by cases which <;> rfl, hend.idle⟩
    rw [hout] at hdeliver
    exact hdeliver
  · generalize hr : decodeEmit (s.at p) = r at hstops
    cases hstops with
    | @request src blkno p' hsrc hblkno hother hpaused =>
        obtain ⟨more', hgood', hasks, -, hless⟩ := hpaused
        have hask : ((s.request blkno).at p').src = some { src with getblkno := blkno } := by
          show s.src.map _ = _
          rw [hsrc]
          rfl
        have hstate : ((s.request blkno).at p').decState = .emit := h.state
        refine .source (not_in_sections_of_state hstate nofun nofun nofun) hask ?_
        intro curblk onblk hanswer
        exact hlater _ p' more' (h.answer hsrc hanswer) hgood'.answer hasks.1
          (not_blocked_answer hsrc hasks) hless
    | @short src p' hsrc hshort =>
        obtain ⟨old, hold, -, -, hwhole⟩ := h.src
        cases hsrc.symm.trans hold
        exact .short fun hcomplete => hshort (hwhole hcomplete)

/-- The target of a window is delivered, after as many requests as there are. -/
theorem emit_delivers (h : Emits source target blksize complete small start rest s)
    {more : List Hinst} (hgood : Good source target s p more)
    (hnext : ∀ t, Ready source blksize complete small start rest t →
      Delivers T source blksize complete small (decodeInput T t) out) :
    Delivers T source blksize complete small (decodeInput T (s.at p)) (target ++ out) := by
  have hready : ∀ n s p more, weight (p.left more) = n →
      Emits source target blksize complete small start rest s → Good source target s p more →
      p.next.type ≠ .noop → ¬ Blocked s p.next →
      Delivers T source blksize complete small (decodeInput T (s.at p)) (target ++ out) := by
    intro n
    induction n using Nat.strong_induction_on with
    | _ n ih =>
        rintro s p more rfl h hgood hbusy hopen
        exact emit_step h hgood hnext fun s' p' more' h' hgood' hbusy' hopen' hless =>
          ih _ (hless hbusy hopen) s' p' more' rfl h' hgood' hbusy' hopen'
  exact emit_step h hgood hnext fun s' p' more' h' hgood' hbusy' hopen' _ =>
    hready _ s' p' more' rfl h' hgood' hbusy' hopen'

/-- The lengths of the sections have been compared with the length of the encoding. -/
theorem total_lt {hd : Head} (hhead : HeadFits blksize hd) :
    hd.instLen + hd.addrLen + hd.dataLen < 2 ^ 32 := by
  have henclen := hhead.enclen
  unfold Head.enclen at henclen
  omega

/-- The sections of a window in a small input can be copied. -/
theorem headed_fits {hd : Head} (htotal : hd.instLen + hd.addrLen + hd.dataLen + XD3_ALLOCSIZE ≤
    2 ^ 32) (hwinbytes : s.decWinbytes = 0) (htaken : ∀ which, (s.sect which).taken = [])
    (inp : Bytes) : Fits (s.headed hd inp) := by
  have hunread : (s.headed hd inp).unread = hd.dataLen + hd.instLen + hd.addrLen := by
    have hdata : s.dataSect.taken = [] := htaken .data
    have hinst : s.instSect.taken = [] := htaken .inst
    have haddr : s.addrSect.taken = [] := htaken .addr
    show hd.dataLen - s.dataSect.taken.length + (hd.instLen - s.instSect.taken.length) +
      (hd.addrLen - s.addrSect.taken.length) = _
    rw [hdata, hinst, haddr]
    rfl
  refine ⟨htotal, ?_⟩
  show s.decWinbytes + (s.headed hd inp).unread = hd.instLen + hd.addrLen + hd.dataLen
  omega

/-- What the format says of a window that has a target. -/
theorem target_eq_some {w : Window} (h : w.target source = some target) :
    w.head.cpyoff + w.head.cpylen ≤ source.length ∧ target.length = w.head.tgtlen ∧
      (w.head.indicator &&& VCD_ADLER32 ≠ 0 →
        adler32 32 1 target = Digits.ofBytes w.head.cksum) ∧
      ∃ hs, instructions w.inst.length ⟨w.inst, w.addr,
          .init CodeTableDesc.rfc3284.nearModes CodeTableDesc.rfc3284.sameModes, w.head.cpylen⟩ =
            some hs ∧
        Renders (slice source w.head.cpyoff w.head.cpylen) w.head.cpylen target [] w.data hs := by
  unfold Window.target at h
  obtain ⟨_, hguard, h⟩ := Option.bind_eq_some_iff.1 h
  obtain ⟨hs, hinsts, h⟩ := Option.bind_eq_some_iff.1 h
  obtain ⟨is, hdata, h⟩ := Option.bind_eq_some_iff.1 h
  obtain ⟨built, hbuild, h⟩ := Option.bind_eq_some_iff.1 h
  have hlies : w.head.cpyoff + w.head.cpylen ≤ source.length := by
    by_contra hnot
    simp [guard, hnot] at hguard
  split at h
  · rename_i hends
    cases h
    exact ⟨hlies, hends.1, hends.2, hs, hinsts, is, hdata, hbuild⟩
  · cases h

/-- The stream behind the sections of a window is about to make its target. -/
theorem window_emits {w : Window} {inp r : Bytes} {n m : Nat} {buffer : Option Nat}
    (h : Ready source blksize complete small start inp s) (hhead : HeadFits blksize w.head)
    (hspace : w.head.tgtlen ≤ m) (htarget : w.target source = some target)
    (hsmall : small → rest.length + XD3_ALLOCSIZE ≤ 2 ^ 32) {s' : Stream}
    (hs' : s' = (s.headed w.head r).loaded w.data w.inst w.addr rest n m buffer) :
    ∃ more, Emits source target blksize complete small (start + target.length) rest s'.located ∧
      Good source target s'.located s'.located.progress more := by
  obtain ⟨hlies, hlength, hcksum, hs, hinsts, hrenders⟩ := target_eq_some htarget
  obtain ⟨src, hsrc, hblksize, hsupplies, hwhole⟩ := h.src
  obtain ⟨src', hlocated, hblksize', hsupplies', hwhole', hdiv⟩ :=
    located_some (show s'.src = some src from hs' ▸ hsrc)
  have hsize : src'.blksize = blksize := hblksize'.trans hblksize
  subst hs'
  rw [hlocated]
  have htotal : target.length = totalSize hs := by
    obtain ⟨is, hdata, hbuild⟩ := hrenders
    exact (with_data_fits hdata hbuild (instructions_type hinsts)).1.trans (Nat.zero_add _)
  have hwhole₁ : complete → src'.Whole source := fun hcomplete =>
    hwhole' source (hwhole hcomplete)
  refine ⟨hs, ⟨⟨rfl, hsmall, rfl, ?_, h.near, h.same, h.table, h.part32, h.part64, src', rfl, hsize,
    hsupplies' source hsupplies, hwhole₁⟩, rfl, hlength.trans_le hhead.hard, ?_, ?_⟩, ?_⟩
  · show s.decWinstart + s.decTgtlen + w.head.tgtlen = start + target.length
    rw [h.start, hlength]
  · refine ⟨hhead.target, hlength.symm, fun hon => ?_, h.table, hlength.trans_le hspace, rfl, ?_,
      hhead.window, hlies, hhead.file, fun hpos => ?_⟩
    · exact (hcksum hon).trans (if_pos hon).symm
    · exact congrArg _ hlength.symm
    · have hon : w.head.indicator &&& VCD_SOURCE ≠ 0 := fun hoff =>
        absurd (hhead.cpylen hoff) (Nat.ne_of_gt hpos)
      exact ⟨src', rfl, hsupplies' source hsupplies, hdiv hon, hsize ▸ hhead.block⟩
  · intro src₀ hsrc₀ hon
    cases hsrc₀
    exact hdiv hon
  · refine ⟨⟨w.inst.length, ?_⟩, ?_, ?_⟩
    · rw [← hinsts, ← h.near, ← h.same]
      rfl
    · show w.head.cpylen + totalSize hs = w.head.cpylen + w.head.tgtlen
      rw [← htotal, hlength]
    · show Renders (slice source w.head.cpyoff w.head.cpylen) w.head.cpylen target s.nextOut w.data
        (s.progress.left hs)
      rw [left_of_idle h.idle, h.out]
      exact hrenders

/-- A window delivers its target. -/
theorem window_delivers {inp : Bytes} {w : Window}
    (h : Ready source blksize complete small start inp s)
    (hwindow : window blksize inp = some (w, rest)) (htarget : w.target source = some target)
    (hstart : start < 2 ^ 64)
    (hnext : ∀ t, Ready source blksize complete small (start + target.length) rest t →
      Delivers T source blksize complete small (decodeInput T t) out) :
    Delivers T source blksize complete small (decodeInput T s) (target ++ out) := by
  have hlength := window_length hwindow
  unfold window at hwindow
  obtain ⟨hd, r, hhd, hwindow⟩ := bind_eq_some.1 hwindow
  obtain ⟨data, r₁, hdata, hwindow⟩ := bind_eq_some.1 hwindow
  obtain ⟨inst, r₂, hinst, hwindow⟩ := bind_eq_some.1 hwindow
  obtain ⟨addr, r₃, haddr, hwindow⟩ := bind_eq_some.1 hwindow
  cases pure_eq_some.1 hwindow
  simp only at hlength
  rw [← h.availIn] at hhd
  obtain ⟨hcase, hhead⟩ := case_winind_head hhd h.part32 h.part64 (h.start.trans_lt hstart)
  have hcall : decodeInput T s =
      ((if s.decWindowCount = 0 then Done.gotheader else .winstart).ret, s.headed hd r) := by
    unfold decodeInput
    rw [h.state]
    exact congrArg returned hcase
  rw [hcall]
  have hret : (if s.decWindowCount = 0 then Done.gotheader else .winstart).ret = .gotheader ∨
      (if s.decWindowCount = 0 then Done.gotheader else .winstart).ret = .winstart ∨
      (if s.decWindowCount = 0 then Done.gotheader else .winstart).ret = .winfinish := by
    split
    · exact .inl rfl
    · exact .inr (.inl rfl)
  refine .notice hret (fun hcut _ => headed_fits ?_ h.winbytes h.taken r) ?_
  · have hinput := h.small hcut
    omega
  have htaken : ∀ which, ((s.headed hd r).sect which).taken = [] := by
    intro which
    cases which with
    | data => exact h.taken .data
    | inst => exact h.taken .inst
    | addr => exact h.taken .addr
  obtain ⟨n, m, buffer, hspace, hsections⟩ :=
    case_sections_of (s := s.headed hd r) rfl hhead.target hhead.hard h.buffer h.winbytes
      (total_lt hhead) htaken hdata hinst haddr
  let t : Stream := (s.headed hd r).loaded data inst addr rest n m buffer
  have hsmall : small → rest.length + XD3_ALLOCSIZE ≤ 2 ^ 32 := fun hcut => by
    have hinput := h.small hcut
    omega
  obtain ⟨more, hemits, hgood⟩ :=
    window_emits (w := ⟨hd, data, inst, addr⟩) h hhead hspace htarget hsmall (show t = _ from rfl)
  obtain ⟨src, hsrc, -⟩ := h.src
  have hload : decodeInput T (s.headed hd r) = returned (caseEmit t) :=
    congrArg returned hsections
  rw [hload, case_emit_eq (show t.src = some src from hsrc)]
  have hemit := emit_delivers hemits hgood hnext
  rw [decode_input_emit hemits, at_progress] at hemit
  exact hemit

/-- At the end of the input the decoder asks for more. -/
theorem end_delivers (h : Ready source blksize complete small start [] s) :
    Delivers T source blksize complete small (decodeInput T s) [] := by
  have hcall : decodeInput T s = (.input, s) := by
    unfold decodeInput
    rw [h.state]
    show returned (caseWinind s) = _
    unfold caseWinind
    have hbyte : decodeByte s = .error .input s := by
      unfold decodeByte
      rw [h.availIn]
    rw [bind_error hbyte]
    rfl
  rw [hcall]
  exact .done h.availIn h.state

/-- Windows deliver their targets one behind the other. -/
theorem windows_delivers {n : Nat} {inp : Bytes}
    (h : Ready source blksize complete small start inp s)
    (hwindows : windows blksize source n start inp = some out) :
    Delivers T source blksize complete small (decodeInput T s) out := by
  induction n generalizing s start inp out with
  | zero =>
      cases inp with
      | nil =>
          cases hwindows
          exact end_delivers h
      | cons b bs => cases hwindows
  | succ n ih =>
      cases inp with
      | nil =>
          cases hwindows
          exact end_delivers h
      | cons b bs =>
          unfold windows at hwindows
          split at hwindows
          · rename_i hstart
            obtain ⟨⟨w, rest⟩, hwindow, hwindows⟩ := Option.bind_eq_some_iff.1 hwindows
            obtain ⟨target, htarget, hwindows⟩ := Option.bind_eq_some_iff.1 hwindows
            obtain ⟨more, hmore, hwindows⟩ := Option.bind_eq_some_iff.1 hwindows
            cases hwindows
            exact window_delivers h hwindow htarget hstart fun t ht => ih ht hmore
          · cases hwindows

/-- The stream at the start, with a source. -/
def Stream.opened (src : Source) (availIn : Bytes) : Stream := { src := some src, availIn }

/-- The decoder delivers the file that a complete delta makes of the source. -/
theorem opened_delivers {src : Source} {delta whole : Bytes} (hsupplies : src.Supplies source)
    (hwhole : complete → src.Whole source)
    (hsmall : small → delta.length + XD3_ALLOCSIZE ≤ 2 ^ 32)
    (h : vcdiff src.blksize source delta = some whole) :
    Delivers T source src.blksize complete small (decodeInput T (.opened src delta)) whole := by
  unfold vcdiff at h
  obtain ⟨⟨_, rest⟩, hheader, hwindows⟩ := Option.bind_eq_some_iff.1 h
  obtain ⟨hdrInd, appheadsz, appheader, hcase⟩ :=
    case_vchead_header T (s := .opened src delta) hheader rfl rfl rfl
  let s : Stream := (Stream.opened src delta).begun hdrInd appheadsz appheader rest
  have hcall : decodeInput T (.opened src delta) = decodeInput T s := congrArg returned hcase
  rw [hcall]
  have hle : rest.length ≤ delta.length := shortens_header _ _ _ hheader
  have hrest : small → rest.length + XD3_ALLOCSIZE ≤ 2 ^ 32 := fun hcut => by
    have hdelta := hsmall hcut
    omega
  have hready : Ready source src.blksize complete small 0 rest s :=
    ⟨⟨rfl, hrest, rfl, rfl, rfl, rfl, rfl, rfl, rfl, src, rfl, rfl, hsupplies, hwhole⟩, rfl, rfl,
      rfl, fun which => by cases which <;> rfl, ⟨rfl, rfl⟩⟩
  exact windows_delivers hready hwindows

/-- The decoder delivers the file that a complete delta makes of the source, and does not leave its
memory. -/
theorem vcdiff_delivers {src : Source} {delta whole : Bytes} (hsupplies : src.Supplies source)
    (hwhole : complete → src.Whole source) (h : vcdiff src.blksize source delta = some whole) :
    Delivers T source src.blksize complete (delta.length + XD3_ALLOCSIZE ≤ 2 ^ 32)
      (decodeInput T (.opened src delta)) whole ∧
    (decodeInput T (.opened src delta)).1 ≠ .overrun := by
  have hdelivers : Delivers T source src.blksize complete (delta.length + XD3_ALLOCSIZE ≤ 2 ^ 32)
      (decodeInput T (.opened src delta)) whole := opened_delivers hsupplies hwhole id h
  exact ⟨hdelivers, hdelivers.not_overrun⟩

end Delivery

/-- One window that adds three bytes and copies four from the source. -/
def addCopyDelta : Bytes :=
  VCDIFF_MAGIC ++ [0, 0] ++ [1, 4, 2, 11, 7, 0, 3, 2, 1] ++ [97, 98, 99] ++ [4, 20] ++ [0]

/-- An addition of three bytes and a copy of four, from blocks of eight bytes. -/
theorem vcdiff_delivers_add_copy :
    Delivers (fun _ _ _ => .error (.unimplemented, "")) [0, 1, 2, 3, 4, 5, 6, 7, 8, 9] 8 True
      (addCopyDelta.length + XD3_ALLOCSIZE ≤ 2 ^ 32)
      (decodeInput (fun _ _ _ => .error (.unimplemented, ""))
        (.opened { shiftby := 3, curblkno := 2 ^ 64 - 1, curblk := [] } addCopyDelta))
      [97, 98, 99, 2, 3, 4, 5] := by
  let src : Source := { shiftby := 3, curblkno := 2 ^ 64 - 1, curblk := [] }
  have hnone : ¬ src.curblkno < 2 ^ 64 - 1 := lt_irrefl _
  have hmeans : vcdiff src.blksize [0, 1, 2, 3, 4, 5, 6, 7, 8, 9] addCopyDelta =
      some [97, 98, 99, 2, 3, 4, 5] := by decide +kernel
  exact (vcdiff_delivers (fun hless => absurd hless hnone) (fun _ hless => absurd hless hnone)
    hmeans).1

end NamelessCenter.Vcdiff
