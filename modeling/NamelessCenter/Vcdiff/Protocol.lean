import NamelessCenter.Native.Xd3
import NamelessCenter.Vcdiff.Delivery

/-!
# The decoder follows its protocol

`xdelta3` is the decoder behind the interface that the driver uses. Its calls obey the laws of the
interface for the meaning of VCDIFF files (`xdelta3_sound`), whatever is in the input: a call after
which nothing can be said of the stream only happens if the input is not the start of a delta with
a meaning. How the input is cut does not matter, because the calls up to a request for more of it
are together one call on the whole input. Allocations succeed.
-/

namespace NamelessCenter.Vcdiff

open Bytes Resumable Native

/-- The return code of a call for the driver; an access outside of its memory has none. -/
def Ret.toXRet : Ret → Option XRet
  | .input => some .input
  | .output => some .output
  | .getsrcblk => some .getsrcblk
  | .gotheader => some .gotheader
  | .winstart => some .winstart
  | .winfinish => some .winfinish
  | .error .. => some .error
  | .overrun => none

/-- `shiftby` of the source, for blocks of `CHUNK` bytes. -/
def chunkShift : Nat := 18

/-- The source that the driver sets up, whose current block is none. -/
def Source.unread (bsource : Bytes) : Source :=
  { shiftby := chunkShift, curblkno := 2 ^ 64 - 1, curblk := bsource }

/-! ## The size of the source window -/

/-- `xd3_check_pow2`. -/
def checkPow2 (value : UInt64) : Bool := (List.range 64).any fun k => 2 ^ k == value.toNat

/-- The loop of `xd3_xoff_roundup`, for at most the given number of rounds. -/
def xoffRoundup (x : UInt64) : Nat → Nat → Option Nat
  | 0, _ => none
  | rounds + 1, i => if i < x.toNat then xoffRoundup x rounds (2 * i % 2 ^ 64) else some i

/-- What `xd3_set_source` makes of `max_winsize`, if it returns. After 64 rounds of the loop `i` is
zero and stays zero. -/
def roundWinsize (maxWinsize : UInt64) : Option Nat :=
  if checkPow2 maxWinsize then some (max maxWinsize.toNat XD3_ALLOCSIZE)
  else (xoffRoundup maxWinsize 65 1).map (max XD3_ALLOCSIZE)

/-- Up to 2 ^ 63, some power of two is large enough. -/
theorem xoff_roundup_is_some {x : UInt64} (hx : x.toNat ≤ 2 ^ 63) {k : Nat} (hk : k ≤ 63)
    (rounds : Nat) : (xoffRoundup x (rounds + (64 - k)) (2 ^ k)).isSome := by
  induction h : 63 - k generalizing k with
  | zero =>
      obtain rfl : k = 63 := by omega
      unfold xoffRoundup
      rw [if_neg (by omega)]
      rfl
  | succ j ih =>
      have hrounds : rounds + (64 - k) = rounds + (64 - (k + 1)) + 1 := by omega
      rw [hrounds]
      unfold xoffRoundup
      split
      · have hdouble : 2 * 2 ^ k % 2 ^ 64 = 2 ^ (k + 1) := by
          rw [← Nat.pow_succ', Nat.mod_eq_of_lt]
          exact Nat.pow_lt_pow_right (by omega) (by omega)
        rw [hdouble]
        exact ih (by omega) (by omega)
      · rfl

/-- Above, none is: the loop goes on with zero. -/
theorem xoff_roundup_eq_none {x : UInt64} (hx : 2 ^ 63 < x.toNat) (rounds : Nat) {i : Nat}
    (hi : i = 0 ∨ ∃ k ≤ 63, i = 2 ^ k) : xoffRoundup x rounds i = none := by
  induction rounds generalizing i with
  | zero => rfl
  | succ rounds ih =>
      have hle : i ≤ 2 ^ 63 := by
        rcases hi with rfl | ⟨k, hk, rfl⟩
        · exact Nat.zero_le _
        · exact Nat.pow_le_pow_right (by omega) hk
      unfold xoffRoundup
      rw [if_pos (by omega)]
      refine ih ?_
      rcases hi with rfl | ⟨k, hk, rfl⟩
      · exact .inl rfl
      · rcases Nat.lt_or_eq_of_le hk with hless | rfl
        · refine .inr ⟨k + 1, hless, ?_⟩
          rw [← Nat.pow_succ', Nat.mod_eq_of_lt]
          exact Nat.pow_lt_pow_right (by omega) (by omega)
        · exact .inl rfl

/-- The call of `xd3_set_source` returns exactly if there is a power of two to round up to. -/
theorem round_winsize_is_some_iff (maxWinsize : UInt64) :
    (roundWinsize maxWinsize).isSome ↔ maxWinsize.toNat ≤ 2 ^ 63 := by
  unfold roundWinsize
  by_cases hpow : checkPow2 maxWinsize = true
  · rw [if_pos hpow]
    obtain ⟨k, hk, heq⟩ := List.any_eq_true.1 hpow
    rw [← beq_iff_eq.1 heq]
    rw [List.mem_range] at hk
    exact iff_of_true rfl (Nat.pow_le_pow_right (by omega) (by omega))
  · rw [if_neg hpow, Option.isSome_map]
    by_cases hle : maxWinsize.toNat ≤ 2 ^ 63
    · exact iff_of_true (xoff_roundup_is_some hle (k := 0) (by omega) 1) hle
    · have hnone := xoff_roundup_eq_none (Nat.lt_of_not_le hle) 65 (.inr ⟨0, by omega, rfl⟩)
      rw [pow_zero] at hnone
      rw [hnone]
      exact iff_of_false Bool.false_ne_true hle

section Protocol

variable (T : Bytes → Nat → Nat → Except (ErrorCode × String) (List Dinst)) (bsource : Bytes)
  (maxWinsize : UInt64) (undefined : Stream → XRet × Stream)

/-- The decoder, with the code table reader `T`, the initial contents `bsource` of the source buffer
and `maxWinsize` of the field that the driver leaves uninitialised, and whatever `undefined` does
once memory was accessed where it must not be. -/
def xdelta3 : Xd3 where
  Stream := Stream
  configStream := (0, {})
  setSource st :=
    (roundWinsize maxWinsize).map fun _ => (0, { st with src := some (.unread bsource) })
  setFlush st := st
  availInput st idata isize := { st with availIn := idata.take isize.toNat }
  availIn st := st.availIn.length
  decodeInput st :=
    match decodeInput T st with
    | (ret, st) =>
        match ret.toXRet with
        | some ret => (ret, st)
        | none => undefined st
  nextOut st := st.nextOut
  consumeOutput st := { st with nextOut := [] }
  getblkno st := (st.src.map Source.getblkno).getD 0
  setBlock st curblk onblk curblkno :=
    { st with src := st.src.map fun src => { src with curblk, onblk := onblk.toNat, curblkno } }
  closeStream st := if st.decState = .vchead ∨ st.decState = .winind then 0 else -17710

/-- The blocks have the size of a chunk. -/
theorem blksize_unread : (Source.unread bsource).blksize = CHUNK := by
  unfold Source.blksize Source.unread chunkShift CHUNK
  norm_num

/-- The call with a request for more input changes nothing of a stream at its start. -/
theorem decode_input_opened (src : Source) :
    decodeInput T (.opened src []) = (.input, .opened src []) := rfl

variable {T bsource maxWinsize undefined}

/-- The source is set up exactly if the uninitialised field is not too large. -/
theorem set_source_xdelta3 (st : Stream) :
    (xdelta3 T bsource maxWinsize undefined).setSource st =
      if maxWinsize.toNat ≤ 2 ^ 63 then some (0, { st with src := some (.unread bsource) })
      else none := by
  have hiff := round_winsize_is_some_iff maxWinsize
  show (roundWinsize maxWinsize).map _ = _
  cases hround : roundWinsize maxWinsize with
  | some w =>
      rw [hround] at hiff
      rw [if_pos (hiff.1 rfl)]
      rfl
  | none =>
      rw [hround] at hiff
      rw [if_neg fun hle => Bool.false_ne_true (hiff.2 hle)]
      rfl

/-- The block that the driver is asked for. -/
theorem getblkno_xdelta3 {st : Stream} {src : Source} (hsrc : st.src = some src) :
    (xdelta3 T bsource maxWinsize undefined).getblkno st = src.getblkno := by
  show (st.src.map Source.getblkno).getD 0 = _
  rw [hsrc]
  rfl

/-- The block that the driver supplies is the one it was asked for. -/
theorem set_block_xdelta3 {st : Stream} {src : Source} (hsrc : st.src = some src) (curblk : Bytes)
    (onblk : UInt32) :
    (xdelta3 T bsource maxWinsize undefined).setBlock st curblk onblk src.getblkno =
      st.answer curblk onblk.toNat := by
  show ({ st with src := st.src.map _ } : Stream) = { st with src := st.src.map _ }
  rw [hsrc]
  rfl

/-- What a call of the decoder did if it returned to the driver. -/
theorem decode_input_eq {st st' : Stream} {ret : XRet}
    (h : (xdelta3 T bsource maxWinsize undefined).decodeInput st = (ret, st')) :
    (∃ code, code.toXRet = some ret ∧ decodeInput T st = (code, st')) ∨
      (decodeInput T st).1 = .overrun := by
  have hcall : (xdelta3 T bsource maxWinsize undefined).decodeInput st =
      match (decodeInput T st).1.toXRet with
      | some ret => (ret, (decodeInput T st).2)
      | none => undefined (decodeInput T st).2 := rfl
  rw [hcall] at h
  cases hcode : (decodeInput T st).1.toXRet with
  | some code =>
      rw [hcode] at h
      cases h
      exact .inl ⟨_, hcode, rfl⟩
  | none =>
      right
      cases hret : (decodeInput T st).1 with
      | overrun => rfl
      | input | output | getsrcblk | gotheader | winstart | winfinish | error =>
          rw [hret] at hcode
          cases hcode

/-! ## Streams that have some of their input -/

/-- What is to come from a stream in a phase, with the rest of the input. In between requests for
input it is what comes from the stream at the last return of another kind, had it had all of the
input since then. -/
def Awaits (T : Bytes → Nat → Nat → Except (ErrorCode × String) (List Dinst)) (source : Bytes)
    (complete : Prop) (rest out : Bytes) (st : Stream) : XPhase → Prop
  | .input => ∃ s, (InSections s → Fits s) ∧ decodeInput T s = (.input, st) ∧
      Delivers T source CHUNK complete True (decodeInput T (s.feed rest)) out
  | .run => ∃ s, (InSections s → Fits s) ∧
      (∀ more, decodeInput T (st.feed more) = decodeInput T (s.feed more)) ∧
      Delivers T source CHUNK complete True (decodeInput T (s.feed rest)) out
  | .output => Delivers T source CHUNK complete True (.output, st.feed rest) out
  | .source => Delivers T source CHUNK complete True (.getsrcblk, st.feed rest) out

variable {source rest out : Bytes} {complete : Prop} {st st' : Stream}

/-- A stream at its start, which has no block of the source. -/
theorem awaits_opened {delta whole : Bytes} (hsmall : delta.length + XD3_ALLOCSIZE ≤ 2 ^ 32)
    (h : vcdiff CHUNK source delta = some whole) :
    Awaits T source complete delta whole (.opened (.unread bsource) []) .input := by
  rw [← blksize_unread bsource] at h
  have hnone : ¬ (Source.unread bsource).curblkno < 2 ^ 64 - 1 := lt_irrefl _
  have hwhole : complete → (Source.unread bsource).Whole source := fun _ hless =>
    absurd hless hnone
  have hdelivers : Delivers T source (Source.unread bsource).blksize complete True
      (decodeInput T (.opened (.unread bsource) delta)) whole :=
    opened_delivers (fun hless => absurd hless hnone) hwhole (fun _ => hsmall) h
  rw [blksize_unread] at hdelivers
  exact ⟨.opened (.unread bsource) [], nofun, decode_input_opened T _, hdelivers⟩

/-- A call with part of the input. -/
theorem Awaits.call {code : Ret} (h : Awaits T source complete rest out st .run)
    (hcall : decodeInput T st = (code, st')) :
    (code = .input ∧ Awaits T source complete rest out st' .input) ∨
      code ≠ .input ∧ Delivers T source CHUNK complete True (code, st'.feed rest) out := by
  obtain ⟨s, hfits, hsame, hdelivers⟩ := h
  have hone : decodeInput T s = (code, st') := by
    rw [← hcall, ← feed_nil st, ← feed_nil s]
    exact (hsame []).symm
  rcases decode_input_feed T hfits rest with ⟨hinput, -, -⟩ | ⟨hother, hfeed⟩
  · rw [hone] at hinput
    obtain rfl : code = .input := hinput
    exact .inl ⟨rfl, s, hfits, hone, hdelivers⟩
  · rw [hone] at hother hfeed
    rw [hfeed] at hdelivers
    exact .inr ⟨hother, hdelivers⟩

/-- A delta that has a meaning does not get the decoder out of its memory. -/
theorem Awaits.not_overrun (h : Awaits T source complete rest out st .run) :
    (decodeInput T st).1 ≠ .overrun := by
  intro hover
  rcases h.call (Prod.mk.eta.symm : decodeInput T st = _) with ⟨hinput, -⟩ | ⟨-, hdelivers⟩
  · rw [hover] at hinput
    cases hinput
  · exact hdelivers.not_overrun hover

/-- A result of the driver's decoder is one of the stream's. -/
theorem Awaits.code {ret : XRet} (h : Awaits T source complete rest out st .run)
    (hcall : (xdelta3 T bsource maxWinsize undefined).decodeInput st = (ret, st')) :
    ∃ code, code.toXRet = some ret ∧ decodeInput T st = (code, st') :=
  (decode_input_eq hcall).resolve_right h.not_overrun

/-- A chunk of the input. -/
theorem Awaits.feed {chunk : Bytes} (h : Awaits T source complete (chunk ++ rest) out st .input) :
    Awaits T source complete rest out { st with availIn := chunk } .run := by
  obtain ⟨s, hfits, hone, hdelivers⟩ := h
  have hlater : ∀ more, decodeInput T (s.feed more) = decodeInput T (st.feed more) ∧
      st.availIn = [] := by
    intro more
    rcases decode_input_feed T hfits more with ⟨-, hused, hmore⟩ | ⟨hother, -⟩
    · rw [hone] at hused hmore
      exact ⟨hmore, hused⟩
    · rw [hone] at hother
      exact absurd rfl hother
  have hchunk : ({ st with availIn := chunk } : Stream) = st.feed chunk := by
    show _ = ({ st with availIn := st.availIn ++ chunk } : Stream)
    rw [(hlater []).2, List.nil_append]
  refine ⟨s.feed chunk, fun hsect => (hfits hsect).feed chunk, fun more => ?_, ?_⟩
  · rw [hchunk, feed_feed, feed_feed]
    exact (hlater _).1.symm
  · rw [feed_feed]
    exact hdelivers

/-- A return code that calls for no action. -/
theorem Awaits.notice {ret : XRet} {code : Ret} (hcode : code.toXRet = some ret)
    (hret : ret = .gotheader ∨ ret = .winstart ∨ ret = .winfinish)
    (h : Delivers T source CHUNK complete True (code, st.feed rest) out) :
    Awaits T source complete rest out st .run := by
  have hnotice : code = .gotheader ∨ code = .winstart ∨ code = .winfinish := by
    rcases hret with rfl | rfl | rfl
    · exact .inl (by cases code <;> first | rfl | cases hcode)
    · exact .inr (.inl (by cases code <;> first | rfl | cases hcode))
    · exact .inr (.inr (by cases code <;> first | rfl | cases hcode))
  obtain ⟨hfits, hnext⟩ := h.of_notice hnotice
  refine ⟨st, fun hsect => ?_, fun _ => rfl, hnext⟩
  exact ⟨(hfits trivial hsect).total, (hfits trivial hsect).count⟩

/-- The output that the driver takes. -/
theorem Awaits.consume (h : Awaits T source complete rest out st .output) :
    ∃ out', out = st.nextOut ++ out' ∧
      Awaits T source complete rest out' { st with nextOut := [] } .run := by
  obtain ⟨hstate, out', hout, hnext⟩ := Delivers.of_output h
  exact ⟨out', hout, { st with nextOut := [] }, fun hsect => absurd hsect hstate, fun _ => rfl,
    hnext⟩

/-- The block that the driver supplies. -/
theorem Awaits.block {curblk : Bytes} {onblk : UInt32}
    (h : Awaits T source complete rest out st .source) (hlength : onblk.toNat ≤ curblk.length)
    (hstarts : curblk.take onblk.toNat <+:
      slice source (CHUNK * (xdelta3 T bsource maxWinsize undefined).getblkno st) CHUNK)
    (hwhole : complete → onblk.toNat =
      (slice source (CHUNK * (xdelta3 T bsource maxWinsize undefined).getblkno st) CHUNK).length) :
    Awaits T source complete rest out
      ((xdelta3 T bsource maxWinsize undefined).setBlock st curblk onblk
        ((xdelta3 T bsource maxWinsize undefined).getblkno st)) .run := by
  obtain ⟨hstate, src, hfed, hnext⟩ := Delivers.of_getsrcblk h
  have hsrc : st.src = some src := hfed
  rw [getblkno_xdelta3 hsrc] at hstarts hwhole ⊢
  rw [set_block_xdelta3 hsrc]
  exact ⟨st.answer curblk onblk.toNat, fun hsect => absurd hsect hstate, fun _ => rfl,
    hnext curblk onblk.toNat ⟨hlength, hstarts, hwhole⟩⟩

/-- The whole input was consumed, and the decoder is between two windows. -/
theorem Awaits.consumed (h : Awaits T source complete [] out st .input) :
    out = [] ∧ st.decState = .winind := by
  obtain ⟨s, -, hone, hdelivers⟩ := h
  rw [feed_nil, hone] at hdelivers
  exact ⟨hdelivers.of_input.1, hdelivers.of_input.2.2⟩

/-- The input is used up when more is asked for. -/
theorem Awaits.used (h : Awaits T source complete rest out st .input) : st.availIn = [] := by
  obtain ⟨s, hfits, hone, -⟩ := h
  rcases decode_input_feed T hfits [] with ⟨-, hused, -⟩ | ⟨hother, -⟩
  · rw [hone] at hused
    exact hused
  · rw [hone] at hother
    exact absurd rfl hother

/-! ## The laws -/

/-- The meaning of a delta, if it is small enough for its sections to be copied from the chunks in
which the decoder gets them. -/
def smallVcdiff (source delta : Bytes) : Option Bytes :=
  if delta.length + XD3_ALLOCSIZE ≤ 2 ^ 32 then vcdiff CHUNK source delta else none

/-- The meaning of a delta whose buffers can be allocated. -/
theorem small_vcdiff_eq_some {delta whole : Bytes} :
    smallVcdiff source delta = some whole ↔
      delta.length + XD3_ALLOCSIZE ≤ 2 ^ 32 ∧ vcdiff CHUNK source delta = some whole := by
  unfold smallVcdiff
  split
  · rename_i hsmall
    exact (and_iff_right hsmall).symm
  · rename_i hsmall
    exact ⟨nofun, fun h => absurd h.1 hsmall⟩

/-- For every delta with a meaning that starts with the input so far, the output so far is the start
of its target, and the rest of the target is to come from the stream. -/
def Follows (T : Bytes → Nat → Nat → Except (ErrorCode × String) (List Dinst)) (source : Bytes)
    (st : Stream) (phase : XPhase) (fed made : Bytes) : Prop :=
  ∀ rest whole, smallVcdiff source (fed ++ rest) = some whole →
    ∃ out, whole = made ++ out ∧ Awaits T source False rest out st phase

variable {fed made : Bytes}

/-- What is to come when the delta is complete. -/
theorem Follows.target {phase : XPhase} {whole : Bytes} (h : Follows T source st phase fed made)
    (hwhole : smallVcdiff source fed = some whole) :
    ∃ out, whole = made ++ out ∧ Awaits T source False [] out st phase :=
  h [] whole (by rwa [List.append_nil])

/-- The decoder obeys the laws of its protocol. -/
theorem follows_protocol (T : Bytes → Nat → Nat → Except (ErrorCode × String) (List Dinst))
    (bsource : Bytes) (maxWinsize : UInt64) (undefined : Stream → XRet × Stream)
    (source : Bytes) :
    Xd3.Protocol (xdelta3 T bsource maxWinsize undefined) smallVcdiff source
      (Follows T source) where
  start st _ hset rest whole hwhole := by
    replace hset := (set_source_xdelta3 {}).symm.trans hset
    split at hset
    · cases hset
      obtain ⟨hsmall, hmeaning⟩ := small_vcdiff_eq_some.1 hwhole
      exact ⟨whole, rfl, awaits_opened hsmall hmeaning⟩
    · cases hset
  flush h := h
  feed idata isize h _ rest whole hwhole := by
    rw [List.append_assoc] at hwhole
    obtain ⟨out, hout, hawaits⟩ := h _ whole hwhole
    exact ⟨out, hout, hawaits.feed⟩
  needInput h hcall rest whole hwhole := by
    obtain ⟨out, hout, hawaits⟩ := h rest whole hwhole
    obtain ⟨code, hcode, hone⟩ := hawaits.code hcall
    rcases hawaits.call hone with ⟨-, hinput⟩ | ⟨hother, -⟩
    · exact ⟨out, hout, hinput⟩
    · cases code <;> first | exact absurd rfl hother | cases hcode
  haveOutput h hcall rest whole hwhole := by
    obtain ⟨out, hout, hawaits⟩ := h rest whole hwhole
    obtain ⟨code, hcode, hone⟩ := hawaits.code hcall
    obtain rfl : code = .output := by cases code <;> first | rfl | cases hcode
    rcases hawaits.call hone with ⟨hinput, -⟩ | ⟨-, hdelivers⟩
    · cases hinput
    · exact ⟨out, hout, hdelivers⟩
  needSource h hcall rest whole hwhole := by
    obtain ⟨out, hout, hawaits⟩ := h rest whole hwhole
    obtain ⟨code, hcode, hone⟩ := hawaits.code hcall
    obtain rfl : code = .getsrcblk := by cases code <;> first | rfl | cases hcode
    rcases hawaits.call hone with ⟨hinput, -⟩ | ⟨-, hdelivers⟩
    · cases hinput
    · exact ⟨out, hout, hdelivers⟩
  notice h hcall hret rest whole hwhole := by
    obtain ⟨out, hout, hawaits⟩ := h rest whole hwhole
    obtain ⟨code, hcode, hone⟩ := hawaits.code hcall
    rcases hawaits.call hone with ⟨rfl, -⟩ | ⟨-, hdelivers⟩
    · cases hcode
      rcases hret with hret | hret | hret <;> cases hret
    · exact ⟨out, hout, .notice hcode hret hdelivers⟩
  consume h rest whole hwhole := by
    obtain ⟨out, rfl, hawaits⟩ := h rest whole hwhole
    obtain ⟨out', rfl, hafter⟩ := hawaits.consume
    exact ⟨out', (List.append_assoc _ _ _).symm, hafter⟩
  block curblk onblk h hlength hstarts rest whole hwhole := by
    obtain ⟨out, hout, hawaits⟩ := h rest whole hwhole
    exact ⟨out, hout, hawaits.block hlength hstarts False.elim⟩
  complete h hwhole := by
    obtain ⟨out, rfl, hawaits⟩ := Follows.target h hwhole
    rw [hawaits.consumed.1, List.append_nil]
  closed {st fed made} h hclose := by
    cases hwhole : smallVcdiff source fed with
    | none => rfl
    | some whole =>
        obtain ⟨out, -, hawaits⟩ := Follows.target h hwhole
        exact absurd (if_pos (.inr hawaits.consumed.2)) hclose

/-- The decoder follows its protocol for the meaning of VCDIFF files that are small enough, whatever
the uninitialised field holds and whatever happens once memory was accessed outside of its bounds.
On the way its output is a part of the target, and it asks for more input when there is none. -/
theorem xdelta3_sound (T : Bytes → Nat → Nat → Except (ErrorCode × String) (List Dinst))
    (bsource : Bytes) (maxWinsize : UInt64) (undefined : Stream → XRet × Stream) :
    (xdelta3 T bsource maxWinsize undefined).Exact smallVcdiff := by
  refine fun source => ⟨Follows T source, follows_protocol T bsource maxWinsize undefined source,
    ?_, ?_, ?_⟩
  · intro st phase fed made rest whole h hwhole
    obtain ⟨out, rfl, -⟩ := h rest whole hwhole
    exact List.prefix_append _ _
  · intro st fed made rest whole h hwhole
    obtain ⟨out, rfl, hawaits⟩ := h rest whole hwhole
    obtain ⟨out', rfl, -⟩ := hawaits.consume
    exact ⟨out', List.append_assoc _ _ _⟩
  · intro st st' fed made rest whole h hcall hwhole
    have hinput := (follows_protocol T bsource maxWinsize undefined source).needInput h hcall
    obtain ⟨out, -, hawaits⟩ := hinput rest whole hwhole
    exact congrArg List.length hawaits.used

end Protocol

end NamelessCenter.Vcdiff
