import NamelessCenter.Delta.Leftovers
import NamelessCenter.Vcdiff.Protocol

/-!
# The driver decodes every delta

`dedelta_decodes` is about the driver together with the vendored decoder: with a system that answers
every call in full, `dedelta` ends for every delta that has a meaning, returns 1 and leaves the file
that the delta makes of the source, if the setup of the source comes to an end. The loop over a
chunk ends because there is only so much that the decoder delivers, and the outer loop because each
chunk takes something of the delta.
-/

namespace NamelessCenter.Delta

open Bytes Native Vcdiff

/-- A system that opens the files, allocates the buffers and answers every call in full. -/
structure Willing (os : Os) (bsource bdelta : Bytes) : Prop where
  opened : os.opened = true
  bsource : os.bsource = some bsource
  bdelta : os.bdelta = some bdelta
  answer : ∀ n, ∃ m, os.answer n = some m ∧ XD3_HARDMAXWINSIZE ≤ m

section Willing

variable {os : Os} {buffer buffer' : Bytes}

/-- A willing system reads a whole chunk, or what is left. -/
theorem Willing.read (h : Willing os buffer buffer') (n available : Nat) :
    readResult (os.answer n) CHUNK available = some (min CHUNK available) := by
  obtain ⟨m, hm, hlarge⟩ := h.answer n
  have hchunk : CHUNK ≤ m := le_trans (by decide) hlarge
  rw [hm, readResult, Option.map_some, Option.some.injEq]
  omega

/-- It writes what it is asked for. -/
theorem Willing.write (h : Willing os buffer buffer') (n : Nat) {count : Nat}
    (hcount : count ≤ XD3_HARDMAXWINSIZE) :
    writeResult (os.answer n) count = some count := by
  obtain ⟨m, hm, hlarge⟩ := h.answer n
  rw [hm, writeResult, Option.map_some, Option.some.injEq]
  omega

end Willing

/-! ## The passes over a chunk -/

section Passes

variable {T : Bytes → Nat → Nat → Except (ErrorCode × String) (List Dinst)} {buffer buffer' : Bytes}
  {maxWinsize : UInt64} {undefined : Stream → XRet × Stream} {os : Os}
  {source delta rest out : Bytes}

/-- The driver in front of a chunk, with `out` still to come. -/
structure Waits (T : Bytes → Nat → Nat → Except (ErrorCode × String) (List Dinst))
    (source whole rest : Bytes) (pos : Nat) {buffer : Bytes} {maxWinsize : UInt64}
    {undefined : Stream → XRet × Stream}
    (s : State (xdelta3 T buffer maxWinsize undefined)) : Prop where
  awaits : ∃ out, s.output ++ out = whole ∧ Awaits T source True rest out s.stream .input
  deltaPos : s.deltaPos = pos
  unfailed : ∀ c ∈ s.calls, ¬ c.Failed

/-- The driver in front of a pass, whose stream goes on like `s₀`. -/
structure Passing (T : Bytes → Nat → Nat → Except (ErrorCode × String) (List Dinst))
    (whole : Bytes) (pos : Nat) {buffer : Bytes} {maxWinsize : UInt64}
    {undefined : Stream → XRet × Stream}
    (s : State (xdelta3 T buffer maxWinsize undefined)) (s₀ : Stream) (out : Bytes) : Prop where
  fits : InSections s₀ → Fits s₀
  same : ∀ more, decodeInput T (Stream.feed s.stream more) = decodeInput T (s₀.feed more)
  output : s.output ++ out = whole
  deltaPos : s.deltaPos = pos
  unfailed : ∀ c ∈ s.calls, ¬ c.Failed

/-- A call that did not fail joins the others. -/
theorem unfailed_append {calls : List Call} {c : Call} (h : ∀ d ∈ calls, ¬ d.Failed)
    (hc : ¬ c.Failed) : ∀ d ∈ calls ++ [c], ¬ d.Failed := by
  intro d hd
  rcases List.mem_append.1 hd with hold | hnew
  · exact h d hold
  · rw [List.mem_singleton] at hnew
    subst hnew
    exact hc

/-- The decoder of the driver is that of xdelta3. -/
theorem decode_input_xdelta3 {st st' : Stream} {code : Ret} {ret : XRet}
    (hcode : code.toXRet = some ret) (h : decodeInput T st = (code, st')) :
    (xdelta3 T buffer maxWinsize undefined).decodeInput st = (ret, st') := by
  unfold xdelta3
  simp only [h, hcode]

variable {whole : Bytes} {pos : Nat} {s s₁ : State (xdelta3 T buffer maxWinsize undefined)}
  {s₀ : Stream}

/-- The passes over a chunk end at a request for more input. -/
def Ends (os : Os) (source rest whole : Bytes) (pos : Nat)
    (s : State (xdelta3 T buffer maxWinsize undefined)) : Prop :=
  ∃ fuel s', chunk (xdelta3 T buffer maxWinsize undefined) os source fuel s = some (.ok s') ∧
    Waits T source whole rest pos s'

/-- A round that is gone through leads to the same end. -/
theorem Ends.again (hround : round (xdelta3 T buffer maxWinsize undefined) os source s = .again s₁)
    (h : Ends os source rest whole pos s₁) : Ends os source rest whole pos s := by
  obtain ⟨fuel, s', hchunk, hwaits⟩ := h
  refine ⟨fuel + 1, s', ?_, hwaits⟩
  unfold chunk
  rw [hround]
  exact hchunk

/-- A call of the decoder either ends the passes or returns what it would return if the rest of the
input were there. -/
theorem pass_cases (h : Passing T whole pos s s₀ out)
    {call : Ret × Stream} (hdelivers : Delivers T source CHUNK True True call out)
    (hcall : decodeInput T (s₀.feed rest) = call) :
    Ends os source rest whole pos s ∨
      ∃ code st', decodeInput T s.stream = (code, st') ∧ call = (code, st'.feed rest) ∧
        code ≠ .input := by
  subst hcall
  have hone : decodeInput T s₀ = decodeInput T s.stream := by
    have hnil := h.same []
    rw [feed_nil s₀] at hnil
    exact hnil.symm.trans (congrArg (decodeInput T) (feed_nil _))
  rcases hst : decodeInput T s.stream with ⟨code, st'⟩
  rw [hst] at hone
  rcases decode_input_feed T h.fits rest with ⟨hasks, -, -⟩ | ⟨hother, hfeed⟩
  · rw [hone] at hasks
    obtain rfl : code = .input := hasks
    refine .inl ⟨1, { s with stream := st' }, ?_, ⟨out, h.output, s₀, h.fits, hone, hdelivers⟩,
      h.deltaPos, h.unfailed⟩
    unfold chunk round
    simp only [decode_input_xdelta3 rfl hst]
  · rw [hone] at hother hfeed
    exact .inr ⟨code, st', rfl, hfeed, hother⟩

/-- A pass that only takes note. -/
theorem round_notice {st' : Stream} {code : Ret} (hst : decodeInput T s.stream = (code, st'))
    (hcode : code = .gotheader ∨ code = .winstart ∨ code = .winfinish) :
    round (xdelta3 T buffer maxWinsize undefined) os source s =
      .again { s with stream := st' } := by
  unfold round
  rcases hcode with rfl | rfl | rfl
  · simp only [decode_input_xdelta3 rfl hst]
  · simp only [decode_input_xdelta3 rfl hst]
  · simp only [decode_input_xdelta3 rfl hst]

/-- A pass that writes all of the output. -/
theorem round_output (hos : Willing os buffer buffer') {st' : Stream}
    (hst : decodeInput T s.stream = (.output, st'))
    (hsize : st'.nextOut.length ≤ XD3_HARDMAXWINSIZE) (hcalls : ∀ c ∈ s.calls, ¬ c.Failed) :
    ∃ calls, (∀ c ∈ calls, ¬ c.Failed) ∧
      round (xdelta3 T buffer maxWinsize undefined) os source s = .again { s with
        stream := { st' with nextOut := [] }, output := s.output ++ st'.nextOut, calls } := by
  have hout : (xdelta3 T buffer maxWinsize undefined).nextOut st' = st'.nextOut := rfl
  unfold round
  simp only [decode_input_xdelta3 rfl hst, hout]
  by_cases hnone : st'.nextOut.length = 0
  · refine ⟨s.calls, hcalls, ?_⟩
    rw [if_pos hnone, List.eq_nil_of_length_eq_zero hnone, List.append_nil]
    rfl
  · have hwritten := hos.write s.calls.length hsize
    have hgood : ¬ (Call.write st'.nextOut.length (some st'.nextOut.length)).Failed :=
      fun hfailed => hfailed rfl
    refine ⟨s.calls ++ [.write st'.nextOut.length (some st'.nextOut.length)],
      unfailed_append hcalls hgood, ?_⟩
    rw [if_neg hnone, hwritten, if_pos rfl, take_written rfl]
    rfl

variable (source) in

/-- A pass that supplies a block of the source. -/
theorem round_source (hos : Willing os buffer buffer') {st' : Stream} {src : Source}
    (hst : decodeInput T s.stream = (.getsrcblk, st')) (hsrc : st'.src = some src)
    (hcalls : ∀ c ∈ s.calls, ¬ c.Failed) :
    ∃ bsource onblk calls, (∀ c ∈ calls, ¬ c.Failed) ∧
      Answers source CHUNK True src.getblkno bsource onblk ∧
      round (xdelta3 T buffer maxWinsize undefined) os source s = .again { s with
        stream := st'.answer bsource onblk, bsource, calls } := by
  obtain ⟨m, hm, -⟩ := hos.answer s.calls.length
  have hblkno : (xdelta3 T buffer maxWinsize undefined).getblkno st' = src.getblkno :=
    getblkno_xdelta3 hsrc
  let n : Nat := min CHUNK (source.length - CHUNK * src.getblkno)
  let bsource : Bytes := splice s.bsource 0 (slice source (CHUNK * src.getblkno) n)
  have hread : readResult (os.answer (s.calls ++ [Call.seekSource (some m)]).length) CHUNK
      (source.length - CHUNK * src.getblkno) = some n := hos.read _ _
  have hchunk : n ≤ CHUNK := Nat.min_le_left _ _
  obtain ⟨hroom, htake⟩ := take_read s.bsource
    (show n ≤ source.length - CHUNK * src.getblkno from Nat.min_le_right _ _)
  have hseek : ¬ (Call.seekSource (some m)).Failed := Option.some_ne_none m
  have hgood : ¬ (Call.readSource (some n)).Failed := Option.some_ne_none n
  refine ⟨bsource, n, s.calls ++ [.seekSource (some m)] ++ [.readSource (some n)],
    unfailed_append (unfailed_append hcalls hseek) hgood, ⟨hroom, ?_, fun _ => ?_⟩, ?_⟩
  · show bsource.take n <+: _
    rw [htake]
    exact List.take_prefix_take_left hchunk
  · rw [length_slice]
  · unfold round
    simp only [decode_input_xdelta3 rfl hst, hm, hblkno, hread, Option.getD_some]
    rw [set_block_xdelta3 hsrc, usize_t_some hchunk]

/-- The passes over a chunk come to an end. -/
theorem chunk_delivers (hos : Willing os buffer buffer') {call : Ret × Stream}
    (h : Delivers T source CHUNK True True call out) :
    ∀ {s : State (xdelta3 T buffer maxWinsize undefined)} {s₀ : Stream},
      Passing T whole pos s s₀ out →
      decodeInput T (s₀.feed rest) = call → Ends os source rest whole pos s := by
  induction h with
  | done hused hstate =>
      intro s s₀ hpass hcall
      rcases pass_cases hpass (.done hused hstate) hcall with
        hends | ⟨code, st', hst, hrest, hother⟩
      · exact hends
      · cases hrest
        exact absurd rfl hother
  | notice hret hfits hnext ih =>
      intro s s₀ hpass hcall
      rcases pass_cases hpass (.notice hret hfits hnext) hcall with
        hends | ⟨code, st', hst, hrest, -⟩
      · exact hends
      · cases hrest
        refine Ends.again (round_notice hst hret) (ih ?_ rfl)
        exact ⟨fun hsect => ⟨(hfits trivial hsect).total, (hfits trivial hsect).count⟩,
          fun _ => rfl, hpass.output, hpass.deltaPos, hpass.unfailed⟩
  | output hstate hsize hnext ih =>
      intro s s₀ hpass hcall
      rcases pass_cases hpass (.output hstate hsize hnext) hcall with
        hends | ⟨code, st', hst, hrest, -⟩
      · exact hends
      · cases hrest
        obtain ⟨calls, hcalls, hround⟩ := round_output hos hst hsize hpass.unfailed
        have houtput := hpass.output
        rw [show (st'.feed rest).nextOut = st'.nextOut from rfl, ← List.append_assoc] at houtput
        exact Ends.again hround (ih (show Passing T whole pos _ { st' with nextOut := [] } _ from
          ⟨fun hsect => absurd hsect hstate, fun _ => rfl, houtput, hpass.deltaPos, hcalls⟩) rfl)
  | source hstate hsrc hnext ih =>
      intro s s₀ hpass hcall
      rcases pass_cases hpass (.source hstate hsrc hnext) hcall with
        hends | ⟨code, st', hst, hrest, -⟩
      · exact hends
      · cases hrest
        obtain ⟨bsource, onblk, calls, hcalls, hanswer, hround⟩ :=
          round_source source hos hst hsrc hpass.unfailed
        exact Ends.again hround (ih bsource onblk hanswer
          (show Passing T whole pos _ (st'.answer bsource onblk) _ from
            ⟨fun hsect => absurd hsect hstate, fun _ => rfl, hpass.output, hpass.deltaPos, hcalls⟩)
          rfl)
  | short hshort => exact absurd trivial hshort

/-! ## The loop over the chunks -/

/-- What the read at the top of the loop gives the decoder. -/
theorem read_chunk_eq (hos : Willing os buffer buffer') (delta : Bytes)
    (s : State (xdelta3 T buffer maxWinsize undefined)) {n : Nat}
    (hn : n = min CHUNK (delta.length - s.deltaPos)) :
    ∃ bdelta, readChunk (xdelta3 T buffer maxWinsize undefined) os delta s =
      (sizeT (some n) == 0, { s with
        stream := ({ (s.stream : Stream) with availIn := slice delta s.deltaPos n } : Stream)
        bdelta
        deltaPos := s.deltaPos + n
        calls := s.calls ++ [.readDelta (some n)] }) := by
  have hread : readResult (os.answer s.calls.length) CHUNK (delta.length - s.deltaPos) = some n :=
    hn ▸ hos.read _ _
  have hchunk : n ≤ CHUNK := hn ▸ Nat.min_le_left _ _
  obtain ⟨-, htake⟩ := take_read s.bdelta
    (show n ≤ delta.length - s.deltaPos from hn ▸ Nat.min_le_right _ _)
  refine ⟨splice s.bdelta 0 (slice delta s.deltaPos n), ?_⟩
  unfold readChunk
  simp only [hread, Option.getD_some]
  have havail : (xdelta3 T buffer maxWinsize undefined).availInput
      (if (sizeT (some n) == 0) = true then
          (xdelta3 T buffer maxWinsize undefined).setFlush s.stream
        else s.stream) (splice s.bdelta 0 (slice delta s.deltaPos n)) (usizeT (some n)) =
      ({ (s.stream : Stream) with availIn := slice delta s.deltaPos n } : Stream) := by
    have hsame : (if (sizeT (some n) == 0) = true then
        (xdelta3 T buffer maxWinsize undefined).setFlush s.stream else s.stream) = s.stream :=
      ite_self _
    rw [hsame]
    show ({ (s.stream : Stream) with
      availIn := (splice s.bdelta 0 (slice delta s.deltaPos n)).take (usizeT (some n)).toNat } :
        Stream) = _
    rw [usize_t_some hchunk, htake]
  rw [havail]

/-- Only an empty read is taken for the end of the delta. -/
theorem size_t_eq_zero_iff {n : Nat} (h : n ≤ CHUNK) : (sizeT (some n) == 0) = true ↔ n = 0 := by
  have hsmall : n < 2 ^ 64 := lt_of_le_of_lt h (by decide)
  rw [beq_iff_eq]
  constructor
  · intro hzero
    have hnat := congrArg UInt64.toNat hzero
    rw [sizeT, UInt64.toNat_ofNat', Nat.mod_eq_of_lt hsmall] at hnat
    exact hnat
  · rintro rfl
    rfl

/-- The loop over the chunks comes to an end with the whole output. -/
theorem chunks_deliver (hos : Willing os buffer buffer') (left : Nat) :
    ∀ {s : State (xdelta3 T buffer maxWinsize undefined)}, delta.length - s.deltaPos = left →
      s.deltaPos ≤ delta.length → Waits T source whole (delta.drop s.deltaPos) s.deltaPos s →
      ∃ fuel s', chunks (xdelta3 T buffer maxWinsize undefined) os source delta fuel fuel s =
          some (.ok s') ∧
        Waits T source whole [] delta.length s' := by
  induction left using Nat.strong_induction_on with
  | _ left ih =>
      intro s hleft hle hwaits
      obtain ⟨n, hn⟩ : ∃ n, n = min CHUNK (delta.length - s.deltaPos) := ⟨_, rfl⟩
      obtain ⟨bdelta, hread⟩ := read_chunk_eq hos delta s hn
      obtain ⟨out, houtput, hawaits⟩ := hwaits.awaits
      have hsplit : delta.drop s.deltaPos =
          slice delta s.deltaPos n ++ delta.drop (s.deltaPos + n) := drop_eq_slice_append _ _ _
      rw [hsplit] at hawaits
      obtain ⟨s₀, hfits, hsame, hdelivers⟩ := hawaits.feed
      have hgood : ¬ (Call.readDelta (some n)).Failed := Option.some_ne_none n
      have hpass : Passing T whole (s.deltaPos + n)
          (readChunk (xdelta3 T buffer maxWinsize undefined) os delta s).2 s₀ out := by
        rw [hread]
        exact ⟨hfits, hsame, houtput, rfl, unfailed_append hwaits.unfailed hgood⟩
      obtain ⟨fuel, s₁, hchunk, hwaits₁⟩ := chunk_delivers hos hdelivers hpass rfl
      have hpos₁ := hwaits₁.deltaPos
      have hsmall : n ≤ CHUNK := hn ▸ Nat.min_le_left _ _
      by_cases hzero : n = 0
      · have hend : s.deltaPos + n = delta.length := by
          have hchunk : 0 < CHUNK := by decide
          omega
        have heof : (readChunk (xdelta3 T buffer maxWinsize undefined) os delta s).1 = true := by
          rw [hread]
          exact (size_t_eq_zero_iff hsmall).2 hzero
        refine ⟨fuel + 1, s₁, ?_, ?_⟩
        · unfold chunks
          simp only [chunk_mono (Nat.le_succ fuel) hchunk, heof, if_true]
        · rw [hend, List.drop_length] at hwaits₁
          exact hwaits₁
      · have heof : ¬ (readChunk (xdelta3 T buffer maxWinsize undefined) os delta s).1 = true := by
          rw [hread]
          exact fun hsize => hzero ((size_t_eq_zero_iff hsmall).1 hsize)
        rw [← hpos₁] at hwaits₁
        obtain ⟨fuel', s', hchunks, hend⟩ := ih (delta.length - s₁.deltaPos) (by omega) rfl
          (by omega) hwaits₁
        refine ⟨max fuel fuel' + 1, s', ?_, hend⟩
        unfold chunks
        simp only [chunk_mono (show fuel ≤ max fuel fuel' + 1 by omega) hchunk, if_neg heof]
        exact chunks_mono (by omega) (by omega) hchunks

/-- With a field that is not too large, the driver ends, and it has decoded the delta. -/
theorem dedelta_decodes_of_le (T : Bytes → Nat → Nat → Except (ErrorCode × String) (List Dinst))
    {maxWinsize : UInt64} (undefined : Stream → XRet × Stream) {whole bsource bdelta : Bytes}
    (hos : Willing os bsource bdelta) (h : vcdiff CHUNK source delta = some whole)
    (hsmall : delta.length + XD3_ALLOCSIZE ≤ 2 ^ 32) (hwinsize : maxWinsize.toNat ≤ 2 ^ 63) :
    ∃ fuel o,
      (∀ n ≥ fuel, dedelta (xdelta3 T bsource maxWinsize undefined) os source delta n = some o) ∧
      o.returns = true ∧ o.output = some whole ∧ Correct (vcdiff CHUNK) source delta o := by
  let stream : Stream := .opened (.unread bsource) []
  let s : State (xdelta3 T bsource maxWinsize undefined) := ⟨stream, bsource, bdelta, 0, [], []⟩
  have hstart : Waits T source whole (delta.drop s.deltaPos) s.deltaPos s :=
    ⟨⟨whole, rfl, awaits_opened hsmall h⟩, rfl, nofun⟩
  obtain ⟨fuel, s', hchunks, hwaits⟩ := chunks_deliver hos delta.length rfl (Nat.zero_le _) hstart
  obtain ⟨out, houtput, hawaits⟩ := hwaits.awaits
  obtain ⟨rfl, hstate⟩ := hawaits.consumed
  rw [List.append_nil] at houtput
  have hclose : (xdelta3 T bsource maxWinsize undefined).closeStream s'.stream = 0 :=
    if_pos (.inr hstate)
  refine ⟨fuel, ⟨true, some s'.output, s'.calls, some 0, ""⟩, fun n hn => ?_, rfl,
    congrArg some houtput, ⟨whole, h, congrArg some houtput⟩, rfl, hwaits.unfailed⟩
  have hmore := chunks_mono hn hn hchunks
  have hset : (xdelta3 T bsource maxWinsize undefined).setSource {} = some (0, stream) :=
    (set_source_xdelta3 {}).trans (if_pos hwinsize)
  have hready : ¬ SetupFails (xdelta3 T bsource maxWinsize undefined) os := by
    intro hfails
    cases hfails with
    | bsource hnone => cases hos.bsource.symm.trans hnone
    | bdelta hnone => cases hos.bdelta.symm.trans hnone
    | configStream hne => exact hne rfl
    | setSource hret hne =>
        cases hset.symm.trans hret
        exact hne rfl
  obtain ⟨-, b, d, hb, hd, hcall⟩ := dedelta_of_setup source delta hos.opened hready hset
  cases hos.bsource.symm.trans hb
  cases hos.bdelta.symm.trans hd
  rw [hcall, hmore, Option.map_some]
  exact congrArg some (congrArg (Outcome.mk true _ _ · "") (congrArg some hclose))

/-- The driver with the vendored decoder, on a system that answers every call in full. For every
delta that has a meaning it ends, and it has decoded the delta, unless the field that the driver
leaves uninitialised holds more than the largest power of two: then `xd3_set_source` does not
return. -/
theorem dedelta_decodes (T : Bytes → Nat → Nat → Except (ErrorCode × String) (List Dinst))
    (maxWinsize : UInt64) (undefined : Stream → XRet × Stream) {os : Os}
    {source delta whole bsource bdelta : Bytes} (hos : Willing os bsource bdelta)
    (h : vcdiff CHUNK source delta = some whole) (hsmall : delta.length + XD3_ALLOCSIZE ≤ 2 ^ 32) :
    (maxWinsize.toNat ≤ 2 ^ 63 → ∃ fuel o,
      (∀ n ≥ fuel, dedelta (xdelta3 T bsource maxWinsize undefined) os source delta n = some o) ∧
      o.returns = true ∧ o.output = some whole ∧ Correct (vcdiff CHUNK) source delta o) ∧
    (2 ^ 63 < maxWinsize.toNat →
      ∀ n, dedelta (xdelta3 T bsource maxWinsize undefined) os source delta n = none) := by
  refine ⟨dedelta_decodes_of_le T undefined hos h hsmall, fun hwinsize n => ?_⟩
  have hset : (xdelta3 T bsource maxWinsize undefined).setSource {} = none :=
    (set_source_xdelta3 {}).trans (if_neg (Nat.not_le_of_gt hwinsize))
  refine dedelta_of_set_source_none source delta hos.opened (fun hfails => ?_) hset n
  cases hfails with
  | bsource hnone => cases hos.bsource.symm.trans hnone
  | bdelta hnone => cases hos.bdelta.symm.trans hnone
  | configStream hne => exact hne rfl
  | setSource hret _ => cases hset.symm.trans hret

end Passes

/-- A system that answers every call in full. -/
def willingOs : Os := ⟨true, some [], some [], fun _ => some XD3_HARDMAXWINSIZE⟩

/-- A value of the field with which `xd3_set_source` returns. -/
theorem dedelta_decodes_add_copy : ∃ fuel o,
    (∀ n ≥ fuel,
      dedelta (xdelta3 (fun _ _ _ => .error (.unimplemented, "")) [] 1000 fun st => (.error, st))
        willingOs [0, 1, 2, 3, 4, 5, 6, 7, 8, 9] addCopyDelta n = some o) ∧
    o.returns = true ∧ o.output = some [97, 98, 99, 2, 3, 4, 5] ∧
    Correct (vcdiff CHUNK) [0, 1, 2, 3, 4, 5, 6, 7, 8, 9] addCopyDelta o :=
  (dedelta_decodes _ 1000 _ ⟨rfl, rfl, rfl, fun _ => ⟨XD3_HARDMAXWINSIZE, rfl, le_rfl⟩⟩
    (by decide +kernel) (by decide)).1 (by decide)

end NamelessCenter.Delta
