import NamelessCenter.Vcdiff.Protocol

/-!
# The delta decoder driver of delta.c

`dedelta` runs the decoder over the chunks of a delta file. `round` is one pass from the label
`process` to the next `goto` or `continue`, `chunk` the loop those gotos form, and `chunks` the
outer `do`/`while`. Every read, seek and write takes its result from the operating system's
answers, and the calls with their results are recorded. `dedelta_correct_iff` says when a call
that returns 1 has decoded the delta: the driver does not look at the closing status of the
decoder, nor at a failed read.
-/

namespace NamelessCenter.Delta

open Bytes Native

/-- A call to the operating system with its result; `none` is -1. -/
inductive Call where
  | readDelta (result : Option Nat)
  | seekSource (result : Option Nat)
  | readSource (result : Option Nat)
  | write (count : Nat) (result : Option Nat)
  deriving DecidableEq, Repr

/-- A call that did not do what it was asked for. A read may be short. -/
def Call.Failed : Call → Prop
  | .readDelta result | .seekSource result | .readSource result => result = none
  | .write count result => result ≠ some count

/-- A read that returned -1. -/
def Call.ReadFailed : Call → Prop
  | .readDelta result | .readSource result => result = none
  | .seekSource _ | .write _ _ => False

/-- Only a failed read lets the driver go on. -/
theorem Call.failed_of_read_failed {c : Call} (h : c.ReadFailed) : c.Failed := by
  cases c with
  | readDelta result => exact h
  | readSource result => exact h
  | seekSource result => exact h.elim
  | write count result => exact h.elim

/-- The operating system: whether the files could be opened, the buffers it allocates, if any, with
their initial contents, and the answers to the calls of the driver. -/
structure Os where
  opened : Bool
  bsource : Option Bytes
  bdelta : Option Bytes
  answer : Nat → Option Nat

/-- A read returns at least one byte before the end of the file, and never more than it is asked
for or than there is. -/
def readResult (answer : Option Nat) (wanted available : Nat) : Option Nat :=
  answer.map fun n => min (max n 1) (min wanted available)

/-- A write stores at most what it is given. -/
def writeResult (answer : Option Nat) (count : Nat) : Option Nat :=
  answer.map fun n => min n count

/-- A result of `read` stored in a `usize_t`. -/
def usizeT : Option Nat → UInt32
  | some n => UInt32.ofNat n
  | none => UInt32.ofNat (2 ^ 32 - 1)

/-- The variables of the driver with the calls made so far. -/
structure State (X : Xd3) where
  stream : X.Stream
  bsource : Bytes
  bdelta : Bytes
  deltaPos : Nat
  output : Bytes
  calls : List Call

/-- How a pass through the `switch` ends. -/
inductive Round (X : Xd3) where
  | again (s : State X)
  | needInput (s : State X)
  | failed (message : String) (s : State X)

section Driver

variable (X : Xd3) (os : Os) (source delta : Bytes)

/-- One pass from `process:` through the `switch`. -/
def round (s : State X) : Round X :=
  match X.decodeInput s.stream with
  | (.input, stream) => .needInput { s with stream }
  | (.output, stream) =>
      let out := X.nextOut stream
      if out.length = 0 then .again { s with stream := X.consumeOutput stream }
      else
        let written := writeResult (os.answer s.calls.length) out.length
        let output := s.output ++ out.take (written.getD 0)
        let calls := s.calls ++ [.write out.length written]
        if written = some out.length then
          .again { s with stream := X.consumeOutput stream, output, calls }
        else .failed "Write error" { s with stream, output, calls }
  | (.getsrcblk, stream) =>
      let sought := os.answer s.calls.length
      let calls := s.calls ++ [.seekSource sought]
      match sought with
      | none => .failed "Seek error" { s with stream, calls }
      | some _ =>
          let pos := CHUNK * X.getblkno stream
          let r := readResult (os.answer calls.length) CHUNK (source.length - pos)
          let bsource := splice s.bsource 0 (slice source pos (r.getD 0))
          -- `onblk` is unsigned: a failed read announces 2^32 - 1 bytes of old buffer contents.
          let stream := X.setBlock stream bsource (usizeT r) (X.getblkno stream)
          .again { s with stream, bsource, calls := calls ++ [.readSource r] }
  | (.gotheader, stream) => .again { s with stream }
  | (.winstart, stream) => .again { s with stream }
  | (.winfinish, stream) => .again { s with stream }
  | (.error, stream) => .failed "Error #3" { s with stream }

/-- The passes over one chunk, for at most the given number. -/
def chunk : Nat → State X → Option (Except (String × State X) (State X))
  | 0, _ => none
  | fuel + 1, s =>
      match round X os source s with
      | .again s => chunk fuel s
      | .needInput s => some (.ok s)
      | .failed message s => some (.error (message, s))

/-- The read at the top of the outer loop. The flag says that the end of the delta was reached. -/
def readChunk (s : State X) : Bool × State X :=
  let r := readResult (os.answer s.calls.length) CHUNK (delta.length - s.deltaPos)
  -- `r` is a `size_t`: `r <= 0` is true at the end of the file only.
  let eof := sizeT r == 0
  let bdelta := splice s.bdelta 0 (slice delta s.deltaPos (r.getD 0))
  let stream := if eof then X.setFlush s.stream else s.stream
  (eof,
    { s with
      stream := X.availInput stream bdelta (usizeT r)
      bdelta
      deltaPos := s.deltaPos + r.getD 0
      calls := s.calls ++ [.readDelta r] })

/-- The outer loop, for at most the given number of chunks. -/
def chunks (inner : Nat) : Nat → State X → Option (Except (String × State X) (State X))
  | 0, _ => none
  | fuel + 1, s =>
      let (eof, s) := readChunk X os delta s
      match chunk X os source inner s with
      | none => none
      | some (.error failure) => some (.error failure)
      | some (.ok s) => if eof then some (.ok s) else chunks inner fuel s

/-- The return value of `dedelta`, with the output file, the calls made and, when the driver got as
far, the status of `xd3_close_stream`, which it ignores. -/
structure Outcome where
  returns : Bool
  output : Option Bytes
  calls : List Call
  closeStatus : Option Int
  message : String
  deriving DecidableEq

/-- `dedelta`, where every loop gets `fuel` rounds. -/
def dedelta (fuel : Nat) : Option Outcome :=
  if os.opened = false then some ⟨false, none, [], none, ""⟩
  else
    match os.bsource, os.bdelta with
    | none, _ => some ⟨false, some [], [], none, "Malloc failed"⟩
    | some _, none => some ⟨false, some [], [], none, "Malloc failed"⟩
    | some bsource, some bdelta =>
        if X.configStream.1 ≠ 0 then some ⟨false, some [], [], none, "Error #1"⟩
        else
          match X.setSource X.configStream.2 with
          | none => none
          | some (ret, stream) =>
              if ret ≠ 0 then some ⟨false, some [], [], none, "Error #2"⟩
              else
                match chunks X os source delta fuel fuel ⟨stream, bsource, bdelta, 0, [], []⟩ with
                | none => none
                | some (.error (message, s)) =>
                    some ⟨false, some s.output, s.calls, none, message⟩
                | some (.ok s) =>
                    some ⟨true, some s.output, s.calls, some (X.closeStream s.stream), ""⟩

end Driver

/-! ## What a pass does -/

section Passes

variable {X : Xd3} {os : Os} {vcdiff : Bytes → Bytes → Option Bytes} {source delta : Bytes}
  {inv : X.Stream → XPhase → Bytes → Bytes → Prop}

/-- What the driver knows when the decoder waits in `phase` after `pos` bytes of the delta: only
reads have failed so far, and if none has, the decoder was given these bytes and the output file
holds what it has delivered. -/
structure Inv (inv : X.Stream → XPhase → Bytes → Bytes → Prop) (delta : Bytes) (pos : Nat)
    (phase : XPhase) (s : State X) : Prop where
  deltaPos : s.deltaPos = pos
  benign : ∀ c ∈ s.calls, c.Failed → c.ReadFailed
  faithful : (∀ c ∈ s.calls, ¬ c.ReadFailed) →
    pos ≤ delta.length ∧ inv s.stream phase (delta.take pos) s.output

/-- An invariant about the calls made so far survives a call that is either good or a failed
read. -/
theorem benign_append {calls : List Call} {c : Call}
    (hcalls : ∀ d ∈ calls, d.Failed → d.ReadFailed) (hc : c.Failed → c.ReadFailed) :
    ∀ d ∈ calls ++ [c], d.Failed → d.ReadFailed := by
  intro d hd
  rcases List.mem_append.1 hd with hold | hnew
  · exact hcalls d hold
  · rw [List.mem_singleton] at hnew
    subst hnew
    exact hc

/-- If no read up to a call has failed, none before it has. -/
theorem unfailed_of_append {calls : List Call} {c : Call}
    (h : ∀ d ∈ calls ++ [c], ¬ d.ReadFailed) :
    (∀ d ∈ calls, ¬ d.ReadFailed) ∧ ¬ c.ReadFailed :=
  ⟨fun d hd => h d (List.mem_append_left _ hd),
    h c (List.mem_append_right _ (List.mem_singleton_self c))⟩

/-- A read gives no more than is wanted, nor than there is. -/
theorem read_result_le {answer : Option Nat} {wanted available n : Nat}
    (h : readResult answer wanted available = some n) : n ≤ wanted ∧ n ≤ available := by
  obtain ⟨m, -, rfl⟩ := Option.map_eq_some_iff.1 h
  omega

/-- The count of a successful read, stored in a `usize_t`, is the length of what was read. -/
theorem usize_t_some {n : Nat} (h : n ≤ CHUNK) : (usizeT (some n)).toNat = n := by
  rw [usizeT, UInt32.toNat_ofNat', Nat.mod_eq_of_lt]
  simp only [CHUNK] at h
  omega

/-- Reading into a buffer from its start leaves the bytes read in front. -/
theorem take_splice_zero (buffer data : Bytes) :
    (splice buffer 0 data).take data.length = data := by
  by_cases hnil : data = []
  · simp [hnil]
  · simp [splice, hnil]

/-- A buffer behind a read of `n` bytes has room for them and begins with them. -/
theorem take_read (buffer : Bytes) {file : Bytes} {pos n : Nat} (havail : n ≤ file.length - pos) :
    n ≤ (splice buffer 0 (slice file pos n)).length ∧
      (splice buffer 0 (slice file pos n)).take n = slice file pos n := by
  have hlen : (slice file pos n).length = n := by
    rw [length_slice]
    omega
  have htake := take_splice_zero buffer (slice file pos n)
  rw [hlen] at htake
  refine ⟨?_, htake⟩
  have hle := congrArg List.length htake
  rw [List.length_take, hlen] at hle
  omega

/-- What a write stores of its buffer, when it stores all of it. -/
theorem take_written {out : Bytes} {written : Option Nat} (h : written = some out.length) :
    out.take (written.getD 0) = out := by
  rw [h, Option.getD_some, List.take_length]

/-- A pass that goes on keeps the invariant, and so does one that needs input. -/
theorem round_preserves (hX : Xd3.Protocol X vcdiff source inv) (os : Os) {pos : Nat}
    {s : State X} (hs : Inv inv delta pos .run s) :
    (∀ s', round X os source s = .again s' → Inv inv delta pos .run s') ∧
      ∀ s', round X os source s = .needInput s' → Inv inv delta pos .input s' := by
  rcases hcall : X.decodeInput s.stream with ⟨ret, stream⟩
  unfold round
  simp only [hcall]
  cases ret with
  | input =>
      refine ⟨nofun, fun s' h => ?_⟩
      cases h
      exact ⟨hs.deltaPos, hs.benign, fun hreads => ⟨(hs.faithful hreads).1,
        hX.needInput (hs.faithful hreads).2 hcall⟩⟩
  | output =>
      refine ⟨fun s' h => ?_, fun s' h => ?_⟩
      · simp only at h
        split at h
        · rename_i hnone
          cases h
          refine ⟨hs.deltaPos, hs.benign, fun hreads => ⟨(hs.faithful hreads).1, ?_⟩⟩
          have hmade := hX.consume (hX.haveOutput (hs.faithful hreads).2 hcall)
          rwa [List.eq_nil_of_length_eq_zero hnone, List.append_nil] at hmade
        · split at h
          · rename_i hwritten
            cases h
            refine ⟨hs.deltaPos, benign_append hs.benign fun hfailed => absurd hwritten hfailed,
              fun hreads => ?_⟩
            obtain ⟨hpos, hstream⟩ := hs.faithful (unfailed_of_append hreads).1
            refine ⟨hpos, ?_⟩
            have hmade := hX.consume (hX.haveOutput hstream hcall)
            show inv _ _ _ (s.output ++ _)
            rwa [take_written hwritten]
          · cases h
      · simp only at h
        split at h
        · cases h
        · split at h
          · cases h
          · cases h
  | getsrcblk =>
      refine ⟨fun s' h => ?_, fun s' h => ?_⟩
      · simp only at h
        split at h
        · cases h
        · rename_i answer hsought
          cases h
          refine ⟨hs.deltaPos, benign_append (benign_append hs.benign fun hfailed => ?_) id,
            fun hreads => ?_⟩
          · rw [hsought] at hfailed
            cases hfailed
          · obtain ⟨hbefore, hread⟩ := unfailed_of_append hreads
            obtain ⟨hpos, hstream⟩ := hs.faithful (unfailed_of_append hbefore).1
            refine ⟨hpos, ?_⟩
            obtain ⟨n, hn⟩ := Option.ne_none_iff_exists'.1 hread
            obtain ⟨hchunk, havail⟩ := read_result_le hn
            obtain ⟨hroom, htake⟩ := take_read s.bsource havail
            simp only [hn, Option.getD_some]
            -- The block may be short; what it holds is the start of the source block.
            refine hX.block _ _ (hX.needSource hstream hcall) ?_ ?_
            · rw [usize_t_some hchunk]
              exact hroom
            · rw [usize_t_some hchunk, htake]
              exact List.take_prefix_take_left hchunk
      · simp only at h
        split at h
        · cases h
        · cases h
  | gotheader | winstart | winfinish =>
      refine ⟨fun s' h => ?_, nofun⟩
      cases h
      exact ⟨hs.deltaPos, hs.benign, fun hreads => ⟨(hs.faithful hreads).1,
        hX.notice (hs.faithful hreads).2 hcall (by simp)⟩⟩
  | error => exact ⟨nofun, nofun⟩

/-- The passes over a chunk keep the invariant. -/
theorem chunk_preserves (hX : Xd3.Protocol X vcdiff source inv) {pos fuel : Nat}
    {s s' : State X} (hs : Inv inv delta pos .run s)
    (h : chunk X os source fuel s = some (.ok s')) : Inv inv delta pos .input s' := by
  induction fuel generalizing s with
  | zero => cases h
  | succ fuel ih =>
      obtain ⟨hagain, hneed⟩ := round_preserves hX os hs
      unfold chunk at h
      cases hround : round X os source s with
      | again next =>
          simp only [hround] at h
          exact ih (hagain next hround) h
      | needInput next =>
          simp only [hround, Option.some.injEq, Except.ok.injEq] at h
          subst h
          exact hneed next hround
      | failed message next => simp [hround] at h

/-- The read at the top of the loop keeps the invariant, and when it sees the end of the delta
without a failed read, the whole delta was given to the decoder. -/
theorem read_chunk_preserves (hX : Xd3.Protocol X vcdiff source inv) (os : Os) {pos : Nat}
    {s : State X} (hs : Inv inv delta pos .input s) :
    ∃ pos', Inv inv delta pos' .run (readChunk X os delta s).2 ∧
      ((readChunk X os delta s).1 = true → delta.length ≤ pos') := by
  have hdeltaPos := hs.deltaPos
  refine ⟨pos + (readResult (os.answer s.calls.length) CHUNK (delta.length - s.deltaPos)).getD 0,
    ⟨?_, ?_, ?_⟩, ?_⟩
  · rw [← hdeltaPos]
    rfl
  · exact benign_append hs.benign id
  · intro hreads
    obtain ⟨hbefore, hread⟩ := unfailed_of_append hreads
    obtain ⟨hpos, hstream⟩ := hs.faithful hbefore
    obtain ⟨n, hn⟩ := Option.ne_none_iff_exists'.1 hread
    obtain ⟨hchunk, havail⟩ := read_result_le hn
    unfold readChunk
    simp only [hn, Option.getD_some]
    rw [hdeltaPos]
    refine ⟨by omega, ?_⟩
    rw [hdeltaPos] at havail
    obtain ⟨hroom, htake⟩ := take_read s.bdelta havail
    have hflushed : inv (if sizeT (some n) == 0 then X.setFlush s.stream else s.stream) .input
        (delta.take pos) s.output := by
      split
      · exact hX.flush hstream
      · exact hstream
    have hfed := hX.feed (splice s.bdelta 0 (slice delta pos n)) (usizeT (some n)) hflushed
      (by rw [usize_t_some hchunk]; exact hroom)
    rw [usize_t_some hchunk, htake] at hfed
    have hgrown : delta.take pos ++ slice delta pos n = delta.take (pos + n) :=
      List.take_add.symm
    rwa [hgrown] at hfed
  · intro heof
    have hzero : sizeT (readResult (os.answer s.calls.length) CHUNK
        (delta.length - s.deltaPos)) = 0 := by
      simpa [readChunk] using heof
    cases hread : readResult (os.answer s.calls.length) CHUNK (delta.length - s.deltaPos) with
    | none =>
        rw [hread] at hzero
        exact absurd hzero (by decide)
    | some n =>
        obtain ⟨hchunk, -⟩ := read_result_le hread
        simp only [CHUNK] at hchunk
        have hn : n = 0 := by
          have hnat := congrArg UInt64.toNat (hread ▸ hzero)
          rw [sizeT, UInt64.toNat_ofNat', Nat.mod_eq_of_lt (by omega)] at hnat
          exact hnat
        obtain ⟨m, -, hm⟩ := Option.map_eq_some_iff.1 hread
        have hchunk' : 0 < CHUNK := by decide
        omega

/-- A driver loop that ends at the end of the delta has kept the invariant and, if no read has
failed, has given the whole delta to the decoder. -/
theorem chunks_preserve (hX : Xd3.Protocol X vcdiff source inv) {inner fuel pos : Nat}
    {s s' : State X} (hs : Inv inv delta pos .input s)
    (h : chunks X os source delta inner fuel s = some (.ok s')) :
    ∃ pos', Inv inv delta pos' .input s' ∧ delta.length ≤ pos' := by
  induction fuel generalizing s pos with
  | zero => cases h
  | succ fuel ih =>
      obtain ⟨pos₁, hread, heof⟩ := read_chunk_preserves hX os hs
      unfold chunks at h
      simp only at h
      cases hchunk : chunk X os source inner (readChunk X os delta s).2 with
      | none => simp [hchunk] at h
      | some result =>
          cases result with
          | error failure => simp [hchunk] at h
          | ok s₁ =>
              have hs₁ := chunk_preserves hX hread hchunk
              simp only [hchunk] at h
              split at h
              · rename_i hend
                cases h
                exact ⟨pos₁, hs₁, heof hend⟩
              · exact ih hs₁ h

end Passes

/-! ## Calls that return 1 -/

/-- What a return value of 1 should mean: the delta is a complete stream, so that the decoder closes
normally, the output file is its decoding, and no call has failed. -/
structure Correct (vcdiff : Bytes → Bytes → Option Bytes) (source delta : Bytes) (o : Outcome) :
    Prop where
  decoded : ∃ whole, vcdiff source delta = some whole ∧ o.output = some whole
  closed : o.closeStatus = some 0
  unfailed : ∀ c ∈ o.calls, ¬ c.Failed

/-- A call that returns 1 has decoded the delta exactly if the delta is a complete stream and no
read has failed. -/
theorem dedelta_correct_iff {X : Xd3} {vcdiff : Bytes → Bytes → Option Bytes}
    (hX : X.Sound vcdiff) {os : Os} {source delta : Bytes} {fuel : Nat} {o : Outcome}
    (hrun : dedelta X os source delta fuel = some o) (hreturns : o.returns = true) :
    Correct vcdiff source delta o ↔
      (∃ whole, vcdiff source delta = some whole) ∧ ∀ c ∈ o.calls, ¬ c.ReadFailed := by
  constructor
  · intro h
    obtain ⟨whole, hwhole, -⟩ := h.decoded
    exact ⟨⟨whole, hwhole⟩, fun c hc hread => h.unfailed c hc (Call.failed_of_read_failed hread)⟩
  · rintro ⟨⟨whole, hwhole⟩, hreads⟩
    obtain ⟨inv, hprotocol⟩ := hX source
    unfold dedelta at hrun
    split at hrun
    · cases hrun
      cases hreturns
    · split at hrun
      · cases hrun
        cases hreturns
      · cases hrun
        cases hreturns
      · rename_i bsource bdelta _ _
        split at hrun
        · cases hrun
          cases hreturns
        · rename_i hconfig
          rw [not_not] at hconfig
          rcases hset : X.setSource X.configStream.2 with _ | ⟨ret, stream⟩
          · simp [hset] at hrun
          simp only [hset] at hrun
          split at hrun
          · cases hrun
            cases hreturns
          · rename_i hret
            rw [not_not] at hret
            subst hret
            have hstart : Inv inv delta 0 .input ⟨stream, bsource, bdelta, 0, [], []⟩ :=
              ⟨rfl, nofun, fun _ => ⟨Nat.zero_le _, hprotocol.start stream hconfig hset⟩⟩
            split at hrun
            · cases hrun
            · cases hrun
              cases hreturns
            · rename_i s' hloop
              cases hrun
              obtain ⟨pos, hinv, hend⟩ := chunks_preserve hprotocol hstart hloop
              obtain ⟨hle, hstream⟩ := hinv.faithful hreads
              rw [List.take_of_length_le hend] at hstream
              refine ⟨⟨whole, hwhole, ?_⟩, ?_, fun c hc hfailed =>
                hreads c hc (hinv.benign c hc hfailed)⟩
              · rw [hprotocol.complete hstream hwhole]
              · by_contra hclose
                have hnone := hprotocol.closed hstream fun hzero => hclose (congrArg some hzero)
                rw [hwhole] at hnone
                cases hnone

/-- A system that opens the files, allocates the buffers and answers every call in full. -/
def plainOs : Os := ⟨true, some [], some [], fun _ => some CHUNK⟩

/-- The vendored decoder without code tables of its own, with the value 0 in the field that the
driver does not initialise. -/
def plainDecoder : Xd3 :=
  Vcdiff.xdelta3 (fun _ _ _ => .error (.unimplemented, "")) [] 0 fun st => (.error, st)

/-- What the decoder without a block cache gives out is what the delta means. -/
theorem plain_decoder_sound : plainDecoder.Sound Vcdiff.smallVcdiff :=
  (Vcdiff.xdelta3_sound _ [] 0 _).sound

/-- A delta with one window, which adds three bytes and copies four of the source. -/
theorem dedelta_add_copy : ∃ o,
    dedelta plainDecoder plainOs [0, 1, 2, 3, 4, 5, 6, 7, 8, 9] Vcdiff.addCopyDelta 6 = some o ∧
      o.output = some [97, 98, 99, 2, 3, 4, 5] ∧
      Correct Vcdiff.smallVcdiff [0, 1, 2, 3, 4, 5, 6, 7, 8, 9] Vcdiff.addCopyDelta o := by
  have hrun : dedelta plainDecoder plainOs [0, 1, 2, 3, 4, 5, 6, 7, 8, 9] Vcdiff.addCopyDelta 6 =
      some ⟨true, some [97, 98, 99, 2, 3, 4, 5],
        [.readDelta (some 20), .seekSource (some CHUNK), .readSource (some 10),
          .write 7 (some 7), .readDelta (some 0)], some 0, ""⟩ := by
    decide +kernel
  refine ⟨_, hrun, rfl, (dedelta_correct_iff plain_decoder_sound hrun rfl).2 ⟨?_, ?_⟩⟩
  · exact ⟨[97, 98, 99, 2, 3, 4, 5], by decide +kernel⟩
  · intro c hc
    simp only [List.mem_cons, List.not_mem_nil, or_false] at hc
    rcases hc with rfl | rfl | rfl | rfl | rfl
    · exact nofun
    · exact id
    · exact nofun
    · exact id
    · exact nofun

/-- A delta that ends inside its header is accepted: the driver returns 1 and leaves an empty output
file, although the decoder's closing status is an error. -/
theorem dedelta_accepts_truncated :
    plainDecoder.Sound Vcdiff.smallVcdiff ∧
      Vcdiff.smallVcdiff [1, 2, 3] [0xd6, 0xc3, 0xc4, 0] = none ∧
      ∃ o, dedelta plainDecoder plainOs [1, 2, 3] [0xd6, 0xc3, 0xc4, 0] 2 = some o ∧
        o.returns = true ∧ o.output = some [] ∧ o.closeStatus = some (-17710) ∧
        ¬ Correct Vcdiff.smallVcdiff [1, 2, 3] [0xd6, 0xc3, 0xc4, 0] o := by
  refine ⟨plain_decoder_sound, by decide +kernel,
    ⟨true, some [], [.readDelta (some 4), .readDelta (some 0)], some (-17710), ""⟩, ?_, rfl, rfl,
    rfl, ?_⟩
  · decide +kernel
  · intro h
    cases h.closed

end NamelessCenter.Delta
