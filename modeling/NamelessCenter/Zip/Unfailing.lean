import NamelessCenter.Zip.Faults

/-!
# zipadjust when nothing fails

On an operating system that answers every call in full, `zipadjustOn` is `zipadjust`, by
`zipadjust_on_of_full`. The proof follows the parts of the function: each of them does to the two
open files what the part of `zipadjust` with the same name does to their contents.
-/

namespace NamelessCenter.Zip

open Bytes Native
open Delta (readResult writeResult)

/-- Every call succeeds, and reads and writes move all that they are asked to. -/
def Answers.Full (os : Answers) : Prop := ∀ n, ∃ k, os n = some k ∧ 2 ^ 64 ≤ k

section Unfailing

variable {os : Answers}

/-! ## Calls -/

/-- A read gives what it is asked for, or what there is. -/
theorem read_result_full (hos : os.Full) (n available : Nat) {wanted : Nat}
    (hwanted : wanted ≤ 2 ^ 64) :
    readResult (os n) wanted available = some (min wanted available) := by
  obtain ⟨k, hk, hlarge⟩ := hos n
  rw [hk, readResult, Option.map_some]
  exact congrArg some (by omega)

/-- A write takes all it is given. -/
theorem write_result_full (hos : os.Full) (n : Nat) {count : Nat} (hcount : count ≤ 2 ^ 64) :
    writeResult (os n) count = some count := by
  obtain ⟨k, hk, hlarge⟩ := hos n
  rw [hk, writeResult, Option.map_some]
  exact congrArg some (by omega)

/-- A seek succeeds. -/
theorem is_some_full (hos : os.Full) (n : Nat) : (os n).isSome = true := by
  obtain ⟨k, hk, -⟩ := hos n
  rw [hk, Option.isSome_some]

/-- A read fails exactly if the file is too short. -/
theorem seek_read_fails_full (hos : os.Full) (k available : Nat) {wanted : Nat}
    (hwanted : wanted ≤ 2 ^ 64) : SeekReadFails os k wanted available ↔ available < wanted := by
  obtain ⟨n, hn, -⟩ := hos k
  rw [SeekReadFails, hn, read_result_full hos _ _ hwanted, ne_eq, Option.some.injEq]
  simp only [reduceCtorEq, false_or]
  omega

/-- A write does not fail. -/
theorem not_seek_write_fails_full (hos : os.Full) (k : Nat) {count : Nat}
    (hcount : count ≤ 2 ^ 64) : ¬ SeekWriteFails os k count := by
  obtain ⟨n, hn, -⟩ := hos k
  rw [SeekWriteFails, hn, write_result_full hos _ hcount]
  simp

/-- A read gives as many bytes as it is asked for. -/
theorem length_of_xseekread {fd buf : Bytes} {offset bytes : Nat}
    (h : xseekread fd offset bytes = some buf) : buf.length = bytes := by
  unfold xseekread at h
  split at h
  · rename_i hlength
    cases h
    exact hlength
  · cases h

/-- A positioned read has the result it has on a regular file. -/
theorem xseekread_on_full (hos : os.Full) (s : Fds) (offset : Nat) {bytes : Nat}
    (hbytes : bytes ≤ 2 ^ 64) :
    ∃ s', xseekreadOn os s offset bytes = (xseekread s.input offset bytes, s') ∧
      s'.input = s.input ∧ s'.output = s.output := by
  have hlen := length_slice s.input offset bytes
  unfold xseekread
  by_cases hshort : s.input.length - offset < bytes
  · rw [if_neg (by omega), xseekreadOn, seekIn]
    obtain ⟨n, hn, -⟩ := hos s.calls
    simp only [hn, answeringDevice, read_result_full hos _ _ hbytes, Option.map_some]
    have hread : (slice s.input offset (min bytes (s.input.length - offset))).length ≠ bytes := by
      rw [length_slice]
      omega
    rw [if_neg hread]
    exact ⟨_, rfl, rfl, rfl⟩
  · have hfine : ¬ SeekReadFails os s.calls bytes (s.input.length - offset) := by
      rwa [seek_read_fails_full hos _ _ hbytes]
    rw [if_pos (by omega), xseekread_on_of_not_fails hfine]
    exact ⟨_, rfl, rfl, rfl⟩

/-! ## Transfers -/

/-- The calls on one device have the results that they have on another one, up to a part of the
state. A read succeeds there, and the lengths are those of buffers. -/
structure Simulates {σ τ : Type} (io : Device σ) (io' : Device τ) (erase : σ → τ) : Prop where
  read : ∀ s wanted, wanted ≤ CHUNK → ∃ data s', io.read s wanted = (some data, s') ∧
    io'.read (erase s) wanted = (some data, erase s')
  write : ∀ s (buf : Bytes) (count : UInt64), count.toNat ≤ buf.length →
    ∃ written s', io.write s buf count = (written, s') ∧
      io'.write (erase s) buf count = (written, erase s')

section Simulation

variable {σ τ : Type} {io : Device σ} {io' : Device τ} {erase : σ → τ}

/-- The end of a loop on the other device. -/
abbrev erased {α : Type} (erase : σ → τ) (result : Option (α × σ)) : Option (α × τ) :=
  result.map fun r => (r.1, erase r.2)

/-- The copy loop does the same on the device it simulates. -/
theorem xfilecopy_loop_simulates (h : Simulates io io' erase) (fuel : Nat) (left : UInt64) (s : σ) :
    xfilecopyLoop io' fuel left (erase s) = erased erase (xfilecopyLoop io fuel left s) := by
  induction fuel generalizing left s with
  | zero => rfl
  | succ fuel ih =>
      unfold xfilecopyLoop
      by_cases hleft : left = 0
      · rw [if_pos hleft, if_pos hleft]
        rfl
      have hwanted : (if left.toNat < CHUNK then left.toNat else CHUNK) ≤ CHUNK := by
        split <;> omega
      obtain ⟨data, s₁, hread, hread'⟩ := h.read s _ hwanted
      have hcount : (sizeT (some data.length)).toNat ≤ data.length := by
        rw [sizeT, UInt64.toNat_ofNat']
        exact Nat.mod_le _ _
      obtain ⟨written, s₂, hwrite, hwrite'⟩ := h.write s₁ data _ hcount
      rw [if_neg hleft, if_neg hleft]
      simp only [hread, hread', Option.map_some, Option.getD_some]
      by_cases hr : sizeT (some data.length) = 0
      · rw [if_pos hr, if_pos hr]
        rfl
      rw [if_neg hr, if_neg hr]
      simp only [hwrite, hwrite']
      split
      · exact ih _ s₂
      · rfl

/-- So does the inner loop of the inflation. -/
theorem inflate_loop_simulates (h : Simulates io io' erase) (Z : Inflater) (fuel : Nat)
    (strm : Z.Strm) (nextIn : Bytes) (s : σ) :
    inflateLoop Z io' fuel strm nextIn (erase s) =
      erased erase (inflateLoop Z io fuel strm nextIn s) := by
  induction fuel generalizing strm nextIn s with
  | zero => rfl
  | succ fuel ih =>
      rcases hcall : Z.inflate strm nextIn CHUNK with ⟨ret, used, out, strm'⟩
      have hcount : (UInt64.ofNat out.length).toNat ≤ out.length := by
        rw [UInt64.toNat_ofNat']
        exact Nat.mod_le _ _
      obtain ⟨written, s', hwrite, hwrite'⟩ := h.write s out _ hcount
      simp only [inflateLoop, hcall, hwrite, hwrite']
      split
      · split
        · split
          · exact ih _ _ s'
          · rfl
        · rfl
      · rfl

/-- So does the outer one. -/
theorem xdecompress_loop_simulates (h : Simulates io io' erase) (Z : Inflater) (inner fuel : Nat)
    (ret : ZRet) (strm : Z.Strm) (s : σ) :
    xdecompressLoop Z io' inner fuel ret strm (erase s) =
      erased erase (xdecompressLoop Z io inner fuel ret strm s) := by
  induction fuel generalizing ret strm s with
  | zero => rfl
  | succ fuel ih =>
      obtain ⟨data, s', hread, hread'⟩ := h.read s CHUNK (Nat.le_refl _)
      unfold xdecompressLoop
      rw [hread, hread']
      cases data with
      | nil => rfl
      | cons b bs =>
          simp only [inflate_loop_simulates h]
          rcases inflateLoop Z io inner strm (b :: bs) s' with _ | ⟨_ | ⟨ret', strm'⟩, s''⟩
          · rfl
          · rfl
          · simp only [Option.map_some]
            split
            · rfl
            · exact ih _ _ s''

end Simulation

section Preservation

variable {σ : Type} {io : Device σ} {I : σ → Prop}
  (hread : ∀ s wanted, I s → I (io.read s wanted).2)
  (hwrite : ∀ s buf count, I s → I (io.write s buf count).2)

include hread hwrite in

/-- What every call preserves, a copy preserves. -/
theorem xfilecopy_loop_preserves {fuel : Nat} {left : UInt64} {s s' : σ} {ok : Bool} (hs : I s)
    (h : xfilecopyLoop io fuel left s = some (ok, s')) : I s' := by
  induction fuel generalizing left s with
  | zero => cases h
  | succ fuel ih =>
      unfold xfilecopyLoop at h
      simp only at h
      split at h
      · cases h
        exact hs
      · generalize (if left.toNat < CHUNK then left.toNat else CHUNK) = wanted at h
        split at h
        · cases h
          exact hread _ _ hs
        · split at h
          · exact ih (hwrite _ _ _ (hread _ _ hs)) h
          · cases h
            exact hwrite _ _ _ (hread _ _ hs)

include hwrite in

/-- What the device keeps, the inner loop keeps. -/
theorem inflate_loop_preserves {Z : Inflater} {fuel : Nat} {strm : Z.Strm} {nextIn : Bytes}
    {s s' : σ} {result : Option (ZRet × Z.Strm)} (hs : I s)
    (h : inflateLoop Z io fuel strm nextIn s = some (result, s')) : I s' := by
  induction fuel generalizing strm nextIn s with
  | zero => cases h
  | succ fuel ih =>
      unfold inflateLoop at h
      simp only at h
      split at h
      · split at h
        · split at h
          · exact ih (hwrite _ _ _ hs) h
          · cases h
            exact hwrite _ _ _ hs
        · cases h
          exact hwrite _ _ _ hs
      · cases h
        exact hs

include hread hwrite in

/-- So does the outer one. -/
theorem xdecompress_loop_preserves {Z : Inflater} {inner fuel : Nat} {ret : ZRet} {strm : Z.Strm}
    {s s' : σ} {ok : Bool} (hs : I s)
    (h : xdecompressLoop Z io inner fuel ret strm s = some (ok, s')) : I s' := by
  induction fuel generalizing ret strm s with
  | zero => cases h
  | succ fuel ih =>
      unfold xdecompressLoop at h
      have hnext := hread s CHUNK hs
      rcases hcall : io.read s CHUNK with ⟨_ | _ | ⟨b, bs⟩, t⟩
      · rw [hcall] at h hnext
        simp only at h
        split at h
        · cases h
        · rename_i hinner
          cases h
          exact inflate_loop_preserves hwrite hnext hinner
        · rename_i hinner
          have hdone := inflate_loop_preserves hwrite hnext hinner
          split at h
          · cases h
            exact hdone
          · split at h
            · cases h
            · exact ih hdone h
      · rw [hcall] at h hnext
        cases h
        exact hnext
      · rw [hcall] at h hnext
        simp only at h
        split at h
        · cases h
        · rename_i hinner
          cases h
          exact inflate_loop_preserves hwrite hnext hinner
        · rename_i hinner
          have hdone := inflate_loop_preserves hwrite hnext hinner
          split at h
          · cases h
            exact hdone
          · exact ih hdone h

end Preservation

/-- Reads and writes move what they move between regular files. -/
theorem answering_device_simulates (hos : os.Full) :
    Simulates (answeringDevice os) fileDevice Fds.toFiles where
  read s wanted hwanted := by
    have hbound : wanted ≤ 2 ^ 64 := hwanted.trans (by decide)
    have hlen : (slice s.input s.inPos wanted).length =
        min wanted (s.input.length - s.inPos) := length_slice ..
    refine ⟨slice s.input s.inPos wanted,
      { s with
        inPos := s.inPos + (slice s.input s.inPos wanted).length
        calls := s.calls + 1 }, ?_, rfl⟩
    simp only [answeringDevice, read_result_full hos _ _ hbound, Option.map_some, Option.getD_some,
      ← hlen, slice_length_slice]
  write s buf count hcount := by
    have hbound : count.toNat ≤ 2 ^ 64 := count.toNat_lt.le
    have hlen : (buf.take count.toNat).length = count.toNat := by
      rw [List.length_take]
      omega
    refine ⟨some count.toNat,
      { s with
        output := splice s.output s.outPos (buf.take count.toNat)
        outPos := s.outPos + count.toNat
        calls := s.calls + 1 }, ?_, ?_⟩
    · simp only [answeringDevice, write_result_full hos _ hbound, Option.getD_some]
    · simp only [fileDevice, hlen]

/-- More rounds do not change the end of a copy. -/
theorem xfilecopy_loop_mono {σ : Type} {io : Device σ} {fuel fuel' : Nat} {left : UInt64} {s : σ}
    {r : Bool × σ} (hle : fuel ≤ fuel') (h : xfilecopyLoop io fuel left s = some r) :
    xfilecopyLoop io fuel' left s = some r := by
  induction fuel generalizing fuel' left s with
  | zero => cases h
  | succ fuel ih =>
      obtain ⟨fuel', rfl⟩ : ∃ m, fuel' = m + 1 := ⟨fuel' - 1, by omega⟩
      unfold xfilecopyLoop at h ⊢
      simp only at h ⊢
      split at h
      · rename_i hleft
        rw [if_pos hleft]
        exact h
      · rename_i hleft
        rw [if_neg hleft]
        generalize (if left.toNat < CHUNK then left.toNat else CHUNK) = wanted at h ⊢
        split at h
        · rename_i hr
          rw [if_pos hr]
          exact h
        · rename_i hr
          rw [if_neg hr]
          split at h
          · rename_i hwritten
            rw [if_pos hwritten]
            exact ih (by omega) h
          · rename_i hwritten
            rw [if_neg hwritten]
            exact h

/-- On files, the copy loop ends. -/
theorem xfilecopy_loop_ends {fuel : Nat} {left : UInt64} {s : Files} (hfuel : left.toNat < fuel) :
    ∃ r, xfilecopyLoop fileDevice fuel left s = some r := by
  by_cases havail : s.inPos + left.toNat ≤ s.input.length
  · obtain ⟨s', hrun, -⟩ := xfilecopy_loop_files hfuel havail
    exact ⟨_, hrun⟩
  by_cases hleft : left = 0
  · obtain ⟨fuel, rfl⟩ : ∃ m, fuel = m + 1 := ⟨fuel - 1, by omega⟩
    exact ⟨_, by rw [xfilecopyLoop, if_pos hleft]⟩
  · have hshort : s.input.length < s.inPos + left.toNat := by omega
    obtain ⟨s', hrun⟩ := xfilecopy_loop_short hfuel hshort hleft
    exact ⟨_, hrun⟩

/-- The files between which the transfer of an entry's data runs. -/
theorem move_data_on_eq (hos : os.Full) (Z : Inflater) (fuel : Nat) (decompress : Bool) (s : Fds)
    (h : CentralHeader) (outIndex : Nat) :
    moveDataOn os Z fuel decompress s h outIndex =
      let t : Fds := { s with inPos := dataStart h, outPos := outIndex, calls := s.calls + 3 }
      if decompress && h.compressionMethod == 8 then
        xdecompressLoop Z (answeringDevice os) fuel fuel .ok Z.init t
      else xfilecopyLoop (answeringDevice os) fuel h.sizeCompressed.toUInt64 t := by
  obtain ⟨k₀, hk₀, -⟩ := hos s.calls
  obtain ⟨k₁, hk₁, -⟩ := hos (s.calls + 1)
  obtain ⟨k₂, hk₂, -⟩ := hos (s.calls + 1 + 1)
  simp only [moveDataOn, xdecompressOn, xfilecopyOn, seekIn, seekOut, attempt, hk₀, hk₁, hk₂,
    Option.isSome_some]

/-- The transfer of an entry's data does to the files what it does to their contents. -/
theorem move_data_on_full (hos : os.Full) (Z : Inflater) {fuel : Nat} (hfuel : 2 ^ 32 ≤ fuel)
    (decompress : Bool) (s : Fds) (h : CentralHeader) (outIndex : Nat) :
    (moveDataOn os Z fuel decompress s h outIndex).map (fun r => (r.1, r.2.output)) =
        moveData Z fuel decompress s.input s.output h outIndex ∧
      ∀ ok s', moveDataOn os Z fuel decompress s h outIndex = some (ok, s') →
        s'.input = s.input := by
  rw [move_data_on_eq hos, moveData]
  let I : Fds → Prop := fun t => t.input = s.input
  have hread : ∀ t wanted, I t → I ((answeringDevice os).read t wanted).2 := fun t wanted ht => ht
  have hwrite : ∀ t buf count, I t → I ((answeringDevice os).write t buf count).2 :=
    fun t buf count ht => ht
  generalize ht : ({ s with
    inPos := dataStart h
    outPos := outIndex
    calls := s.calls + 3 } : Fds) = t
  have hI : I t := by rw [← ht]
  have herase : t.toFiles = ⟨s.input, dataStart h, s.output, outIndex⟩ := by rw [← ht]
  have hsim := answering_device_simulates hos
  simp only
  split
  · refine ⟨?_, fun ok s' hrun => xdecompress_loop_preserves hread hwrite hI hrun⟩
    rw [xdecompress, ← herase, xdecompress_loop_simulates hsim]
    cases xdecompressLoop Z (answeringDevice os) fuel fuel .ok Z.init t with
    | none => rfl
    | some r => rfl
  · refine ⟨?_, fun ok s' hrun => xfilecopy_loop_preserves hread hwrite hI hrun⟩
    have hrounds : h.sizeCompressed.toUInt64.toNat + 1 ≤ fuel := by
      have hbound := h.sizeCompressed.toNat_lt
      rw [UInt32.toNat_toUInt64]
      omega
    obtain ⟨r, hr⟩ : ∃ r, xfilecopyLoop fileDevice (h.sizeCompressed.toUInt64.toNat + 1)
        h.sizeCompressed.toUInt64 t.toFiles = some r :=
      xfilecopy_loop_ends (Nat.lt_succ_self _)
    have hloop := xfilecopy_loop_simulates hsim fuel h.sizeCompressed.toUInt64 t
    rw [xfilecopy_loop_mono hrounds hr] at hloop
    rw [xfilecopy, ← herase, hr]
    cases hrun : xfilecopyLoop (answeringDevice os) fuel h.sizeCompressed.toUInt64 t with
    | none => simp [hrun] at hloop
    | some r' =>
        rw [hrun] at hloop
        obtain rfl : r = (r'.1, r'.2.toFiles) := Option.some.inj hloop
        rfl

/-! ## The loop -/

/-- The cursor of the loop on contents. -/
def Rewriting.cursor (c : Rewriting) : Cursor :=
  ⟨c.centralIn, c.inIndex, c.centralOut, c.outIndex, c.fds.output⟩

/-- When nothing fails, an entry is rewritten as before. -/
theorem rewrite_entry_on_full (hos : os.Full) (Z : Inflater) {fuel : Nat} (hfuel : 2 ^ 32 ≤ fuel)
    (decompress : Bool) {c : Rewriting}
    (hmagic : u32At c.centralIn c.inIndex = MAGIC_CENTRAL_HEADER) :
    (rewriteEntryOn os Z fuel decompress c).map Rewriting.cursor =
        rewriteEntry Z fuel decompress c.fds.input c.cursor ∧
      ∀ c', rewriteEntryOn os Z fuel decompress c = .ok c' → c'.fds.input = c.fds.input := by
  rw [rewriteEntryOn]
  unfold rewriteEntry
  have hheader : CentralHeader.decode (c.centralIn.drop c.inIndex) = c.header := rfl
  have hname : slice c.centralIn (c.inIndex + 46) c.header.lengthFilename.toNat = c.filename := rfl
  have hdata : c.outIndex + 30 + UInt32.ofNat c.header.lengthFilename.toNat = c.dataIndex := rfl
  have hlocal (buf : Bytes) : correctLocal (correctCentral decompress c.outIndex c.header)
    (LocalHeader.decode buf) = c.localOut decompress buf := rfl
  simp only [Rewriting.cursor, hheader, hname, hdata, hlocal]
  by_cases hbounds : c.centralIn.length < c.inIndex + 46 + c.header.lengthFilename.toNat ∨
      1024 ≤ c.header.lengthFilename.toNat
  · rw [if_pos hbounds, if_pos hbounds]
    exact ⟨rfl, fun c' h => by cases h⟩
  rw [if_neg hbounds, if_neg hbounds]
  have hc : c.AtHeader := ⟨hmagic, by omega, by omega⟩
  have hthirty : 30 ≤ 2 ^ 64 := by omega
  obtain ⟨s, hcall, -, hout⟩ := xseekread_on_full hos c.fds c.header.offset.toNat hthirty
  cases hread : xseekread c.fds.input c.header.offset.toNat 30 with
  | none =>
      rw [writeHeadersOn, hcall, hread, ← hout]
      exact ⟨rfl, fun c' h => by cases h⟩
  | some buf =>
      obtain ⟨hroom, rfl⟩ := (xseekread_eq_some (by omega)).1 hread
      have hfine : ¬ HeadersFail os c := by
        intro hfails
        cases hfails with
        | readLocal h =>
            rw [seek_read_fails_full hos _ _ hthirty] at h
            omega
        | writeLocal h => exact not_seek_write_fails_full hos _ hthirty h
        | writeName h =>
            have hshort : c.header.lengthFilename.toNat ≤ 2 ^ 64 := by
              have hfits := hc.name
              omega
            exact not_seek_write_fails_full hos _ hshort h
      rw [(write_headers_iff hc).2 ⟨hfine, rfl, rfl⟩]
      obtain ⟨hmove, hinput⟩ := move_data_on_full hos Z hfuel decompress (c.named decompress)
        c.header c.dataIndex.toNat
      have hmoved : _ = moveData Z fuel decompress c.fds.input
        (xseekwrite (xseekwrite c.fds.output c.outIndex.toNat (c.localOut decompress
          (slice c.fds.input c.header.offset.toNat 30)).encode)
          (c.outIndex + 30).toNat c.filename) c.header c.dataIndex.toNat := hmove
      simp only
      rw [← hmoved]
      cases hrun : moveDataOn os Z fuel decompress (c.named decompress) c.header
        c.dataIndex.toNat with
      | none => exact ⟨rfl, fun c' h => by cases h⟩
      | some r =>
          obtain ⟨ok, s'⟩ := r
          cases ok with
          | false => exact ⟨rfl, fun c' h => by cases h⟩
          | true =>
              refine ⟨rfl, fun c' h => ?_⟩
              cases h
              exact hinput true s' hrun

/-- The loop does to the files what it does to their contents. -/
theorem zipadjust_loop_on_full (hos : os.Full) (Z : Inflater) {fuel : Nat} (hfuel : 2 ^ 32 ≤ fuel)
    (decompress : Bool) (rounds : Nat) (c : Rewriting) :
    (zipadjustLoopOn os Z fuel decompress rounds c).map Rewriting.cursor =
      zipadjustLoop Z fuel decompress c.fds.input rounds c.cursor := by
  induction rounds generalizing c with
  | zero => rfl
  | succ rounds ih =>
      unfold zipadjustLoopOn zipadjustLoop
      show _ = (if c.centralIn.length < c.inIndex + 4 then _
        else if u32At c.centralIn c.inIndex ≠ MAGIC_CENTRAL_HEADER then _ else _)
      split
      · rfl
      split
      · rfl
      rename_i hmagic
      obtain ⟨hentry, hinput⟩ := rewrite_entry_on_full hos Z hfuel decompress (not_not.1 hmagic)
      rw [← hentry]
      cases hcall : rewriteEntryOn os Z fuel decompress c with
      | error stop => rfl
      | ok next =>
          rw [← hinput next hcall]
          exact ih next

/-- So are the directory and the end record. -/
theorem finish_on_full (hos : os.Full) (footer : CentralFooter) (c : Rewriting) :
    (finishOn os footer c).map (fun s => s.output) =
      .ok (finish footer c.centralOut c.outIndex c.fds.output) := by
  generalize hsize : UInt32.ofNat c.centralOut.length = size
  have hlength : (c.centralOut.take size.toNat).length < 2 ^ 64 := by
    have hbound := size.toNat_lt
    rw [List.length_take]
    omega
  have hfooter : (closingFooter size c.outIndex footer).encode.length < 2 ^ 64 := by
    rw [CentralFooter.length_encode]
    omega
  rw [finishOn, finish, hsize,
    xseekwrite_on_of_not_fails hlength (not_seek_write_fails_full hos _ hlength.le)]
  simp only
  rw [xseekwrite_on_of_not_fails hfooter (not_seek_write_fails_full hos _ hfooter.le)]
  rfl

/-- So is the whole archive. -/
theorem rewrite_archive_full (hos : os.Full) (Z : Inflater) {fuel : Nat} (hfuel : 2 ^ 32 ≤ fuel)
    (decompress : Bool) (footer : CentralFooter) (centralIn : Bytes) (s : Fds) :
    (rewriteArchive os Z fuel decompress footer centralIn s).map (fun s => s.output) =
      (zipadjustLoop Z fuel decompress s.input (centralIn.length + 1)
        ⟨centralIn, 0, [], 0, s.output⟩).map fun c =>
          finish footer c.centralOut c.outIndex c.fout := by
  have hloop := zipadjust_loop_on_full hos Z hfuel decompress (centralIn.length + 1)
    ⟨centralIn, 0, [], 0, s⟩
  have hstart : zipadjustLoop Z fuel decompress s.input (centralIn.length + 1)
      ⟨centralIn, 0, [], 0, s.output⟩ = _ := hloop.symm
  rw [rewriteArchive, hstart]
  cases zipadjustLoopOn os Z fuel decompress (centralIn.length + 1) ⟨centralIn, 0, [], 0, s⟩ with
  | error stop => rfl
  | ok c => exact finish_on_full hos footer c

/-! ## Up to the output file -/

/-- So is the end record found. -/
theorem scan_footer_on_full (hos : os.Full) (n : Nat) (s : Fds) :
    ∃ s', scanFooterOn os n s = (scanFooter s.input n, s') ∧ s'.input = s.input := by
  induction n generalizing s with
  | zero => exact ⟨s, rfl, rfl⟩
  | succ n ih =>
      obtain ⟨s₁, hmagic, hs₁, -⟩ := xseekread_on_full hos s n (show 4 ≤ 2 ^ 64 by omega)
      obtain ⟨s₂, hrecord, hs₂, -⟩ := xseekread_on_full hos s₁ n (show 22 ≤ 2 ^ 64 by omega)
      rw [hs₁] at hrecord hs₂
      unfold scanFooterOn scanFooter
      rw [hmagic]
      cases xseekread s.input n 4 with
      | none => exact ⟨s₁, rfl, hs₁⟩
      | some magic =>
          simp only
          split
          · rw [hrecord]
            cases xseekread s.input n 22 with
            | none => exact ⟨s₂, rfl, hs₂⟩
            | some record =>
                obtain ⟨s₃, hheader, hs₃, -⟩ := xseekread_on_full hos s₂
                  (CentralFooter.decode record).centralDirectoryOffset.toNat
                  (show 46 ≤ 2 ^ 64 by omega)
                rw [hs₂] at hheader hs₃
                simp only [hheader]
                cases xseekread s.input
                  (CentralFooter.decode record).centralDirectoryOffset.toNat 46 with
                | none => exact ⟨s₃, rfl, hs₃⟩
                | some header =>
                    simp only
                    split
                    · exact ⟨s₃, rfl, hs₃⟩
                    · obtain ⟨s₄, hrest, hs₄⟩ := ih s₃
                      rw [hs₃] at hrest hs₄
                      exact ⟨s₄, hrest, hs₄⟩
          · obtain ⟨s₂, hrest, hs₂⟩ := ih s₁
            rw [hs₁] at hrest hs₂
            exact ⟨s₂, hrest, hs₂⟩

/-- So is the output made. -/
theorem create_output_full (hos : os.Full) (before : Option Bytes) (size : UInt32)
    (footer : CentralFooter) (s : Fds) :
    ∃ fd s', s'.input = s.input ∧ s'.output = [] ∧
      createOutput os before size footer s =
        match xseekread s.input footer.centralDirectoryOffset.toNat
          (size - footer.centralDirectoryOffset).toNat with
        | none => .returns0 before
        | some centralIn => .created (fd + 1) footer centralIn s' := by
  have hsize : (size - footer.centralDirectoryOffset).toNat ≤ 2 ^ 64 := by
    have hbound := (size - footer.centralDirectoryOffset).toNat_lt
    omega
  obtain ⟨t, hread, ht, -⟩ := xseekread_on_full hos { s with calls := s.calls + 1 + 1 }
    footer.centralDirectoryOffset.toNat hsize
  obtain ⟨fd, hfd, hlarge⟩ := hos (t.calls + 1)
  obtain ⟨fd, rfl⟩ : ∃ m, fd = m + 1 := ⟨fd - 1, by omega⟩
  refine ⟨fd, { t with output := [], outPos := 0, calls := t.calls + 1 + 1 }, ht, rfl, ?_⟩
  simp only [createOutput, attempt, is_some_full hos, hread]
  cases xseekread s.input footer.centralDirectoryOffset.toNat
    (size - footer.centralDirectoryOffset).toNat with
  | none => rfl
  | some centralIn => simp [hfd]

/-- When nothing fails, `zipadjust` ends with what it leaves of its contents, and a file that was
at the output path stays only if the call ends before the `open`. -/
theorem zipadjust_on_of_full (hos : os.Full) (Z : Inflater) {fuel : Nat} (hfuel : 2 ^ 32 ≤ fuel)
    (decompress : Bool) (before : Option Bytes) (fin : Bytes) :
    zipadjustOn os Z fuel decompress before fin =
      match zipadjust Z fuel fin decompress with
      | .ok out => .ok ⟨true, true, some out⟩
      | .error (.returns0 none) => .ok ⟨false, false, before⟩
      | .error (.returns0 (some out)) => .ok ⟨false, true, some out⟩
      | .error .outOfBounds => .error .outOfBounds
      | .error .outOfFuel => .error .outOfFuel := by
  obtain ⟨fd, hfd, hlarge⟩ := hos 0
  obtain ⟨fd, rfl⟩ : ∃ m, fd = m + 1 := ⟨fd - 1, by omega⟩
  obtain ⟨s, hscan, hs⟩ := scan_footer_on_full hos (scanPositions (sizeOf fin)) ⟨⟨fin, 0, [], 0⟩, 3⟩
  rw [zipadjustOn, prepare, hfd]
  simp only [is_some_full hos, if_true, hscan, zipadjust]
  cases scanFooter fin (scanPositions (sizeOf fin)) with
  | readFailed => rfl
  | notFound => rfl
  | found position footer =>
      simp only
      by_cases hzero : footer.centralDirectoryOffset = 0
      · rw [if_pos hzero, if_pos hzero]
      obtain ⟨fd', t, ht, hnew, hcreate⟩ := create_output_full hos before (sizeOf fin) footer s
      rw [hs] at ht hcreate
      rw [if_neg hzero, if_neg hzero, hcreate]
      simp only
      cases hread : xseekread fin footer.centralDirectoryOffset.toNat
        (sizeOf fin - footer.centralDirectoryOffset).toNat with
      | none => rfl
      | some centralIn =>
          have hlength := length_of_xseekread hread
          have harchive := rewrite_archive_full hos Z hfuel decompress footer centralIn t
          rw [ht, hnew, hlength] at harchive
          simp only
          cases hloop : zipadjustLoop Z fuel decompress fin
            ((sizeOf fin - footer.centralDirectoryOffset).toNat + 1) ⟨centralIn, 0, [], 0, []⟩ with
          | error stop =>
              rw [hloop] at harchive
              cases hcall : rewriteArchive os Z fuel decompress footer centralIn t with
              | error stop' =>
                  rw [hcall] at harchive
                  obtain rfl : stop' = stop := Except.error.inj harchive
                  cases stop' with
                  | outOfBounds => rfl
                  | outOfFuel => rfl
                  | returns0 output =>
                      obtain ⟨out, rfl⟩ := rewrite_archive_keeps hcall
                      rfl
              | ok s' =>
                  rw [hcall] at harchive
                  cases harchive
          | ok c =>
              rw [hloop] at harchive
              cases hcall : rewriteArchive os Z fuel decompress footer centralIn t with
              | error stop =>
                  rw [hcall] at harchive
                  cases harchive
              | ok s' =>
                  rw [hcall] at harchive
                  obtain hout : s'.output = _ := Except.ok.inj harchive
                  simp only [hout]

end Unfailing

end NamelessCenter.Zip
