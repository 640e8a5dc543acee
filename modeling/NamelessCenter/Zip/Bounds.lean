import NamelessCenter.Zip.Rewrite

/-!
# Buffer accesses of the archive rewriter

`zipadjustAccesses` lists the accesses of `zipadjust` to the buffers that it indexes with lengths
from the archive: the `filename` array and the two directory buffers. An entry's lengths are used
without a check, and the loop goes on wherever they lead. `accesses_in_bounds_iff` says for which
directories all accesses stay inside the buffers: those in which every position that the loop
reaches has room for a signature, and every header there has room for its name and a name below
1024 bytes.
-/

namespace NamelessCenter.Zip

open Bytes Native

/-! ## Accesses -/

/-- The buffers that the rewriting reads and writes. -/
inductive Buffer where
  | filename
  | centralDirectoryIn
  | centralDirectoryOut
  deriving DecidableEq, Repr

/-- The size of a buffer, when the directory buffers have `inSize` bytes. -/
def Buffer.size (inSize : Nat) : Buffer → Nat
  | .filename => 1024
  | .centralDirectoryIn | .centralDirectoryOut => inSize

/-- An access to `length` bytes of a buffer from `offset` on. -/
structure Access where
  buffer : Buffer
  offset : Nat
  length : Nat
  deriving DecidableEq, Repr

/-- The access stays inside its buffer. -/
def Access.InBounds (inSize : Nat) (a : Access) : Prop :=
  a.offset + a.length ≤ a.buffer.size inSize

instance (inSize : Nat) (a : Access) : Decidable (a.InBounds inSize) :=
  inferInstanceAs (Decidable (_ ≤ _))

/-- The accesses for a header and its name: the terminator, the name in both buffers, the header. -/
def headerAccesses (inIndex nameLen : Nat) : List Access :=
  [⟨.filename, nameLen, 1⟩, ⟨.centralDirectoryIn, inIndex + 46, nameLen⟩, ⟨.filename, 0, nameLen⟩,
    ⟨.centralDirectoryIn, inIndex, 46⟩]

/-- The accesses that copy a header and its name to the output directory. -/
def copyAccesses (inIndex outIndex nameLen : Nat) : List Access :=
  [⟨.centralDirectoryIn, inIndex, 46 + nameLen⟩, ⟨.centralDirectoryOut, outIndex, 46 + nameLen⟩]

/-- The header at the cursor. -/
def Cursor.header (c : Cursor) : CentralHeader := CentralHeader.decode (c.centralIn.drop c.inIndex)

/-- The accesses of the rewriting loop, up to a signature that is read outside the buffer. -/
def loopAccesses (Z : Inflater) (fuel : Nat) (decompress : Bool) (fin : Bytes) :
    Nat → Cursor → List Access
  | 0, _ => []
  | rounds + 1, c =>
      ⟨.centralDirectoryIn, c.inIndex, 4⟩ ::
        if c.centralIn.length < c.inIndex + 4 then []
        else if u32At c.centralIn c.inIndex ≠ MAGIC_CENTRAL_HEADER then
          [⟨.centralDirectoryOut, 0, c.centralOut.length⟩]
        else
          headerAccesses c.inIndex c.header.lengthFilename.toNat ++
            match rewriteEntry Z fuel decompress fin c with
            | .error _ => []
            | .ok c' =>
                copyAccesses c.inIndex c.centralOut.length c.header.lengthFilename.toNat ++
                  loopAccesses Z fuel decompress fin rounds c'

/-- The accesses of a call of `zipadjust`, which begin when the buffers are filled. -/
def zipadjustAccesses (Z : Inflater) (fuel : Nat) (fin : Bytes) (decompress : Bool) : List Access :=
  match selectFooter fin with
  | none => []
  | some (_, footer) =>
      match directoryBuffer fin footer with
      | none => []
      | some dir =>
          ⟨.centralDirectoryIn, 0, dir.length⟩ :: ⟨.centralDirectoryOut, 0, dir.length⟩ ::
            loopAccesses Z fuel decompress fin (dir.length + 1) ⟨dir, 0, [], 0, []⟩

/-! ## The positions that the loop reaches -/

section Positions

variable (Z : Inflater) (fuel : Nat) (decompress : Bool) (fin : Bytes)

/-- The local header and the data of the entry can be read. -/
def Transfers (h : CentralHeader) : Prop :=
  h.offset.toNat + 30 ≤ fin.length ∧
    (moveData Z fuel decompress fin [] h 0).map Prod.fst = some true

/-- The loop over the directory `dir` gets from `start` to `pos`, through entries that can be
read. -/
inductive Reached (dir : Bytes) : Nat → Nat → Prop where
  | here (pos : Nat) : Reached dir pos pos
  | next {start pos : Nat} : u32At dir start = MAGIC_CENTRAL_HEADER →
      Transfers Z fuel decompress fin (CentralHeader.decode (dir.drop start)) →
      Reached dir (start + headerSpan (CentralHeader.decode (dir.drop start))) pos →
      Reached dir start pos

/-- There is room for a signature at `pos`, and for a header there with its name. -/
def RoomAt (dir : Bytes) (pos : Nat) : Prop :=
  pos + 4 ≤ dir.length ∧ (u32At dir pos = MAGIC_CENTRAL_HEADER →
    pos + 46 + (CentralHeader.decode (dir.drop pos)).lengthFilename.toNat ≤ dir.length ∧
      (CentralHeader.decode (dir.drop pos)).lengthFilename.toNat < 1024)

/-- There is room at every position that the loop reaches. -/
def DirectoryFits : Prop :=
  ∀ i footer, selectFooter fin = some (i, footer) → ∀ dir, directoryBuffer fin footer = some dir →
    ∀ pos, Reached Z fuel decompress fin dir 0 pos → RoomAt dir pos

/-- Every access of a call stays inside its buffer, and the call does not end outside. -/
def AccessesInBounds : Prop :=
  (∀ i footer, selectFooter fin = some (i, footer) →
    ∀ a ∈ zipadjustAccesses Z fuel fin decompress,
      a.InBounds (sizeOf fin - footer.centralDirectoryOffset).toNat) ∧
  zipadjust Z fuel fin decompress ≠ .error .outOfBounds

end Positions

/-! ## One iteration -/

section Iteration

variable {Z : Inflater} {fuel : Nat} {decompress : Bool} {fin : Bytes}

/-- Whether an entry's data are transferred does not depend on the output file. -/
theorem move_data_status (fout fout' : Bytes) (h : CentralHeader) (pos pos' : Nat) :
    (moveData Z fuel decompress fin fout h pos).map Prod.fst =
      (moveData Z fuel decompress fin fout' h pos').map Prod.fst := by
  unfold moveData
  split
  · exact xdecompress_status ..
  · exact congrArg some (xfilecopy_status ..)

/-- The three ways an iteration ends. -/
theorem rewrite_entry_cases (Z : Inflater) (fuel : Nat) (decompress : Bool) (fin : Bytes)
    (c : Cursor) :
    (¬ (c.inIndex + 46 + c.header.lengthFilename.toNat ≤ c.centralIn.length ∧
        c.header.lengthFilename.toNat < 1024) ∧
      rewriteEntry Z fuel decompress fin c = .error .outOfBounds) ∨
    ((c.inIndex + 46 + c.header.lengthFilename.toNat ≤ c.centralIn.length ∧
        c.header.lengthFilename.toNat < 1024) ∧
      ((¬ Transfers Z fuel decompress fin c.header ∧
        ∃ stop, rewriteEntry Z fuel decompress fin c = .error stop ∧ stop ≠ .outOfBounds) ∨
      (Transfers Z fuel decompress fin c.header ∧
        ∃ c' central, rewriteEntry Z fuel decompress fin c = .ok c' ∧
          c'.inIndex = c.inIndex + headerSpan c.header ∧
          c'.centralIn = splice c.centralIn c.inIndex (CentralHeader.encode central) ∧
          c'.centralOut.length =
            c.centralOut.length + (46 + c.header.lengthFilename.toNat)))) := by
  unfold rewriteEntry
  simp only
  rw [show CentralHeader.decode (c.centralIn.drop c.inIndex) = c.header by rfl]
  generalize c.header = h
  -- the model stops where the code would access memory outside its buffers
  by_cases hguard : c.centralIn.length < c.inIndex + 46 + h.lengthFilename.toNat ∨
      1024 ≤ h.lengthFilename.toNat
  · rw [if_pos hguard]
    exact .inl ⟨by omega, rfl⟩
  · rw [if_neg hguard]
    refine .inr ⟨by omega, ?_⟩
    cases hlocal : xseekread fin h.offset.toNat 30 with
    | none =>
        refine .inl ⟨fun htransfers => ?_, _, rfl, Stop.noConfusion⟩
        rw [xseekread_of_le htransfers.1] at hlocal
        cases hlocal
    | some buf =>
        obtain ⟨hroom, -⟩ := (xseekread_eq_some (by omega)).1 hlocal
        simp only
        -- the inflater does not return, or the data cannot be read, or they are moved
        split
        · rename_i hmoved
          refine .inl ⟨fun htransfers => ?_, _, rfl, Stop.noConfusion⟩
          have hstatus := congrArg (Option.map Prod.fst) hmoved
          rw [move_data_status _ [] h _ 0, htransfers.2] at hstatus
          cases hstatus
        · rename_i hmoved
          refine .inl ⟨fun htransfers => ?_, _, rfl, Stop.noConfusion⟩
          have hstatus := congrArg (Option.map Prod.fst) hmoved
          rw [move_data_status _ [] h _ 0, htransfers.2] at hstatus
          cases hstatus
        · rename_i hmoved
          have hstatus := congrArg (Option.map Prod.fst) hmoved
          rw [move_data_status _ [] h _ 0] at hstatus
          refine .inr
            ⟨⟨hroom, hstatus⟩, _, correctCentral decompress c.outIndex h, rfl, rfl, rfl, ?_⟩
          have hsplice : c.centralIn.length ≤ (splice c.centralIn c.inIndex
              (correctCentral decompress c.outIndex h).encode).length := le_length_splice ..
          simp only [List.length_append]
          rw [length_slice_of_le (by omega)]

/-- The cursor is at a position of the directory `dir` that it has not overwritten. -/
structure Cursor.In (c : Cursor) (dir : Bytes) : Prop where
  length : c.centralIn.length = dir.length
  rest : c.centralIn.drop c.inIndex = dir.drop c.inIndex
  out : c.centralOut.length ≤ c.inIndex

/-- The header is the one in the directory. -/
theorem Cursor.In.header {c : Cursor} {dir : Bytes} (h : c.In dir) :
    c.header = CentralHeader.decode (dir.drop c.inIndex) := by
  rw [Cursor.header, h.rest]

/-- So is its signature. -/
theorem Cursor.In.signature {c : Cursor} {dir : Bytes} (h : c.In dir) :
    u32At c.centralIn c.inIndex = u32At dir c.inIndex := by
  have hdrop := u32_at_drop c.centralIn c.inIndex 0
  rw [h.rest, u32_at_drop, Nat.add_zero] at hdrop
  exact hdrop.symm

/-- An iteration moves on to an untouched position. -/
theorem Cursor.In.next {c c' : Cursor} {dir : Bytes} (h : c.In dir) {central : CentralHeader}
    (hroom : c.inIndex + 46 + c.header.lengthFilename.toNat ≤ c.centralIn.length)
    (hindex : c'.inIndex = c.inIndex + headerSpan c.header)
    (hbuffer : c'.centralIn = splice c.centralIn c.inIndex central.encode)
    (hout : c'.centralOut.length = c.centralOut.length + (46 + c.header.lengthFilename.toNat)) :
    c'.In dir := by
  have hspan : 46 + c.header.lengthFilename.toNat ≤ headerSpan c.header := by
    unfold headerSpan
    omega
  constructor
  case length =>
    have hinside : c.inIndex + central.encode.length ≤ c.centralIn.length := by
      rw [CentralHeader.length_encode]
      omega
    rw [hbuffer, splice_inside hinside, ← h.length]
    simp only [List.length_append, List.length_take, List.length_drop, CentralHeader.length_encode]
    omega
  case rest =>
    rw [hbuffer, hindex, drop_splice (by rw [CentralHeader.length_encode]; omega), ← List.drop_drop,
      h.rest, List.drop_drop]
  case out =>
    have hle := h.out
    omega

end Iteration

/-! ## The loop -/

section Loop

variable {Z : Inflater} {fuel : Nat} {decompress : Bool} {fin dir : Bytes}

/-- Reading a header and its name stays inside if the directory has them. -/
theorem header_accesses_in_bounds_iff {inIndex nameLen inSize : Nat} :
    (∀ a ∈ headerAccesses inIndex nameLen, a.InBounds inSize) ↔
      inIndex + 46 + nameLen ≤ inSize ∧ nameLen < 1024 := by
  simp only [headerAccesses, List.forall_mem_cons, Access.InBounds, Buffer.size]
  constructor
  · intro ⟨hterminator, hname, _⟩
    omega
  · intro ⟨hroom, hshort⟩
    exact ⟨by omega, by omega, by omega, by omega, nofun⟩

/-- Copying them to the front does, too. -/
theorem copy_accesses_in_bounds {inIndex outIndex nameLen inSize : Nat}
    (hroom : inIndex + 46 + nameLen ≤ inSize) (hout : outIndex ≤ inIndex) :
    ∀ a ∈ copyAccesses inIndex outIndex nameLen, a.InBounds inSize := by
  simp only [copyAccesses, List.forall_mem_cons, Access.InBounds, Buffer.size]
  exact ⟨by omega, by omega, nofun⟩

/-- There is room wherever the loop gets from `start` if there is room at `start` and wherever it
gets from the next position, if it goes there. -/
theorem rooms_iff {start : Nat} :
    (∀ pos, Reached Z fuel decompress fin dir start pos → RoomAt dir pos) ↔
      RoomAt dir start ∧ (u32At dir start = MAGIC_CENTRAL_HEADER →
        Transfers Z fuel decompress fin (CentralHeader.decode (dir.drop start)) →
        ∀ pos, Reached Z fuel decompress fin dir
          (start + headerSpan (CentralHeader.decode (dir.drop start))) pos → RoomAt dir pos) := by
  constructor
  · intro hrooms
    exact ⟨hrooms start (.here start), fun hmagic htransfers pos hpos =>
      hrooms pos (.next hmagic htransfers hpos)⟩
  · intro ⟨hstart, hnext⟩ pos hpos
    cases hpos with
    | here => exact hstart
    | next hmagic htransfers hrest => exact hnext hmagic htransfers pos hrest

/-- The rewriting loop stays inside its buffers exactly if there is room wherever it gets, and so
does the model of the loop. -/
theorem loop_in_bounds_iff (Z : Inflater) (fuel : Nat) (decompress : Bool) (fin : Bytes)
    {rounds : Nat} {c : Cursor} (hin : c.In dir) (hrounds : 0 < rounds)
    (hfuel : dir.length < c.inIndex + rounds) :
    ((∀ a ∈ loopAccesses Z fuel decompress fin rounds c, a.InBounds dir.length) ↔
      ∀ pos, Reached Z fuel decompress fin dir c.inIndex pos → RoomAt dir pos) ∧
    (zipadjustLoop Z fuel decompress fin rounds c ≠ .error .outOfBounds ↔
      ∀ pos, Reached Z fuel decompress fin dir c.inIndex pos → RoomAt dir pos) := by
  -- every round moves the position by 46 bytes at least, so the rounds suffice to leave the buffer
  induction rounds generalizing c with
  | zero => omega
  | succ rounds ih =>
      have hlen := hin.length
      have hsignature := hin.signature
      rw [rooms_iff, loopAccesses, zipadjustLoop, List.forall_mem_cons, hlen, hsignature]
      have hfirst : (⟨.centralDirectoryIn, c.inIndex, 4⟩ : Access).InBounds dir.length ↔
          c.inIndex + 4 ≤ dir.length := Iff.rfl
      rw [hfirst]
      by_cases hroom : dir.length < c.inIndex + 4
      · -- the signature test itself reads outside
        have hnone : ¬ RoomAt dir c.inIndex := fun h => by
          have hfour := h.1
          omega
        rw [if_pos hroom, if_pos hroom]
        exact ⟨iff_of_false (fun h => by omega) fun h => hnone h.1,
          iff_of_false (fun h => h rfl) fun h => hnone h.1⟩
      rw [if_neg hroom, if_neg hroom]
      by_cases hmagic : u32At dir c.inIndex = MAGIC_CENTRAL_HEADER
      · rw [if_neg (not_not.2 hmagic), if_neg (not_not.2 hmagic), List.forall_mem_append,
          header_accesses_in_bounds_iff]
        have hheader := hin.header
        have hroomAt : RoomAt dir c.inIndex ↔
            c.inIndex + 46 + c.header.lengthFilename.toNat ≤ dir.length ∧
              c.header.lengthFilename.toNat < 1024 := by
          rw [RoomAt, hheader]
          exact ⟨fun h => h.2 hmagic, fun h => ⟨by omega, fun _ => h⟩⟩
        rw [hroomAt, ← hheader]
        rcases rewrite_entry_cases Z fuel decompress fin c with ⟨hfits, hstop⟩ | ⟨hfits, hcase⟩
        · -- the header or its name does not fit
          rw [hlen] at hfits
          rw [hstop]
          exact ⟨iff_of_false (fun h => hfits h.2.1) fun h => hfits h.1,
            iff_of_false (fun h => h rfl) fun h => hfits h.1⟩
        · have hfits' := hlen ▸ hfits
          rcases hcase with ⟨htransfers, stop, hstop, hne⟩ | ⟨htransfers, c', central, hok, hindex,
            hbuffer, hout⟩
          · -- the entry cannot be read, and the function returns
            rw [hstop]
            exact ⟨iff_of_true ⟨by omega, hfits', nofun⟩ ⟨hfits', fun _ h => absurd h htransfers⟩,
              iff_of_true (fun h => hne (Except.error.inj h))
                ⟨hfits', fun _ h => absurd h htransfers⟩⟩
          · -- the loop goes on behind the header
            have hnext := hin.next hfits.1 hindex hbuffer hout
            have hspan : 46 ≤ headerSpan c.header := by
              unfold headerSpan
              omega
            obtain ⟨haccesses, hloop⟩ := ih hnext (by omega) (by omega)
            rw [hindex] at haccesses hloop
            rw [hok]
            simp only
            rw [List.forall_mem_append, haccesses, hloop]
            have hcopy := copy_accesses_in_bounds hfits'.1 hin.out
            exact ⟨⟨fun h => ⟨hfits', fun _ _ => h.2.2.2⟩,
                fun h => ⟨by omega, hfits', hcopy, h.2 hmagic htransfers⟩⟩,
              ⟨fun h => ⟨hfits', fun _ _ => h⟩, fun h => h.2 hmagic htransfers⟩⟩
      · -- the loop ends here and writes the output directory
        have hout := hin.out
        have hroomAt : RoomAt dir c.inIndex := ⟨by omega, fun h => absurd h hmagic⟩
        rw [if_pos hmagic, if_pos hmagic]
        refine ⟨iff_of_true ⟨by omega, ?_⟩ ⟨hroomAt, fun h => absurd h hmagic⟩,
          iff_of_true (fun h => by cases h) ⟨hroomAt, fun h => absurd h hmagic⟩⟩
        rw [List.forall_mem_singleton]
        show 0 + c.centralOut.length ≤ dir.length
        omega

end Loop

/-! ## The whole function -/

/-- A call stays inside its buffers exactly if there is room at every position that its loop
reaches. -/
theorem accesses_in_bounds_iff (Z : Inflater) (fuel : Nat) (decompress : Bool) (fin : Bytes) :
    AccessesInBounds Z fuel decompress fin ↔ DirectoryFits Z fuel decompress fin := by
  unfold AccessesInBounds DirectoryFits zipadjustAccesses
  rw [zipadjust_eq]
  cases hselect : selectFooter fin with
  | none => simp
  | some selected =>
      obtain ⟨i, footer⟩ := selected
      simp only [Option.some.injEq, Prod.mk.injEq, and_imp]
      cases hbuffer : directoryBuffer fin footer with
      | none =>
          simp only [List.not_mem_nil, false_imp_iff, implies_true, true_and]
          exact iff_of_true (fun h => by cases h) fun i' footer' _ hfooter dir hdir => by
            rw [← hfooter, hbuffer] at hdir
            cases hdir
      | some dir =>
          have hlen := (directory_buffer_eq_some hbuffer).1
          have hstart : (⟨dir, 0, [], 0, []⟩ : Cursor).In dir := ⟨rfl, rfl, Nat.le_refl 0⟩
          obtain ⟨haccesses, hloop⟩ := loop_in_bounds_iff Z fuel decompress fin hstart
            (Nat.succ_pos dir.length) (by simp only; omega)
          simp only
          constructor
          · intro hinside i' footer' hi hfooter dir' hdir
            rw [← hfooter, hbuffer, Option.some.injEq] at hdir
            rw [← hdir]
            refine haccesses.1 fun a ha => ?_
            rw [hlen]
            exact hinside.1 i footer rfl rfl a (List.mem_cons_of_mem _ (List.mem_cons_of_mem _ ha))
          · intro hfits
            have hrooms := hfits i footer rfl rfl dir hbuffer
            refine ⟨fun i' footer' hi hfooter => ?_, fun hstop => ?_⟩
            · rw [← hfooter, ← hlen, List.forall_mem_cons, List.forall_mem_cons]
              exact ⟨Nat.le_of_eq (Nat.zero_add _), Nat.le_of_eq (Nat.zero_add _),
                haccesses.2 hrooms⟩
            · have hne := hloop.2 hrooms
              split at hstop
              · rename_i stop hrun
                rw [hrun] at hne
                exact hne (congrArg Except.error (Except.error.inj hstop))
              · cases hstop

/-- The archive `storedHi` whose central header announces a name of 1024 bytes. -/
def longNameHi : Bytes := splice storedHi 61 (le16 1024)

/-- The name does not fit into `filename`, nor is it there. -/
theorem long_name_out_of_bounds :
    ¬ AccessesInBounds (.ofDecoder storedBlock) 0 false longNameHi := by
  have hrun : zipadjust (.ofDecoder storedBlock) 0 longNameHi false = .error .outOfBounds := by
    decide +kernel
  exact fun h => h.2 hrun

end NamelessCenter.Zip
