import NamelessCenter.Lib.Copies
import NamelessCenter.Lib.Digits
import NamelessCenter.Vcdiff.AddressCache
import NamelessCenter.Vcdiff.Checksums
import NamelessCenter.Vcdiff.CodeTable

/-!
# The meaning of a VCDIFF file

`vcdiff source delta` is the file that `delta` makes of `source`, read off the format and not off
the decoder: a header and windows, each of which is parsed completely and then builds a part of the
target from a segment of the source. Files that the decoder is not built for have no meaning here:
those with a secondary compressor, a code table of their own or windows that refer to the target
file. Neither have files beyond the decoder's limits, which are those of its 32-bit positions.
-/

namespace NamelessCenter.Vcdiff

open Bytes Copies

-- The bits of the header, window and delta indicators.

/-- The header flag for a secondary compressor. -/
def VCD_SECONDARY : Nat := 1

/-- The header flag for a code table. -/
def VCD_CODETABLE : Nat := 2

/-- The header flag for an application header. -/
def VCD_APPHEADER : Nat := 4

/-- The header flags without a meaning. -/
def VCD_INVHDR : Nat := 2 ^ 32 - 1 - 7

/-- The window flag for a segment of the source. -/
def VCD_SOURCE : Nat := 1

/-- The window flag for a segment of the target. -/
def VCD_TARGET : Nat := 2

/-- The window flag for a checksum. -/
def VCD_ADLER32 : Nat := 4

/-- The window flags without a meaning. -/
def VCD_INVWIN : Nat := 2 ^ 32 - 1 - 7

/-- The delta flags without a meaning. -/
def VCD_INVDEL : Nat := 2 ^ 32 - 1 - 7

/-- The first three bytes of a delta. -/
def VCDIFF_MAGIC : Bytes := [0xd6, 0xc3, 0xc4]

/-- The largest target of a window. -/
def XD3_HARDMAXWINSIZE : Nat := 2 ^ 24

namespace Format

/-! ## Reading -/

/-- A function that reads from the front of a file. -/
abbrev Reader := StateT Bytes Option

/-- Read a byte. -/
def byte : Reader Nat
  | [] => none
  | b :: rest => some (b.toNat, rest)

/-- Read `n` bytes. -/
def bytes (n : Nat) : Reader Bytes := fun inp =>
  if n ≤ inp.length then some (inp.take n, inp.drop n) else none

/-- An integer of at most `width` bits. -/
def number (width : Nat) : Reader Nat := fun inp =>
  match decodeInteger width 0 inp with
  | .done val rest => some (val, rest)
  | .more _ => none
  | .invalid .. => none

/-- Go on only under a condition. -/
def check (cond : Prop) [Decidable cond] : Reader Unit := fun inp =>
  if cond then some ((), inp) else none

/-- Readers one behind the other. -/
theorem bind_eq_some {α β : Type} {m : Reader α} {k : α → Reader β} {inp : Bytes}
    {r : β × Bytes} :
    (m >>= k) inp = some r ↔ ∃ a rest, m inp = some (a, rest) ∧ k a rest = some r := by
  show (m inp).bind (fun p => k p.1 p.2) = some r ↔ _
  rw [Option.bind_eq_some_iff]
  constructor
  · rintro ⟨⟨a, rest⟩, hm, hk⟩
    exact ⟨a, rest, hm, hk⟩
  · rintro ⟨a, rest, hm, hk⟩
    exact ⟨(a, rest), hm, hk⟩

/-- A result reads nothing. -/
theorem pure_eq_some {α : Type} {a : α} {inp : Bytes} {r : α × Bytes} :
    (pure a : Reader α) inp = some r ↔ r = (a, inp) := by
  show some (a, inp) = some r ↔ _
  rw [Option.some.injEq, eq_comm]

/-- A condition reads nothing, and has to hold. -/
theorem check_eq_some {cond : Prop} [Decidable cond] {inp : Bytes} {r : Unit × Bytes} :
    check cond inp = some r ↔ cond ∧ r = ((), inp) := by
  unfold check
  split
  · rename_i h
    rw [Option.some.injEq, eq_comm]
    exact (and_iff_right h).symm
  · rename_i h
    exact ⟨nofun, fun h' => absurd h'.1 h⟩

/-- A number is read by the rounds of the decoder. -/
theorem number_eq_some {width val : Nat} {inp rest : Bytes} :
    number width inp = some (val, rest) ↔ decodeInteger width 0 inp = .done val rest := by
  unfold number
  cases decodeInteger width 0 inp with
  | done v r =>
      constructor
      · intro h
        cases h
        rfl
      · intro h
        cases h
        rfl
  | more part => exact ⟨nofun, nofun⟩
  | invalid msg part r => exact ⟨nofun, nofun⟩

/-- A number fits into its width. -/
theorem number_lt {width val : Nat} {inp rest : Bytes} (hwidth : 7 ≤ width)
    (h : number width inp = some (val, rest)) : val < 2 ^ width := by
  have hread := decode_integer_eq_done_iff.1 (number_eq_some.1 h)
  obtain ⟨ds, -, -, hval, hlt⟩ := (read_integer_eq_ok_iff hwidth (Nat.two_pow_pos width)).1 hread
  exact hlt

/-- The bytes are the first of the input. -/
theorem bytes_eq_some {n : Nat} {inp xs rest : Bytes} :
    bytes n inp = some (xs, rest) ↔ inp = xs ++ rest ∧ xs.length = n := by
  unfold bytes
  constructor
  · intro h
    split at h
    · cases h
      exact ⟨(List.take_append_drop n inp).symm, by rw [List.length_take]; omega⟩
    · cases h
  · rintro ⟨rfl, rfl⟩
    rw [if_pos (by rw [List.length_append]; omega), List.take_left, List.drop_left]

/-- The reader does not leave more than it was given. -/
def Shortens {α : Type} (m : Reader α) : Prop :=
  ∀ inp a rest, m inp = some (a, rest) → rest.length ≤ inp.length

/-- Readers that shorten the input, one behind the other. -/
theorem Shortens.bind {α β : Type} {m : Reader α} {k : α → Reader β} (hm : Shortens m)
    (hk : ∀ a, Shortens (k a)) : Shortens (m >>= k) := by
  intro inp b rest h
  obtain ⟨a, mid, hone, htwo⟩ := bind_eq_some.1 h
  exact (hk a _ _ _ htwo).trans (hm _ _ _ hone)

/-- A result does not make the input longer. -/
theorem shortens_pure {α : Type} (a : α) : Shortens (pure a) := by
  intro inp b rest h
  cases pure_eq_some.1 h
  exact le_rfl

/-- Nor does a condition. -/
theorem shortens_check (cond : Prop) [Decidable cond] : Shortens (check cond) := by
  intro inp u rest h
  cases (check_eq_some.1 h).2
  exact le_rfl

/-- Nor does a byte. -/
theorem shortens_byte : Shortens byte := by
  intro inp x rest h
  cases inp with
  | nil => cases h
  | cons b bs =>
      cases h
      exact Nat.le_succ _

/-- Nor do several. -/
theorem shortens_bytes (n : Nat) : Shortens (bytes n) := by
  intro inp xs rest h
  rw [(bytes_eq_some.1 h).1, List.length_append]
  exact Nat.le_add_left _ _

/-- Nor does a number. -/
theorem shortens_number {width : Nat} (hwidth : 7 ≤ width) : Shortens (number width) := by
  intro inp val rest h
  have hread := decode_integer_eq_done_iff.1 (number_eq_some.1 h)
  obtain ⟨ds, -, hsplit, -⟩ := (read_integer_eq_ok_iff hwidth (Nat.two_pow_pos width)).1 hread
  rw [hsplit, List.length_append]
  exact Nat.le_add_left _ _

/-! ## Windows -/

/-- A window before its sections. -/
structure Head where
  indicator : Nat
  cpylen : Nat
  cpyoff : Nat
  tgtlen : Nat
  dataLen : Nat
  instLen : Nat
  addrLen : Nat
  cksum : Bytes
  deriving DecidableEq, Repr

/-- The length and the position of the segment. -/
def segment (indicator : Nat) : Reader (Nat × Nat) :=
  if indicator &&& VCD_SOURCE ≠ 0 then do
    let cpylen ← number 32
    let cpyoff ← number 64
    pure (cpylen, cpyoff)
  else pure (0, 0)

/-- The checksum, if there is one. -/
def cksum (indicator : Nat) : Reader Bytes :=
  if indicator &&& VCD_ADLER32 ≠ 0 then bytes 4 else pure []

/-- The length of the encoding of a window, behind this length. -/
def Head.enclen (h : Head) : Nat :=
  1 + (sizeofSize h.tgtlen + sizeofSize h.dataLen + sizeofSize h.instLen + sizeofSize h.addrLen) +
    h.dataLen + h.instLen + h.addrLen + h.cksum.length

/-- The head of a window. `blksize` is the size of the blocks of the source, whose positions in the
segment have 32 bits too. -/
def head (blksize : Nat) : Reader Head := do
  let indicator ← byte
  check (indicator &&& VCD_INVWIN = 0 ∧ indicator &&& VCD_TARGET = 0)
  let (cpylen, cpyoff) ← segment indicator
  check (cpyoff + cpylen < 2 ^ 64 ∧ cpylen + blksize ≤ 2 ^ 32)
  let enclen ← number 32
  let tgtlen ← number 32
  check (cpylen + tgtlen < 2 ^ 32 ∧ tgtlen ≤ XD3_HARDMAXWINSIZE)
  let deltaIndicator ← byte
  check (deltaIndicator = 0)
  let dataLen ← number 32
  let instLen ← number 32
  let addrLen ← number 32
  let cksum ← cksum indicator
  let h : Head := { indicator, cpylen, cpyoff, tgtlen, dataLen, instLen, addrLen, cksum }
  check (enclen = h.enclen)
  pure h

/-- Nor does a segment. -/
theorem shortens_segment (indicator : Nat) : Shortens (segment indicator) := by
  unfold segment
  split
  · exact (shortens_number (by decide)).bind fun _ =>
      (shortens_number (by decide)).bind fun _ => shortens_pure _
  · exact shortens_pure _

/-- Nor does a checksum. -/
theorem shortens_cksum (indicator : Nat) : Shortens (cksum indicator) := by
  unfold cksum
  split
  · exact shortens_bytes 4
  · exact shortens_pure _

/-- Nor does the head of a window. -/
theorem shortens_head (blksize : Nat) : Shortens (head blksize) := by
  have hnumber : Shortens (number 32) := shortens_number (by decide)
  refine shortens_byte.bind fun _ => (shortens_check _).bind fun _ =>
    (shortens_segment _).bind fun _ => (shortens_check _).bind fun _ => ?_
  refine hnumber.bind fun _ => hnumber.bind fun _ => (shortens_check _).bind fun _ => ?_
  refine shortens_byte.bind fun _ => (shortens_check _).bind fun _ => ?_
  exact hnumber.bind fun _ => hnumber.bind fun _ => hnumber.bind fun _ =>
    (shortens_cksum _).bind fun _ => (shortens_check _).bind fun _ => shortens_pure _

/-- A window. -/
structure Window where
  head : Head
  data : Bytes
  inst : Bytes
  addr : Bytes

/-- Read a window: its head and its three sections. -/
def window (blksize : Nat) : Reader Window := do
  let head ← head blksize
  let data ← bytes head.dataLen
  let inst ← bytes head.instLen
  let addr ← bytes head.addrLen
  pure { head, data, inst, addr }

/-- The sections of a window lie in the file, and so does what follows it. -/
theorem window_length {blksize : Nat} {inp rest : Bytes} {w : Window}
    (h : window blksize inp = some (w, rest)) :
    w.head.dataLen + w.head.instLen + w.head.addrLen + rest.length ≤ inp.length := by
  unfold window at h
  obtain ⟨hd, r, hhead, h⟩ := bind_eq_some.1 h
  obtain ⟨data, r₁, hdata, h⟩ := bind_eq_some.1 h
  obtain ⟨inst, r₂, hinst, h⟩ := bind_eq_some.1 h
  obtain ⟨addr, r₃, haddr, h⟩ := bind_eq_some.1 h
  cases pure_eq_some.1 h
  have hle := shortens_head blksize _ _ _ hhead
  obtain ⟨rfl, hdata⟩ := bytes_eq_some.1 hdata
  obtain ⟨rfl, hinst⟩ := bytes_eq_some.1 hinst
  obtain ⟨rfl, haddr⟩ := bytes_eq_some.1 haddr
  simp only [List.length_append] at hle
  show hd.dataLen + hd.instLen + hd.addrLen + rest.length ≤ inp.length
  omega

/-! ## Instructions -/

/-- The instructions and the addresses that are left to be parsed, at position `here`. -/
structure Cursor where
  inst : Bytes
  addr : Bytes
  acache : AddrCache
  here : Nat

/-- The size of an instruction, which follows its code if the table has none. -/
def Cursor.size (c : Cursor) (size : Nat) : Option (Nat × Cursor) :=
  if size = 0 then
    match readSize c.inst with
    | .ok (size, inst) => some (size, { c with inst })
    | .error _ => none
  else some (size, c)

/-- The address of a copy, which lies in front of the position. -/
def Cursor.address (c : Cursor) : Rtype → Option (Nat × Cursor)
  | .cpy mode =>
      match decodeAddress c.acache c.here mode c.addr with
      | .ok (address, addr, acache) =>
          if address < c.here then some (address, { c with addr, acache }) else none
      | .error _ => none
  | _ => some (0, c)

/-- One of the two instructions of a code. -/
def half (type : Rtype) (size : Nat) (c : Cursor) : Option (List Hinst × Cursor) :=
  if type = .noop then some ([], c)
  else do
    let (size, c) ← c.size size
    let (addr, c) ← c.address type
    some ([{ type, size, addr }], { c with here := c.here + size })

/-- The instructions of a code. -/
def instruction (c : Cursor) : Option (List Hinst × Cursor) :=
  match c.inst with
  | [] => none
  | code :: inst => do
      let entry := rfc3284CodeTable.getD code.toNat {}
      let (first, c) ← half entry.type1 entry.size1 { c with inst }
      let (second, c) ← half entry.type2 entry.size2 c
      some (first ++ second, c)

/-- The instructions of at most the given number of codes, which are to use up both sections. -/
def instructions : Nat → Cursor → Option (List Hinst)
  | 0, c => if c.inst = [] ∧ c.addr = [] then some [] else none
  | codes + 1, c =>
      if c.inst = [] then if c.addr = [] then some [] else none
      else do
        let (first, c) ← instruction c
        let more ← instructions codes c
        some (first ++ more)

/-- What instructions make together. -/
def totalSize (hs : List Hinst) : Nat := (hs.map Hinst.size).sum

/-- No instruction has no size. -/
@[simp] theorem total_size_nil : totalSize [] = 0 := rfl

/-- The size of the first counts. -/
@[simp] theorem total_size_cons (h : Hinst) (hs : List Hinst) :
    totalSize (h :: hs) = h.size + totalSize hs := rfl

/-- The sizes of two lists add up. -/
@[simp] theorem total_size_append (hs hs' : List Hinst) :
    totalSize (hs ++ hs') = totalSize hs + totalSize hs' := by
  simp [totalSize]

/-- Reading a size does not move the position. -/
theorem Cursor.size_eq {c c' : Cursor} {size n : Nat} (h : c.size size = some (n, c')) :
    c'.here = c.here ∧ c'.inst.length ≤ c.inst.length := by
  unfold Cursor.size at h
  split at h
  · cases hread : readSize c.inst with
    | ok read =>
        rw [hread] at h
        cases h
        obtain ⟨ds, -, hsplit, -⟩ :=
          (read_integer_eq_ok_iff (by decide) (Nat.two_pow_pos 32)).1 hread
        refine ⟨rfl, ?_⟩
        rw [hsplit, List.length_append]
        exact Nat.le_add_left _ _
    | error msg =>
        rw [hread] at h
        cases h
  · cases h
    exact ⟨rfl, le_rfl⟩

/-- Nor does reading an address. -/
theorem Cursor.address_eq {c c' : Cursor} {type : Rtype} {addr : Nat}
    (h : c.address type = some (addr, c')) : c'.here = c.here ∧ c'.inst = c.inst := by
  unfold Cursor.address at h
  cases type with
  | cpy mode =>
      simp only at h
      cases hread : decodeAddress c.acache c.here mode c.addr with
      | ok decoded =>
          simp only [hread] at h
          split at h
          · cases h
            exact ⟨rfl, rfl⟩
          · cases h
      | error msg => simp [hread] at h
  | noop | add | run =>
      cases h
      exact ⟨rfl, rfl⟩

/-- What parsing does to the position and to the instructions that are left. -/
structure Parsed (c : Cursor) (hs : List Hinst) (c' : Cursor) : Prop where
  here : c'.here = c.here + totalSize hs
  inst : c'.inst.length ≤ c.inst.length
  type : ∀ h ∈ hs, h.type ≠ .noop

/-- A half-instruction that was read. -/
theorem half_parsed {type : Rtype} {size : Nat} {c c' : Cursor} {hs : List Hinst}
    (h : half type size c = some (hs, c')) : Parsed c hs c' := by
  unfold half at h
  split at h
  · cases h
    exact ⟨rfl, le_rfl, nofun⟩
  · rename_i hnoop
    obtain ⟨⟨n, c₁⟩, hsize, h⟩ := Option.bind_eq_some_iff.1 h
    obtain ⟨⟨addr, c₂⟩, haddr, h⟩ := Option.bind_eq_some_iff.1 h
    cases h
    obtain ⟨hhere₁, hinst₁⟩ := Cursor.size_eq hsize
    obtain ⟨hhere₂, hinst₂⟩ := Cursor.address_eq haddr
    refine ⟨?_, ?_, ?_⟩
    · simp [hhere₁, hhere₂]
    · rw [← hinst₂] at hinst₁
      exact hinst₁
    · intro h hmem
      rw [List.mem_singleton] at hmem
      subst hmem
      exact hnoop

/-- A code that was read, which makes the section shorter. -/
theorem instruction_parsed {c c' : Cursor} {hs : List Hinst}
    (h : instruction c = some (hs, c')) : Parsed c hs c' ∧ c'.inst.length < c.inst.length := by
  unfold instruction at h
  cases hinst : c.inst with
  | nil => simp [hinst] at h
  | cons code inst =>
      simp only [hinst] at h
      obtain ⟨⟨first, c₁⟩, hfirst, h⟩ := Option.bind_eq_some_iff.1 h
      obtain ⟨⟨second, c₂⟩, hsecond, h⟩ := Option.bind_eq_some_iff.1 h
      obtain ⟨rfl, rfl⟩ := Prod.mk.inj (Option.some.inj h)
      have hone := half_parsed hfirst
      have htwo := half_parsed hsecond
      have hle : c₁.inst.length ≤ inst.length := hone.inst
      have hlt : c₂.inst.length < (code :: inst).length :=
        Nat.lt_succ_of_le (htwo.inst.trans hle)
      refine ⟨⟨?_, ?_, ?_⟩, hlt⟩
      · rw [htwo.here, hone.here, total_size_append, Nat.add_assoc]
      · rw [hinst]
        exact hlt.le
      · intro h hmem
        rcases List.mem_append.1 hmem with hmem | hmem
        · exact hone.type h hmem
        · exact htwo.type h hmem

/-- The instructions of one more code. -/
theorem instructions_cons {codes : Nat} {c : Cursor} {hs : List Hinst}
    (h : instructions codes c = some hs) (hinst : c.inst ≠ []) :
    ∃ codes' first c' more, instruction c = some (first, c') ∧
      instructions codes' c' = some more ∧ hs = first ++ more := by
  cases codes with
  | zero => simp [instructions, hinst] at h
  | succ codes =>
      simp only [instructions, if_neg hinst] at h
      obtain ⟨⟨first, c'⟩, hfirst, h⟩ := Option.bind_eq_some_iff.1 h
      obtain ⟨more, hmore, h⟩ := Option.bind_eq_some_iff.1 h
      exact ⟨codes, first, c', more, hfirst, hmore, (Option.some.inj h).symm⟩

/-- Behind the last instruction, no address is left. -/
theorem instructions_nil {codes : Nat} {c : Cursor} {hs : List Hinst}
    (h : instructions codes c = some hs) (hinst : c.inst = []) : c.addr = [] ∧ hs = [] := by
  cases codes with
  | zero =>
      unfold instructions at h
      split at h
      · rename_i hend
        exact ⟨hend.2, (Option.some.inj h).symm⟩
      · cases h
  | succ codes =>
      simp only [instructions, if_pos hinst] at h
      split at h
      · rename_i haddr
        exact ⟨haddr, (Option.some.inj h).symm⟩
      · cases h

/-- What is read are instructions that do something. -/
theorem instructions_type {codes : Nat} {c : Cursor} {hs : List Hinst}
    (h : instructions codes c = some hs) : ∀ h ∈ hs, h.type ≠ .noop := by
  induction codes generalizing c hs with
  | zero =>
      unfold instructions at h
      split at h
      · cases h
        nofun
      · cases h
  | succ codes ih =>
      unfold instructions at h
      split at h
      · split at h
        · cases h
          nofun
        · cases h
      · obtain ⟨⟨first, c'⟩, hfirst, h⟩ := Option.bind_eq_some_iff.1 h
        obtain ⟨more, hmore, h⟩ := Option.bind_eq_some_iff.1 h
        cases h
        intro inst hmem
        rcases List.mem_append.1 hmem with hmem | hmem
        · exact (instruction_parsed hfirst).1.type inst hmem
        · exact ih hmore inst hmem

/-- The instructions with their data, which are to be used up. -/
def withData : List Hinst → Bytes → Option (List (Inst UInt8))
  | [], data => if data = [] then some [] else none
  | h :: hs, data =>
      match h.type with
      | .noop => withData hs data
      | .run =>
          match data with
          | [] => none
          | b :: rest => (withData hs rest).map (.run b h.size :: ·)
      | .add =>
          if h.size ≤ data.length then
            (withData hs (data.drop h.size)).map (.add (data.take h.size) :: ·)
          else none
      | .cpy _ => (withData hs data).map (.copy h.addr h.size :: ·)

/-- Instructions that build something make as much as they say, and their copies do not leave the
segment. -/
theorem with_data_fits {hs : List Hinst} {data segment out target : Bytes}
    {is : List (Inst UInt8)} {start : Nat} (hdata : withData hs data = some is)
    (hbuild : build segment start is out = some target) (htype : ∀ h ∈ hs, h.type ≠ .noop) :
    target.length = out.length + totalSize hs ∧
      ∀ h ∈ hs, ∀ mode, h.type = .cpy mode → h.addr < start → h.addr + h.size ≤ start := by
  induction hs generalizing data is out with
  | nil =>
      unfold withData at hdata
      split at hdata
      · cases hdata
        cases hbuild
        exact ⟨rfl, nofun⟩
      · cases hdata
  | cons h hs ih =>
      have htail := fun h' hmem => htype h' (List.mem_cons_of_mem h hmem)
      have hcons : ∀ (i : Inst UInt8) (js : List (Inst UInt8)) (rest : Bytes), is = i :: js →
          withData hs rest = some js → i.size = h.size →
          (∀ mode, h.type = .cpy mode → h.addr < start → h.addr + h.size ≤ start) →
          target.length = out.length + totalSize (h :: hs) ∧
            ∀ h' ∈ h :: hs, ∀ mode, h'.type = .cpy mode → h'.addr < start →
              h'.addr + h'.size ≤ start := by
        rintro i js rest rfl hrest hsize hfits
        obtain ⟨mid, happly, hbuild⟩ := Option.bind_eq_some_iff.1 hbuild
        obtain ⟨hlength, hall⟩ := ih hrest hbuild htail
        refine ⟨?_, ?_⟩
        · rw [hlength, Inst.length_of_apply happly, hsize, total_size_cons, Nat.add_assoc]
        · intro h' hmem
          rcases List.mem_cons.1 hmem with rfl | hmem
          · exact hfits
          · exact hall h' hmem
      unfold withData at hdata
      cases hkind : h.type with
      | noop => exact absurd hkind (htype h List.mem_cons_self)
      | run =>
          simp only [hkind] at hdata
          cases data with
          | nil => cases hdata
          | cons b rest =>
              obtain ⟨js, hrest, rfl⟩ := Option.map_eq_some_iff.1 hdata
              exact hcons _ js rest rfl hrest rfl fun mode hmode =>
                Rtype.noConfusion (hkind.symm.trans hmode)
      | add =>
          simp only [hkind] at hdata
          split at hdata
          · rename_i hle
            obtain ⟨js, hrest, rfl⟩ := Option.map_eq_some_iff.1 hdata
            exact hcons _ js _ rfl hrest (List.length_take_of_le hle) fun mode hmode =>
              Rtype.noConfusion (hkind.symm.trans hmode)
          · cases hdata
      | cpy mode =>
          simp only [hkind] at hdata
          obtain ⟨js, hrest, rfl⟩ := Option.map_eq_some_iff.1 hdata
          refine hcons _ js data rfl hrest rfl fun _ _ hseg => ?_
          obtain ⟨mid, happly, -⟩ := Option.bind_eq_some_iff.1 hbuild
          simp only [Inst.apply, if_pos hseg] at happly
          split at happly
          · rename_i hroom
            exact hroom.1
          · cases happly

/-- The part of the target that a window makes of a source in which its segment lies. -/
def Window.target (source : Bytes) (w : Window) : Option Bytes := do
  guard (w.head.cpyoff + w.head.cpylen ≤ source.length)
  let cache := AddrCache.init CodeTableDesc.rfc3284.nearModes CodeTableDesc.rfc3284.sameModes
  let hs ← instructions w.inst.length ⟨w.inst, w.addr, cache, w.head.cpylen⟩
  let is ← withData hs w.data
  let out ← build (slice source w.head.cpyoff w.head.cpylen) w.head.cpylen is []
  if out.length = w.head.tgtlen ∧
      (w.head.indicator &&& VCD_ADLER32 ≠ 0 → adler32 32 1 out = Digits.ofBytes w.head.cksum)
  then some out else none

/-- The target from position `start` on, for at most the given number of windows. -/
def windows (blksize : Nat) (source : Bytes) : Nat → Nat → Bytes → Option Bytes
  | _, _, [] => some []
  | 0, _, _ :: _ => none
  | n + 1, start, inp@(_ :: _) =>
      if start < 2 ^ 64 then do
        let (w, rest) ← window blksize inp
        let out ← w.target source
        let more ← windows blksize source n (start + out.length) rest
        some (out ++ more)
      else none

/-- The header. The data of the application are skipped. -/
def header : Reader Unit := do
  let magic ← bytes 4
  check (magic = VCDIFF_MAGIC ++ [0])
  let indicator ← byte
  check (indicator = 0 ∨ indicator = VCD_APPHEADER)
  if indicator = VCD_APPHEADER then do
    let size ← number 32
    check (size + 1 < 2 ^ 32)
    let _ ← bytes size
  else pure ()

end Format

/-- The header does not make the input longer. -/
theorem Format.shortens_header : Format.Shortens Format.header := by
  refine (Format.shortens_bytes 4).bind fun _ => (Format.shortens_check _).bind fun _ =>
    Format.shortens_byte.bind fun indicator => (Format.shortens_check _).bind fun _ => ?_
  split
  · exact (Format.shortens_number (by decide)).bind fun size =>
      (Format.shortens_check _).bind fun _ => (Format.shortens_bytes size).bind fun _ =>
        Format.shortens_pure _
  · exact Format.shortens_pure _

/-- The file that a delta makes of a source. -/
def vcdiff (blksize : Nat) (source delta : Bytes) : Option Bytes := do
  let ((), rest) ← Format.header delta
  Format.windows blksize source rest.length 0 rest

end NamelessCenter.Vcdiff
