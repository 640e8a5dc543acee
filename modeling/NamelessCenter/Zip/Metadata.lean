import Mathlib.Data.List.Forall2
import NamelessCenter.Zip.Contents

/-!
# The metadata of a rewritten archive

The rewriter overwrites sizes, offsets and lengths of the headers and means to clear the flag that
announces a data descriptor. `MetadataPreserved` says that everything else of a central header
survives, and every other flag in both headers. The mask of the flags is wrong:
`metadata_preserved_iff` says that all flags are cleared and everything else is kept.
-/

namespace NamelessCenter.Zip

open Bytes Native

/-- The central header `h'` of `out` keeps what rewriting need not change of `h`, and so does the
local header it leads to for the flags. -/
structure Keeps (out : Bytes) (h h' : CentralHeader) : Prop where
  versionMade : h'.versionMade = h.versionMade
  versionNeeded : h'.versionNeeded = h.versionNeeded
  flags : h'.flags = h.flags &&& ~~~8
  lastModifiedTime : h'.lastModifiedTime = h.lastModifiedTime
  lastModifiedDate : h'.lastModifiedDate = h.lastModifiedDate
  crc32 : h'.crc32 = h.crc32
  sizeUncompressed : h'.sizeUncompressed = h.sizeUncompressed
  diskStart : h'.diskStart = h.diskStart
  attrInternal : h'.attrInternal = h.attrInternal
  attrExternal : h'.attrExternal = h.attrExternal
  localFlags : (LocalHeader.decode (out.drop h'.offset.toNat)).flags = h.flags &&& ~~~8

/-- The size of an entry's region in the output, by its headers. -/
def regionSize (decompress : Bool) (h : CentralHeader) : Nat :=
  30 + h.lengthFilename.toNat + (correctCentral decompress 0 h).sizeCompressed.toNat

/-- Where the output's directory starts: behind the regions of the entries. -/
def directoryStart (decompress : Bool) (hs : List CentralHeader) : Nat :=
  (hs.map (regionSize decompress)).sum

/-- The headers in the output's directory keep the metadata of the headers `hs`, one by one. -/
def MetadataPreserved (out : Bytes) (decompress : Bool) (hs : List CentralHeader) : Prop :=
  ∃ hs' stop, Directory out (directoryStart decompress hs) hs' stop ∧
    List.Forall₂ (Keeps out) hs hs'

/-- No flag but the one for the data descriptor is set. -/
def NoOtherFlags (hs : List CentralHeader) : Prop := ∀ h ∈ hs, h.flags &&& ~~~8 = 0

/-- A position and a number of headers determine the headers of a directory. -/
theorem Directory.unique {x : Bytes} {pos stop stop' : Nat} {hs hs' : List CentralHeader}
    (h : Directory x pos hs stop) (h' : Directory x pos hs' stop') (hlen : hs.length = hs'.length) :
    hs = hs' := by
  induction hs generalizing pos hs' with
  | nil => rw [List.eq_nil_of_length_eq_zero hlen.symm]
  | cons first hs ih =>
      cases hs' with
      | nil => cases hlen
      | cons first' hs' =>
          obtain ⟨hfirst, -, hrest⟩ := h
          obtain ⟨hfirst', -, hrest'⟩ := h'
          have hsame : first = first' := hfirst.trans hfirst'.symm
          subst hsame
          rw [ih hrest hrest' (Nat.succ.inj hlen)]

/-! ## Where the headers are written -/

section Written

variable {decompress : Bool}

/-- The positions of an entry's name and data are sums modulo 2^32. -/
theorem name_data_to_nat_mod (o : UInt32) (h : CentralHeader) :
    (o + 30).toNat = (o.toNat + 30) % 2 ^ 32 ∧
      (o + 30 + UInt32.ofNat h.lengthFilename.toNat).toNat =
        (o.toNat + 30 + h.lengthFilename.toNat) % 2 ^ 32 := by
  have hthirty : (o + 30).toNat = (o.toNat + 30) % 2 ^ 32 := UInt32.toNat_add o 30
  refine ⟨hthirty, ?_⟩
  rw [UInt32.toNat_add, hthirty, UInt32.toNat_ofNat', ← Nat.add_mod]

/-- The next index is the end of the entry's region, modulo 2^32. -/
theorem next_to_nat_mod (decompress : Bool) (e : Entry) (o : UInt32) :
    (e.next decompress o).toNat = (o.toNat + regionSize decompress e.header) % 2 ^ 32 := by
  have hsize : (e.localOut decompress).sizeCompressed =
      (correctCentral decompress 0 e.header).sizeCompressed := rfl
  unfold Entry.next regionSize
  rw [UInt32.toNat_add, (name_data_to_nat_mod o e.header).2, Nat.mod_add_mod, hsize]
  congr 1
  omega

/-- Where the name and the data of an entry start, if nothing wraps around. -/
theorem next_to_nat_of_region {e : Entry} {o : UInt32}
    (hfit : o.toNat + regionSize decompress e.header < 2 ^ 32) :
    (o + 30).toNat = o.toNat + 30 ∧
      (o + 30 + UInt32.ofNat e.header.lengthFilename.toNat).toNat =
        o.toNat + 30 + e.header.lengthFilename.toNat ∧
      (e.next decompress o).toNat = o.toNat + regionSize decompress e.header := by
  have hdata : 30 + e.header.lengthFilename.toNat ≤ regionSize decompress e.header :=
    Nat.le_add_right _ _
  obtain ⟨hname, hsecond⟩ := name_data_to_nat_mod o e.header
  rw [hname, hsecond, next_to_nat_mod, Nat.mod_eq_of_lt hfit, Nat.mod_eq_of_lt (by omega),
    Nat.mod_eq_of_lt (by omega)]
  exact ⟨rfl, rfl, rfl⟩

/-- Writing an entry leaves alone what lies before it. -/
theorem slice_write_before {e : Entry} {fout : Bytes} {o : UInt32} {start len : Nat}
    (hfit : o.toNat + regionSize decompress e.header < 2 ^ 32) (hbefore : start + len ≤ o.toNat)
    (hroom : start + len ≤ fout.length) :
    slice (e.write decompress fout o) start len = slice fout start len := by
  obtain ⟨hfirst, hsecond, -⟩ := next_to_nat_of_region hfit
  have hroom' := hroom.trans (le_length_splice fout o.toNat (e.localOut decompress).encode)
  rw [Entry.write, slice_splice_before (by omega) (hroom'.trans (le_length_splice _ _ _)),
    slice_splice_before (by omega) hroom', slice_splice_before hbefore hroom]

/-- Writing an entry puts its local header at the output index. -/
theorem slice_write_local {e : Entry} (fout : Bytes) {o : UInt32}
    (hfit : o.toNat + regionSize decompress e.header < 2 ^ 32) :
    slice (e.write decompress fout o) o.toNat 30 = (e.localOut decompress).encode ∧
      o.toNat + 30 ≤ (e.write decompress fout o).length := by
  obtain ⟨hfirst, hsecond, -⟩ := next_to_nat_of_region hfit
  have hroom := end_le_length_splice fout o.toNat (e.localOut decompress).encode_ne_nil
  have hself := slice_splice_self fout (e.localOut decompress).encode o.toNat
  rw [LocalHeader.length_encode] at hroom hself
  have hroom' := hroom.trans (le_length_splice _ (o + 30).toNat e.filename)
  refine ⟨?_, hroom'.trans (le_length_splice _ _ _)⟩
  rw [Entry.write, slice_splice_before (by omega) hroom', slice_splice_before (by omega) hroom,
    hself]

/-- The local headers of the entries lie in `out`, one at each output index. -/
def LocalHeadersAt (decompress : Bool) (out : Bytes) : UInt32 → List Entry → Prop
  | _, [] => True
  | o, e :: es =>
      slice out o.toNat 30 = (e.localOut decompress).encode ∧
        LocalHeadersAt decompress out (e.next decompress o) es

/-- Writing entries leaves alone what lies before them and puts their local headers in place. -/
theorem place_headers {es : List Entry} (fout : Bytes) {o : UInt32}
    (hfit : o.toNat + directoryStart decompress (es.map Entry.header) < 2 ^ 32) :
    (∀ start len, start + len ≤ o.toNat → start + len ≤ fout.length →
      slice (place decompress fout o es) start len = slice fout start len) ∧
    LocalHeadersAt decompress (place decompress fout o es) o es ∧
    (advance decompress o es).toNat =
      o.toNat + directoryStart decompress (es.map Entry.header) := by
  -- the first entry's header stays in place because the others are written behind its region
  induction es generalizing fout o with
  | nil => exact ⟨fun _ _ _ _ => rfl, trivial, rfl⟩
  | cons e es ih =>
      have hsum : directoryStart decompress ((e :: es).map Entry.header) =
          regionSize decompress e.header + directoryStart decompress (es.map Entry.header) := rfl
      rw [hsum] at hfit ⊢
      have hregion : o.toNat + regionSize decompress e.header < 2 ^ 32 := by omega
      obtain ⟨-, -, hnext⟩ := next_to_nat_of_region hregion
      obtain ⟨hlocal, hroom⟩ := slice_write_local fout hregion
      obtain ⟨hbefore, hrest, hend⟩ :=
        ih (e.write decompress fout o) (o := e.next decompress o) (by omega)
      have hsize : 30 ≤ regionSize decompress e.header := by
        unfold regionSize
        omega
      refine ⟨fun start len hstart hlen => ?_, ⟨?_, hrest⟩, ?_⟩
      · rw [place, hbefore start len (by omega) (hlen.trans (le_length_write e fout o)),
          slice_write_before hregion hstart hlen]
      · rw [place, hbefore _ _ (by omega) hroom, hlocal]
      · rw [advance, hend, hnext]
        omega

/-- Later writes behind the regions of the entries leave their local headers alone. -/
theorem LocalHeadersAt.mono {es : List Entry} {out out' : Bytes} {o : UInt32}
    (hfit : o.toNat + directoryStart decompress (es.map Entry.header) < 2 ^ 32)
    (hkept : ∀ start len,
      start + len ≤ o.toNat + directoryStart decompress (es.map Entry.header) →
      start + len ≤ out.length → slice out' start len = slice out start len)
    (h : LocalHeadersAt decompress out o es) : LocalHeadersAt decompress out' o es := by
  induction es generalizing o with
  | nil => trivial
  | cons e es ih =>
      obtain ⟨hlocal, hrest⟩ := h
      have hsum : directoryStart decompress ((e :: es).map Entry.header) =
          regionSize decompress e.header + directoryStart decompress (es.map Entry.header) := rfl
      rw [hsum] at hfit hkept
      obtain ⟨-, -, hnext⟩ := next_to_nat_of_region (show o.toNat + regionSize decompress e.header <
        2 ^ 32 by omega)
      have hsize : 30 ≤ regionSize decompress e.header := by
        unfold regionSize
        omega
      have hlen := congrArg List.length hlocal
      rw [length_slice, LocalHeader.length_encode] at hlen
      refine ⟨by rw [hkept _ _ (by omega) (by omega), hlocal], ?_⟩
      exact ih (by omega) (fun start len hstart hroom => hkept start len (by omega) hroom) hrest

/-- The regions and the directory of a list of entries have the sizes of the headers. -/
theorem directory_sizes (decompress : Bool) {es : List Entry}
    (hnames : ∀ e ∈ es, e.filename.length = e.header.lengthFilename.toNat) (o : UInt32) :
    directoryStart decompress (es.map Entry.header) + (directory decompress o es).length =
      ((es.map Entry.header).map (outputSize decompress)).sum := by
  induction es generalizing o with
  | nil => rfl
  | cons e es ih =>
      have hrest := ih (fun e' he' => hnames e' (List.mem_cons_of_mem _ he')) (e.next decompress o)
      have hname := hnames e List.mem_cons_self
      simp only [directoryStart, List.map_cons, List.sum_cons, directory, List.length_append,
        Entry.record, CentralHeader.length_encode] at hrest ⊢
      rw [← hrest, regionSize, outputSize, hname]
      omega

/-- Where the headers are in the output: the local headers at the output indices, the central ones
behind the regions of the entries. -/
theorem rewritten_headers (footer : CentralFooter) {es : List Entry}
    (hnames : ∀ e ∈ es, e.filename.length = e.header.lengthFilename.toNat)
    (hfit : ((es.map Entry.header).map (outputSize decompress)).sum + 22 < 2 ^ 32) :
    LocalHeadersAt decompress (rewritten decompress footer es) 0 es ∧
      slice (rewritten decompress footer es) (directoryStart decompress (es.map Entry.header))
        (directory decompress 0 es).length = directory decompress 0 es := by
  have hsizes := directory_sizes decompress hnames 0
  have hzero : (0 : UInt32).toNat = 0 := rfl
  have hstart : (0 : UInt32).toNat + directoryStart decompress (es.map Entry.header) < 2 ^ 32 := by
    omega
  obtain ⟨-, hlocals, hend⟩ := place_headers [] hstart
  rw [hzero, Nat.zero_add] at hend
  have hsize : (UInt32.ofNat (directory decompress 0 es).length).toNat =
      (directory decompress 0 es).length := by
    rw [UInt32.toNat_ofNat', Nat.mod_eq_of_lt (by omega)]
  have hclosing : (advance decompress 0 es +
      UInt32.ofNat (directory decompress 0 es).length).toNat =
      directoryStart decompress (es.map Entry.header) + (directory decompress 0 es).length := by
    rw [to_nat_add_of_lt (by omega), hend, hsize]
  unfold rewritten finish xseekwrite
  simp only [hsize, List.take_length, hclosing, hend]
  generalize place decompress [] 0 es = fout at hlocals ⊢
  have hself := slice_splice_self fout (directory decompress 0 es)
    (directoryStart decompress (es.map Entry.header))
  refine ⟨hlocals.mono hstart fun start len hbefore hroom => ?_, ?_⟩
  · rw [slice_splice_before (by omega) (hroom.trans (le_length_splice _ _ _)),
      slice_splice_before (by omega) hroom]
  · -- an archive without entries has an empty directory, which needs no room
    have hlen := congrArg List.length hself
    rw [length_slice] at hlen
    by_cases hnil : directory decompress 0 es = []
    · rw [hnil]
      exact List.take_zero
    · have hroom := end_le_length_splice fout (directoryStart decompress (es.map Entry.header)) hnil
      rw [slice_splice_before (Nat.le_refl _) hroom, hself]

/-- The headers of an output directory, with their output offsets. -/
def centralHeaders (decompress : Bool) : UInt32 → List Entry → List CentralHeader
  | _, [] => []
  | o, e :: es => e.central decompress o :: centralHeaders decompress (e.next decompress o) es

/-- There is one header for each entry. -/
theorem length_central_headers (es : List Entry) (o : UInt32) :
    (es.map Entry.header).length = (centralHeaders decompress o es).length := by
  induction es generalizing o with
  | nil => rfl
  | cons e es ih => rw [List.map_cons, centralHeaders, List.length_cons, List.length_cons, ih]

/-- Where the bytes of an output directory are, its headers are. -/
theorem directory_of_slice {es : List Entry} {out : Bytes} {o : UInt32} {pos : Nat}
    (hnames : ∀ e ∈ es, e.filename.length = e.header.lengthFilename.toNat)
    (hsignature : ∀ e ∈ es, e.header.signature = MAGIC_CENTRAL_HEADER)
    (h : slice out pos (directory decompress o es).length = directory decompress o es) :
    ∃ stop, Directory out pos (centralHeaders decompress o es) stop := by
  induction es generalizing o pos with
  | nil => exact ⟨pos, rfl⟩
  | cons e es ih =>
      have hname := hnames e List.mem_cons_self
      have hrecord : directory decompress o (e :: es) =
          (e.central decompress o).encode ++
            (e.filename ++ directory decompress (e.next decompress o) es) := by
        rw [directory, Entry.record, List.append_assoc]
      have hspan : headerSpan (e.central decompress o) = 46 + e.filename.length := by
        rw [hname]
        rfl
      rw [hrecord, List.length_append, List.length_append, CentralHeader.length_encode,
        slice_add, slice_add, Nat.add_assoc] at h
      have hlen := congrArg List.length h
      simp only [List.length_append, length_slice, CentralHeader.length_encode] at hlen
      obtain ⟨hheader, hrest⟩ := List.append_inj h (by
        rw [CentralHeader.length_encode, length_slice]
        omega)
      obtain ⟨-, hrest⟩ := List.append_inj hrest (by
        rw [length_slice]
        omega)
      obtain ⟨stop, hdirectory⟩ := ih (fun e' he' => hnames e' (List.mem_cons_of_mem _ he'))
        (fun e' he' => hsignature e' (List.mem_cons_of_mem _ he')) hrest
      refine ⟨stop, ?_, hsignature e List.mem_cons_self, ?_⟩
      · rw [← CentralHeader.decode_slice (Nat.le_refl 46), hheader, CentralHeader.decode_encode]
      · rw [hspan]
        exact hdirectory

/-- The corrected headers of an entry keep the metadata exactly if no other flag is set. -/
theorem keeps_iff {out : Bytes} {e : Entry} {o : UInt32}
    (hlocal : slice out o.toNat 30 = (e.localOut decompress).encode) :
    Keeps out e.header (e.central decompress o) ↔ e.header.flags &&& ~~~8 = 0 := by
  -- the mask `!8` is zero
  have hflags : (e.central decompress o).flags = 0 := UInt16.and_zero
  have hlocalFlags : (LocalHeader.decode (out.drop o.toNat)).flags = 0 := by
    rw [← LocalHeader.decode_slice (Nat.le_refl 30), hlocal, LocalHeader.decode_encode]
    exact UInt16.and_zero
  constructor
  · intro h
    rw [← h.flags, hflags]
  · intro h
    exact ⟨rfl, rfl, hflags.trans h.symm, rfl, rfl, rfl, rfl, rfl, rfl, rfl,
      hlocalFlags.trans h.symm⟩

/-- All headers keep the metadata exactly if no entry has another flag. -/
theorem forall₂_keeps_iff {out : Bytes} {es : List Entry} {o : UInt32}
    (h : LocalHeadersAt decompress out o es) :
    List.Forall₂ (Keeps out) (es.map Entry.header) (centralHeaders decompress o es) ↔
      NoOtherFlags (es.map Entry.header) := by
  induction es generalizing o with
  | nil => simp [centralHeaders, NoOtherFlags]
  | cons e es ih =>
      obtain ⟨hlocal, hrest⟩ := h
      rw [List.map_cons, centralHeaders, List.forall₂_cons, keeps_iff hlocal, ih hrest,
        NoOtherFlags, NoOtherFlags, List.forall_mem_cons]

end Written

/-! ## Rewritten archives -/

/-- The rewriter selects the archive's own end record, and its output stays below 4 GiB. -/
structure InReach (x : Bytes) (i : Nat) (decompress : Bool) (hs : List CentralHeader) : Prop where
  input : x.length < 2 ^ 32
  lastEnd : PassesLater x i
  output : (hs.map (outputSize decompress)).sum + 22 < 2 ^ 32

/-- Rewriting a well-formed archive preserves the metadata of its entries if their flags have at
most the bit for the data descriptor, and only then. -/
theorem metadata_preserved_iff {Z : Inflater} {D : RawDeflate} (hZ : Z.Sound D) {fuel : Nat}
    {x out : Bytes} {decompress : Bool} {i : Nat} {footer : CentralFooter}
    {hs : List CentralHeader} (hwf : WellFormed D x i footer hs)
    (hrun : zipadjust Z fuel x decompress = .ok out) :
    (InReach x i decompress hs ∧ NoOtherFlags hs → MetadataPreserved out decompress hs) ∧
      (InReach x i decompress hs → MetadataPreserved out decompress hs → NoOtherFlags hs) := by
  have hiff : InReach x i decompress hs →
      (MetadataPreserved out decompress hs ↔ NoOtherFlags hs) := by
    intro hreach
    obtain ⟨i', footer', es, hselect, hentries, rfl⟩ := zipadjust_sound hZ hrun
    obtain ⟨rfl, rfl⟩ := select_footer_well_formed hwf hreach.input hreach.lastEnd hselect
    obtain ⟨-, hend, -⟩ := find_end_eq_some hwf.endRecord
    have hheaders := entries_of_headers hselect hwf.directory hend hentries
    have hnames : ∀ e ∈ es, e.filename.length = e.header.lengthFilename.toNat := by
      intro e he
      obtain ⟨rest, hread, -⟩ := entries_of_mem hentries he
      exact hread.length_filename
    have hsignature : ∀ e ∈ es, e.header.signature = MAGIC_CENTRAL_HEADER := by
      intro e he
      obtain ⟨rest, -, hmagic⟩ := entries_of_mem hentries he
      exact hmagic
    obtain ⟨hlocals, hslice⟩ := rewritten_headers footer' hnames (hheaders ▸ hreach.output)
    obtain ⟨stop, hdirectory⟩ := directory_of_slice hnames hsignature hslice
    rw [hheaders] at hdirectory
    have hkeeps := forall₂_keeps_iff hlocals
    rw [hheaders] at hkeeps
    rw [← hkeeps]
    constructor
    · -- a directory with as many headers at the same position is the one that was written
      intro ⟨hs', stop', hdirectory', hall⟩
      have hlen : hs'.length = (centralHeaders decompress 0 es).length := by
        rw [← hall.length_eq, ← hheaders]
        exact length_central_headers es 0
      rwa [← hdirectory'.unique hdirectory hlen]
    · exact fun hall => ⟨_, stop, hdirectory, hall⟩
  exact ⟨fun ⟨hreach, hflags⟩ => (hiff hreach).2 hflags, fun hreach => (hiff hreach).1⟩

/-- The members of `deflatedPair` have no flags. -/
theorem metadata_preserved_pair : MetadataPreserved storedPair true pairHeaders := by
  have hflags : NoOtherFlags pairHeaders := by
    unfold NoOtherFlags
    decide +kernel
  have hreach : InReach deflatedPair 173 true pairHeaders :=
    ⟨by decide +kernel, passes_later_pair, by decide +kernel⟩
  exact (metadata_preserved_iff stored_block_sound well_formed_pair zipadjust_deflated_pair).1
    ⟨hreach, hflags⟩

/-- The archive `storedHi` with the flag for UTF-8 names in both headers. -/
def utf8Hi : Bytes := splice (splice storedHi 6 (le16 0x0800)) 41 (le16 0x0800)

/-- The flag for UTF-8 names is lost. -/
theorem rewriting_loses_utf8_flag :
    WellFormed storedBlock utf8Hi 80 (CentralFooter.decode (utf8Hi.drop 80))
      [CentralHeader.decode (utf8Hi.drop 33)] ∧
    ∃ out, zipadjust (.ofDecoder storedBlock) 0 utf8Hi false = .ok out ∧
      ¬ MetadataPreserved out false [CentralHeader.decode (utf8Hi.drop 33)] := by
  refine ⟨by decide +kernel, storedHi, by decide +kernel, ?_⟩
  intro ⟨hs', stop, hdirectory, hall⟩
  cases hall with
  | cons hkeeps hnil =>
      obtain ⟨hfirst, -⟩ := hdirectory
      have hflags := hkeeps.flags
      rw [hfirst] at hflags
      revert hflags
      decide +kernel

end NamelessCenter.Zip
