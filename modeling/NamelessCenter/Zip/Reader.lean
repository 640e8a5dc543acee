import NamelessCenter.Zip.Directory

/-!
# Reading a ZIP archive

`readZip` is what an archive means: the names and contents of its members, found through the end
record, the central directory and the local headers. It is written from the format and not from
`zipadjust.c`. The data of a member start behind the name and the extra field of its local header.
`WellFormed` describes the single-disk archives of stored and deflated members that the tools are
made for.
-/

namespace NamelessCenter.Zip

open Bytes Native

/-- An end record at `p` whose comment reaches exactly to the end of the file. -/
def IsEnd (x : Bytes) (p : Nat) : Prop :=
  u32At x p = MAGIC_CENTRAL_FOOTER ∧ p + 22 + (u16At x (p + 20)).toNat = x.length

instance (x : Bytes) (p : Nat) : Decidable (IsEnd x p) := inferInstanceAs (Decidable (_ ∧ _))

/-- The last end record below position `n`. -/
def findEnd (x : Bytes) : Nat → Option Nat
  | 0 => none
  | n + 1 => if IsEnd x n then some n else findEnd x n

/-- The content that the bytes `data` stand for, by the method and the sizes of the header. -/
def contentOf (D : RawDeflate) (h : CentralHeader) (data : Bytes) : Option Bytes :=
  if h.compressionMethod = 0 then
    if h.sizeCompressed = h.sizeUncompressed then some data else none
  else if h.compressionMethod = 8 then
    match D.decode data with
    | none => none
    | some (content, _) =>
        if content.length = h.sizeUncompressed.toNat then some content else none
  else none

/-- Where the data of a member start: behind its local header, name and local extra field. -/
def memberStart (x : Bytes) (h : CentralHeader) : Nat :=
  h.offset.toNat + 30 + (LocalHeader.decode (x.drop h.offset.toNat)).lengthFilename.toNat +
    (LocalHeader.decode (x.drop h.offset.toNat)).lengthExtra.toNat

/-- The content of the member with central header `h`. -/
def memberContent (D : RawDeflate) (x : Bytes) (h : CentralHeader) : Option Bytes :=
  if u32At x h.offset.toNat = MAGIC_LOCAL_HEADER ∧
      memberStart x h + h.sizeCompressed.toNat ≤ x.length then
    contentOf D h (slice x (memberStart x h) h.sizeCompressed.toNat)
  else none

/-- The names and contents of the members whose central headers start at `pos`. -/
def readMembers (D : RawDeflate) (x : Bytes) : Nat → Nat → Option (List (Bytes × Bytes))
  | 0, _ => some []
  | n + 1, pos =>
      let h := CentralHeader.decode (x.drop pos)
      if h.signature = MAGIC_CENTRAL_HEADER ∧ pos + 46 + h.lengthFilename.toNat ≤ x.length then
        match memberContent D x h with
        | none => none
        | some content =>
            (readMembers D x n (pos + headerSpan h)).map
              ((slice x (pos + 46) h.lengthFilename.toNat, content) :: ·)
      else none

/-- The names and contents of the members of an archive, in the order of its directory. -/
def readZip (D : RawDeflate) (x : Bytes) : Option (List (Bytes × Bytes)) :=
  match findEnd x x.length with
  | none => none
  | some p =>
      let footer := CentralFooter.decode (slice x p 22)
      readMembers D x footer.centralDirectoryEntriesTotal.toNat
        footer.centralDirectoryOffset.toNat

/-- A well-formed single-disk archive with the end record `footer` at `i` and the central headers
`hs`. -/
structure WellFormed (D : RawDeflate) (x : Bytes) (i : Nat) (footer : CentralFooter)
    (hs : List CentralHeader) : Prop where
  endRecord : findEnd x x.length = some i
  footer_eq : footer = CentralFooter.decode (slice x i 22)
  singleDisk : footer.diskNumber = 0 ∧ footer.diskNumberCentralDirectory = 0 ∧
    footer.centralDirectoryEntriesThisDisk = footer.centralDirectoryEntriesTotal
  nonempty : hs ≠ []
  count : footer.centralDirectoryEntriesTotal.toNat = hs.length
  directory : Directory x footer.centralDirectoryOffset.toNat hs i
  directorySize : footer.centralDirectoryOffset.toNat + footer.centralDirectorySize.toNat = i
  localHeader : ∀ h ∈ hs, u32At x h.offset.toNat = MAGIC_LOCAL_HEADER ∧
    (LocalHeader.decode (x.drop h.offset.toNat)).lengthFilename = h.lengthFilename
  data : ∀ h ∈ hs,
    memberStart x h + h.sizeCompressed.toNat ≤ footer.centralDirectoryOffset.toNat
  content : ∀ h ∈ hs, memberContent D x h ≠ none

instance (D : RawDeflate) (x : Bytes) (i : Nat) (footer : CentralFooter)
    (hs : List CentralHeader) : Decidable (WellFormed D x i footer hs) :=
  decidable_of_iff
    (findEnd x x.length = some i ∧ footer = CentralFooter.decode (slice x i 22) ∧
      (footer.diskNumber = 0 ∧ footer.diskNumberCentralDirectory = 0 ∧
        footer.centralDirectoryEntriesThisDisk = footer.centralDirectoryEntriesTotal) ∧
      hs ≠ [] ∧ footer.centralDirectoryEntriesTotal.toNat = hs.length ∧
      Directory x footer.centralDirectoryOffset.toNat hs i ∧
      footer.centralDirectoryOffset.toNat + footer.centralDirectorySize.toNat = i ∧
      (∀ h ∈ hs, u32At x h.offset.toNat = MAGIC_LOCAL_HEADER ∧
        (LocalHeader.decode (x.drop h.offset.toNat)).lengthFilename = h.lengthFilename) ∧
      (∀ h ∈ hs,
        memberStart x h + h.sizeCompressed.toNat ≤ footer.centralDirectoryOffset.toNat) ∧
      ∀ h ∈ hs, memberContent D x h ≠ none)
    ⟨fun ⟨h₁, h₂, h₃, h₄, h₅, h₆, h₇, h₈, h₉, h₁₀⟩ => ⟨h₁, h₂, h₃, h₄, h₅, h₆, h₇, h₈, h₉, h₁₀⟩,
      fun h => ⟨h.endRecord, h.footer_eq, h.singleDisk, h.nonempty, h.count, h.directory,
        h.directorySize, h.localHeader, h.data, h.content⟩⟩

/-! ## The end record -/

/-- What the scan of a reader finds. -/
theorem find_end_eq_some {x : Bytes} {n p : Nat} (h : findEnd x n = some p) :
    p < n ∧ IsEnd x p := by
  induction n with
  | zero => cases h
  | succ n ih =>
      unfold findEnd at h
      split at h
      · rename_i hend
        cases h
        exact ⟨Nat.lt_succ_self _, hend⟩
      · obtain ⟨hlt, hend⟩ := ih h
        exact ⟨Nat.lt_succ_of_lt hlt, hend⟩

/-- The last end record is found. -/
theorem find_end_of_last {x : Bytes} {n p : Nat} (hlt : p < n) (hend : IsEnd x p)
    (hlast : ∀ q, p < q → ¬ IsEnd x q) : findEnd x n = some p := by
  induction n with
  | zero => omega
  | succ n ih =>
      unfold findEnd
      by_cases hn : n = p
      · subst hn
        rw [if_pos hend]
      · rw [if_neg (hlast n (by omega))]
        exact ih (by omega)

/-- A file that ends with an end record without comment has it as its last end record. -/
theorem find_end_append {front : Bytes} {footer : CentralFooter}
    (hsignature : footer.signature = MAGIC_CENTRAL_FOOTER) (hcomment : footer.lengthComment = 0) :
    findEnd (front ++ footer.encode) (front ++ footer.encode).length = some front.length := by
  have hlen : (front ++ footer.encode).length = front.length + 22 := by
    rw [List.length_append, CentralFooter.length_encode]
  have hfooter := CentralFooter.decode_encode footer
  refine find_end_of_last (by omega) ⟨?_, ?_⟩ ?_
  · have hfirst := CentralFooter.u32_at_encode_append footer []
    rw [List.append_nil] at hfirst
    rw [u32_at_append_right (Nat.le_refl _), Nat.sub_self, hfirst, hsignature]
  · have hlast : u16At footer.encode 20 = 0 := by
      have hfield := congrArg CentralFooter.lengthComment hfooter
      rw [hcomment] at hfield
      exact hfield
    rw [u16_at_append_right (by omega), Nat.add_sub_cancel_left, hlast, hlen]
    rfl
  · rintro q hq ⟨-, hreach⟩
    omega

/-! ## Members -/

/-- The members of a list of entries, with contents given by `content`. -/
def gather (content : Entry → Option Bytes) : List Entry → Option (List (Bytes × Bytes))
  | [] => some []
  | e :: es =>
      match content e with
      | none => none
      | some bytes => (gather content es).map ((e.filename, bytes) :: ·)

/-- When all contents of one kind exist, two kinds of contents agree on the whole list exactly if
they agree on every entry. -/
theorem gather_eq_iff {f g : Entry → Option Bytes} {es : List Entry}
    (hg : ∀ e ∈ es, g e ≠ none) : gather f es = gather g es ↔ ∀ e ∈ es, f e = g e := by
  induction es with
  | nil => simp [gather]
  | cons e es ih =>
      have htail := ih fun e' he' => hg e' (List.mem_cons_of_mem _ he')
      have hexists : ∀ {l : List Entry}, (∀ e ∈ l, g e ≠ none) → ∃ ms, gather g l = some ms := by
        intro l
        induction l with
        | nil => exact fun _ => ⟨[], rfl⟩
        | cons e' l ihl =>
            intro hl
            obtain ⟨ms, hms⟩ := ihl fun e'' he'' => hl e'' (List.mem_cons_of_mem _ he'')
            obtain ⟨content, hcontent⟩ := Option.ne_none_iff_exists'.1 (hl e' List.mem_cons_self)
            exact ⟨(e'.filename, content) :: ms, by rw [gather, hcontent, hms]; rfl⟩
      obtain ⟨ms, hms⟩ := hexists fun e' he' => hg e' (List.mem_cons_of_mem e he')
      obtain ⟨content, hcontent⟩ := Option.ne_none_iff_exists'.1 (hg e List.mem_cons_self)
      rw [List.forall_mem_cons, gather, gather, hcontent, hms]
      constructor
      · intro heq
        cases hf : f e with
        | none => simp [hf] at heq
        | some bytes =>
            simp only [hf, Option.map_some, Option.map_eq_some_iff, List.cons.injEq,
              Prod.mk.injEq, true_and] at heq
            obtain ⟨ms', hms', rfl, rfl⟩ := heq
            exact ⟨rfl, htail.1 (hms'.trans hms.symm)⟩
      · rintro ⟨hf, hrest⟩
        rw [hf, htail.2 hrest, hms]

section Input

variable {D : RawDeflate} {x : Bytes} {decompress : Bool}

/-- Reading the members of a directory visits the entries that the rewriter visits. -/
theorem read_members_of_read {rounds pos len : Nat} {hs : List CentralHeader} {stop : Nat}
    {es : List Entry} (hdirectory : Directory x pos hs stop)
    (hend : u32At x stop = MAGIC_CENTRAL_FOOTER)
    (h : readDirectory D x decompress rounds (slice x pos len) = some es) :
    readMembers D x hs.length pos = gather (fun e => memberContent D x e.header) es := by
  induction hs generalizing pos len rounds es with
  | nil =>
      have hnil := read_directory_headers hdirectory hend h
      rw [List.map_eq_nil_iff] at hnil
      rw [hnil]
      rfl
  | cons first hs ih =>
      cases rounds with
      | zero => cases h
      | succ rounds =>
          obtain ⟨e, rest, rfl, hread, hheader, htail⟩ := read_directory_first hdirectory h
          obtain ⟨hfirst, hsignature, hrest⟩ := hdirectory
          have hroom := hread.room
          rw [length_slice] at hroom
          have hname : e.filename = slice x (pos + 46) first.lengthFilename.toNat := by
            rw [hread.filename, hheader, slice_slice (by rw [← hheader]; omega)]
          rw [List.length_cons, readMembers]
          simp only [← hfirst]
          rw [if_pos ⟨hsignature, by rw [← hheader]; omega⟩, ih hrest htail, gather, hheader,
            hname]

end Input

end NamelessCenter.Zip
