import NamelessCenter.Zip.Reread

/-!
# Central directories of input archives

`Directory x pos hs stop` says that the central headers `hs`, each with its name, extra field and
comment, fill the file `x` from `pos` to `stop`. When an end record follows a directory, the
rewriter reads exactly its headers (`read_directory_headers`, `entries_of_headers`).
-/

namespace NamelessCenter.Zip

open Bytes Native

/-- The central headers `hs` with their variable fields fill `x` from `pos` to `stop`. -/
def Directory (x : Bytes) : Nat → List CentralHeader → Nat → Prop
  | pos, [], stop => pos = stop
  | pos, h :: hs, stop =>
      h = CentralHeader.decode (x.drop pos) ∧ h.signature = MAGIC_CENTRAL_HEADER ∧
        Directory x (pos + headerSpan h) hs stop

instance decidableDirectory (x : Bytes) : ∀ (pos : Nat) (hs : List CentralHeader) (stop : Nat),
    Decidable (Directory x pos hs stop)
  | pos, [], stop => inferInstanceAs (Decidable (pos = stop))
  | pos, h :: hs, stop =>
      have := decidableDirectory x (pos + headerSpan h) hs stop
      inferInstanceAs (Decidable (_ ∧ _ ∧ _))

/-- The fields of a central header are those of the bytes behind its position. -/
theorem CentralHeader.decode_slice {x : Bytes} {pos len : Nat} (h : 46 ≤ len) :
    CentralHeader.decode (slice x pos len) = CentralHeader.decode (x.drop pos) := by
  simp (disch := omega) only [decode, u16_at_slice, u32_at_slice, u16_at_drop, u32_at_drop]

/-- The fields of a local header are those of the bytes behind its position. -/
theorem LocalHeader.decode_slice {x : Bytes} {pos len : Nat} (h : 30 ≤ len) :
    LocalHeader.decode (slice x pos len) = LocalHeader.decode (x.drop pos) := by
  simp (disch := omega) only [decode, u16_at_slice, u32_at_slice, u16_at_drop, u32_at_drop]

/-- A directory ends behind its start. -/
theorem Directory.le {x : Bytes} {pos stop : Nat} {hs : List CentralHeader}
    (h : Directory x pos hs stop) : pos ≤ stop := by
  induction hs generalizing pos with
  | nil => exact Nat.le_of_eq h
  | cons first hs ih => exact (Nat.le_add_right _ _).trans (ih h.2.2)

/-- A directory that is not empty starts with a central header. -/
theorem Directory.central {x : Bytes} {pos stop : Nat} {hs : List CentralHeader}
    (h : Directory x pos hs stop) (hne : hs ≠ []) :
    pos + 46 ≤ stop ∧ u32At x pos = MAGIC_CENTRAL_HEADER := by
  obtain ⟨first, rest, rfl⟩ := List.exists_cons_of_ne_nil hne
  obtain ⟨hfirst, hsignature, htail⟩ := h
  have hroom := htail.le
  rw [headerSpan] at hroom
  refine ⟨by omega, ?_⟩
  rw [← hsignature, hfirst, CentralHeader.signature_decode_drop]

section Reading

variable {D : RawDeflate} {x : Bytes} {decompress : Bool}

/-- A round at the first header of a directory reads it, and goes on behind its record. -/
theorem read_directory_first {first : CentralHeader} {hs : List CentralHeader}
    {pos len stop rounds : Nat} {es : List Entry} (hdirectory : Directory x pos (first :: hs) stop)
    (h : readDirectory D x decompress (rounds + 1) (slice x pos len) = some es) :
    ∃ e rest, es = e :: rest ∧ ReadAt D x decompress (slice x pos len) e ∧ e.header = first ∧
      readDirectory D x decompress rounds
        (slice x (pos + headerSpan first) (len - headerSpan first)) = some rest := by
  obtain ⟨hfirst, hsignature, -⟩ := hdirectory
  obtain ⟨hlen, hcases⟩ := read_directory_cases h
  rw [length_slice] at hlen
  have hmagic : u32At (slice x pos len) 0 = MAGIC_CENTRAL_HEADER := by
    rw [u32_at_slice (by omega), Nat.add_zero, ← hsignature, hfirst,
      CentralHeader.signature_decode_drop]
  rcases hcases with ⟨hend, -⟩ | ⟨-, e, rest, hentry, htail, rfl⟩
  · exact absurd hmagic hend
  · have hread := read_entry_eq_some.1 hentry
    have hroom := hread.room
    rw [length_slice] at hroom
    have hheader : e.header = first := by
      rw [hread.header, CentralHeader.decode_slice (by omega), hfirst]
    have hdrop : (slice x pos len).drop (headerSpan e.header) =
        slice x (pos + headerSpan first) (len - headerSpan first) := by
      rw [hheader, slice, slice, List.drop_take, List.drop_drop]
    rw [hdrop] at htail
    exact ⟨e, rest, rfl, hread, hheader, htail⟩

/-- The rewriter reads the headers of a directory that an end record follows. -/
theorem read_directory_headers {hs : List CentralHeader} {pos len stop rounds : Nat}
    {es : List Entry} (hdirectory : Directory x pos hs stop)
    (hend : u32At x stop = MAGIC_CENTRAL_FOOTER)
    (h : readDirectory D x decompress rounds (slice x pos len) = some es) :
    es.map Entry.header = hs := by
  induction hs generalizing pos len rounds es with
  | nil =>
      cases rounds with
      | zero => cases h
      | succ rounds =>
          obtain ⟨hlen, ⟨-, rfl⟩ | ⟨hmagic, -⟩⟩ := read_directory_cases h
          · rfl
          · rw [length_slice] at hlen
            rw [u32_at_slice (by omega), Nat.add_zero, show pos = stop from hdirectory, hend]
              at hmagic
            exact absurd hmagic (by decide)
  | cons first hs ih =>
      cases rounds with
      | zero => cases h
      | succ rounds =>
          obtain ⟨e, rest, rfl, -, hheader, htail⟩ := read_directory_first hdirectory h
          rw [List.map_cons, hheader, ih hdirectory.2.2 htail]

/-- The rewriter reads the headers of the selected directory, when its end record follows it. -/
theorem entries_of_headers {i : Nat} {footer : CentralFooter} {hs : List CentralHeader}
    {es : List Entry} (hselect : selectFooter x = some (i, footer))
    (hdirectory : Directory x footer.centralDirectoryOffset.toNat hs i)
    (hend : u32At x i = MAGIC_CENTRAL_FOOTER) (h : entriesOf D x decompress = some es) :
    es.map Entry.header = hs := by
  obtain ⟨dir, hbuffer, hread⟩ := entries_of_selected hselect h
  obtain ⟨-, hslice⟩ := directory_buffer_eq_some hbuffer
  rw [hslice] at hread
  exact read_directory_headers hdirectory hend hread

end Reading

end NamelessCenter.Zip
