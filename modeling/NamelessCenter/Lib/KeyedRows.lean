import Mathlib.Data.List.Basic
import Mathlib.Data.List.Nodup

/-!
# Rows with a key

A list of rows in which a row is looked up, deleted or replaced by its key. A row is replaced by
deleting the rows with its key and appending it. Lists with at most one row for each key stay so
(`unique_replace`), and then the list behaves as a map from keys to rows: `find_replace_self` and
`find_replace_of_ne` are the two rules of an update, `find_delete_self` and `find_delete_of_ne`
those of a deletion.
-/

namespace KeyedRows

variable {κ ρ : Type*} [DecidableEq κ] (key : ρ → κ)

/-- No two rows have the same key. -/
def Unique (rows : List ρ) : Prop := (rows.map key).Nodup

/-- The first row with the key. -/
def find (k : κ) (rows : List ρ) : Option ρ := (rows.filter fun row => key row = k).head?

/-- The rows with other keys. -/
def delete (k : κ) (rows : List ρ) : List ρ := rows.filter fun row => key row ≠ k

/-- Delete the rows with the key and append a row. -/
def replace (k : κ) (row : ρ) (rows : List ρ) : List ρ := delete key k rows ++ [row]

variable {key} {k k' : κ} {row : ρ} {rows : List ρ}

omit [DecidableEq κ] in

/-- No rows have unique keys. -/
theorem unique_nil : Unique key ([] : List ρ) := List.nodup_nil

/-- Deleting keeps the keys unique. -/
theorem unique_delete (h : Unique key rows) : Unique key (delete key k rows) :=
  h.sublist (List.filter_sublist.map key)

/-- What is left has another key. -/
theorem key_ne_of_mem_delete (h : row ∈ delete key k rows) : key row ≠ k :=
  of_decide_eq_true (List.mem_filter.1 h).2

/-- So does replacing the rows of a key by one. -/
theorem unique_replace (h : Unique key rows) (hrow : key row = k) :
    Unique key (replace key k row rows) := by
  unfold Unique replace
  rw [List.map_append, List.map_singleton]
  refine List.nodup_append.2 ⟨unique_delete h, List.nodup_singleton _, ?_⟩
  intro a ha b hb heq
  obtain ⟨old, hold, rfl⟩ := List.mem_map.1 ha
  rw [List.mem_singleton.1 hb, hrow] at heq
  exact key_ne_of_mem_delete hold heq

/-- A list without repeated keys has at most one row with a key. -/
theorem length_filter_le_one (h : Unique key rows) :
    (rows.filter fun row => key row = k).length ≤ 1 := by
  induction rows with
  | nil => exact Nat.zero_le 1
  | cons row rows ih =>
      obtain ⟨hrow, hrest⟩ := List.nodup_cons.1 h
      rw [List.filter_cons]
      split
      · rename_i heq
        -- the other rows have other keys
        have hnone : (rows.filter fun row => key row = k) = [] := by
          rw [List.filter_eq_nil_iff]
          intro other hother hkey
          have hsame : key other = key row :=
            (of_decide_eq_true hkey).trans (of_decide_eq_true heq).symm
          exact hrow (hsame ▸ List.mem_map_of_mem hother)
        rw [hnone]
        exact Nat.le_refl 1
      · exact ih hrest

/-- No row of the key is left. -/
theorem filter_delete_self : (delete key k rows).filter (fun row => key row = k) = [] := by
  rw [List.filter_eq_nil_iff]
  intro row hrow hkey
  exact key_ne_of_mem_delete hrow (of_decide_eq_true hkey)

/-- The key is not found any more. -/
theorem find_delete_self : find key k (delete key k rows) = none := by
  rw [find, filter_delete_self, List.head?_nil]

/-- The rows of another key stay. -/
theorem filter_delete_of_ne (h : k' ≠ k) :
    (delete key k rows).filter (fun row => key row = k') =
      rows.filter fun row => key row = k' := by
  rw [delete, List.filter_filter]
  refine List.filter_congr fun row _ => ?_
  by_cases hkey : key row = k'
  · simp [hkey, h]
  · simp [hkey]

/-- Another key is found as before. -/
theorem find_delete_of_ne (h : k' ≠ k) : find key k' (delete key k rows) = find key k' rows := by
  rw [find, filter_delete_of_ne h, find]

/-- The row that replaces the others is found. -/
theorem find_replace_self (hrow : key row = k) :
    find key k (replace key k row rows) = some row := by
  have hfound : ([row].filter fun row => key row = k) = [row] :=
    List.filter_eq_self.2 fun other hother => by
      rw [List.mem_singleton.1 hother]
      exact decide_eq_true hrow
  rw [find, replace, List.filter_append, filter_delete_self, List.nil_append, hfound]
  rfl

/-- Another key is found as before. -/
theorem find_replace_of_ne (hrow : key row = k) (h : k' ≠ k) :
    find key k' (replace key k row rows) = find key k' rows := by
  have hother : ([row].filter fun row => key row = k') = [] :=
    List.filter_eq_nil_iff.2 fun other hmem hkey => by
      rw [List.mem_singleton.1 hmem] at hkey
      exact h ((of_decide_eq_true hkey).symm.trans hrow)
  rw [find, replace, List.filter_append, filter_delete_of_ne h, hother, List.append_nil, find]

end KeyedRows
