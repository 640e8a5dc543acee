import NamelessCenter.Database.PreferenceHelper

/-!
# Failing statements

Both `insertOrUpdate` delete the row of a name and insert a new one, without a transaction. The
deletion throws when it fails; `SQLiteDatabase.insert` returns -1 instead, which nobody looks at.
`insert_or_update_atomic_iff` says which failures a row survives.
-/

namespace NamelessCenter.Database

open Sql Items

/-- The statements that fail. -/
structure StatementFaults where
  delete : Bool
  insert : Bool
  deriving DecidableEq, Repr

/-- What a call returned, or `none` for an exception of SQLite, and the store it left. -/
abbrev Result : Type := Option Bool × Store

namespace Store

variable (faults : StatementFaults) (s : Store) (name value tableName : String)

/-! ## Statements -/

/-- `SQLiteDatabase.delete`, which throws if it fails. -/
def deleteRowsOn : Option Store := if faults.delete then none else s.deleteRows name tableName

/-- `SQLiteDatabase.insert`: whether the result is not -1, and the store. -/
def insertRowOn : Bool × Store :=
  if faults.insert then (false, s)
  else
    match s.insertRow name value tableName with
    | none => (false, s)
    | some s => (true, s)

/-- The statements of both methods, each on the database that `open'` returns. -/
def deleteThenInsert (open' : Store → Option Store) : Result :=
  match open' s with
  | none => (none, s)
  | some s =>
      match s.deleteRowsOn faults name tableName with
      | none => (none, s)
      | some s =>
          match open' s with
          | none => (none, s)
          | some s => (some true, (s.insertRowOn faults name value tableName).2)

/-- `DatabaseHandler.insertOrUpdate`. -/
def insertOrUpdateOn : Result :=
  if s.sDb = false then (some false, s)
  else s.deleteThenInsert faults name value tableName some

/-- `UpdateTable.insertOrUpdate`. -/
def insertOrUpdateUpdateOn (toJson : UpdateInfo → String) (info : UpdateInfo) : Result :=
  match s.getDatabase with
  | none => (none, s)
  | some s => s.deleteThenInsert faults name (toJson info) UpdateTable.TABLE getDatabase

/-! ## Rows of a name -/

/-- The rows of a table for a name. -/
def rowsFor : List Row :=
  match s.file.bind fun db => db tableName with
  | none => []
  | some table => table.rows.filter fun row => row.name = name

/-- The call returned true and stored the value, or the rows are what they were. -/
def Atomic (result : Result) : Prop :=
  (result.1 = some true → (result.2.rowsFor name tableName).head?.map Row.value = some value) ∧
    (result.1 ≠ some true → result.2.rowsFor name tableName = s.rowsFor name tableName)

/-- The table is there. -/
def HasTable : Prop := (s.file.bind fun db => db tableName) ≠ none

/-- The insertion does not fail behind a deletion that did not fail. -/
def InsertsAfterDelete : Prop :=
  s.HasTable tableName → faults.delete = false → faults.insert = false

/-! ## Lemmas about the statements -/

section Statements

variable {faults : StatementFaults} {s t : Store} {name value tableName : String}

/-- A deletion that succeeds removes the rows of the name. -/
theorem delete_rows_cases (faults : StatementFaults) (s : Store) (name tableName : String) :
    (s.deleteRowsOn faults name tableName = none ∧
        (s.HasTable tableName → faults.delete = true)) ∨
      (∃ t, s.deleteRowsOn faults name tableName = some t ∧ s.HasTable tableName ∧
        faults.delete = false ∧ t.HasTable tableName ∧ t.rowsFor name tableName = [] ∧
          t.sDb = s.sDb) := by
  unfold deleteRowsOn deleteRows HasTable rowsFor
  cases hdelete : faults.delete with
  | true => exact .inl ⟨rfl, fun _ => rfl⟩
  | false =>
      cases hfile : s.file with
      | none => exact .inl ⟨rfl, fun h => (h rfl).elim⟩
      | some db =>
          cases htable : db tableName with
          | none =>
              refine .inl ⟨?_, fun h => (h htable).elim⟩
              simp [Sql.delete, htable]
          | some table =>
              right
              simp [Sql.delete, htable]

/-- An insertion into a table that is there. -/
theorem insert_row (h : s.HasTable tableName) (name value : String) :
    ∃ t row, s.insertRow name value tableName = some t ∧
      t.rowsFor name tableName = s.rowsFor name tableName ++ [row] ∧ row.value = value := by
  unfold HasTable at h
  unfold insertRow rowsFor
  cases hfile : s.file with
  | none => exact (h (by rw [hfile]; rfl)).elim
  | some db =>
      cases htable : db tableName with
      | none => exact (h (by rw [hfile]; exact htable)).elim
      | some table =>
          refine ⟨{ s with file := some (Function.update db tableName (some { table with
            rows := table.rows ++ [⟨nextId table.rows, name, value⟩] })) },
            ⟨nextId table.rows, name, value⟩, ?_, ?_, rfl⟩
          · simp [Sql.insert, htable]
          · simp [htable]

/-- The two statements, on a handle that stays open. -/
theorem delete_then_insert_atomic_iff {open' : Store → Option Store}
    (hopen : ∀ t : Store, t.sDb = s.sDb → open' t = some t) :
    s.Atomic name value tableName (s.deleteThenInsert faults name value tableName open') ↔
      s.InsertsAfterDelete faults tableName := by
  unfold Atomic InsertsAfterDelete deleteThenInsert
  rw [hopen s rfl]
  rcases delete_rows_cases faults s name tableName with
    ⟨hnone, hfails⟩ | ⟨t, hsome, htable, hdelete, htable', hrows, hdb⟩
  · -- an exception, before anything has changed
    simp only [hnone]
    refine iff_of_true ⟨fun h => ?_, fun _ => trivial⟩ fun htable hdelete => ?_
    · cases h
    · rw [hfails htable] at hdelete
      cases hdelete
  · simp only [hsome, hopen t hdb, hdelete, forall_true_left, htable]
    cases hinsert : faults.insert with
    | true =>
        -- the rows of the name are gone
        simp [insertRowOn, hinsert, hrows]
    | false =>
        obtain ⟨u, row, hu, hrow, hvalue⟩ := insert_row htable' name value
        rw [hrows, List.nil_append] at hrow
        simp [insertRowOn, hinsert, hu, hrow, hvalue]

/-! ## Opening -/

/-- A database that is created has no rows. -/
theorem rows_for_created (h : s.file = none) (name tableName : String) :
    rowsFor { s with file := some created } name tableName = s.rowsFor name tableName := by
  unfold rowsFor
  rw [h, Option.bind_some, Option.bind_none]
  unfold created withTable
  by_cases hupdates : tableName = UpdateTable.TABLE
  · rw [hupdates, Function.update_self]
    rfl
  · rw [Function.update_of_ne hupdates]
    by_cases hnameless : tableName = NamelessTable.TABLE
    · rw [hnameless, Function.update_self]
      rfl
    · rw [Function.update_of_ne hnameless]

/-- Opening the database does not change its rows. -/
theorem get_writable_database_rows (h : s.getWritableDatabase = some t) (name tableName : String) :
    t.rowsFor name tableName = s.rowsFor name tableName := by
  unfold getWritableDatabase at h
  cases hfile : s.file with
  | some db =>
      rw [hfile] at h
      rw [← Option.some.inj h]
  | none =>
      rw [hfile, on_create_eq] at h
      rw [← Option.some.inj h]
      exact rows_for_created hfile name tableName

/-- Nor does getting the instance. -/
theorem get_instance_rows (h : s.getInstance = some t) (name tableName : String) :
    t.rowsFor name tableName = s.rowsFor name tableName := by
  unfold getInstance at h
  split at h
  · rw [← Option.some.inj h]
  · obtain ⟨u, hu, rfl⟩ := Option.map_eq_some_iff.1 h
    obtain ⟨v, hv, rfl⟩ := Option.map_eq_some_iff.1 hu
    exact get_writable_database_rows hv name tableName

/-- A database that `getDatabase` returns is open, and has the rows that the file had. -/
theorem get_database_rows (h : s.getDatabase = some t) :
    t.sDb = true ∧
      ∀ name tableName, t.rowsFor name tableName = s.rowsFor name tableName := by
  unfold getDatabase at h
  split at h
  · rename_i hopen
    rw [← Option.some.inj h]
    exact ⟨hopen, fun _ _ => rfl⟩
  · obtain ⟨u, hu, h⟩ := Option.bind_eq_some_iff.1 h
    obtain ⟨v, hv, h⟩ := Option.bind_eq_some_iff.1 h
    rw [← Option.some.inj h]
    exact ⟨rfl, fun name tableName =>
      (get_writable_database_rows hv name tableName).trans (get_instance_rows hu name tableName)⟩

end Statements

/-- For every state of the tables, name and value, and whichever statements fail: a call of
`DatabaseHandler.insertOrUpdate` or of `UpdateTable.insertOrUpdate` returns true only if the value
is stored, and otherwise leaves the rows of the name, if and only if the insertion does not fail
behind a deletion that did not fail. -/
theorem insert_or_update_atomic_iff (faults : StatementFaults) (s : Store) (name : String) :
    (∀ value tableName,
      s.Atomic name value tableName (s.insertOrUpdateOn faults name value tableName) ↔
        (s.sDb = true → s.InsertsAfterDelete faults tableName)) ∧
    ∀ (toJson : UpdateInfo → String) (info : UpdateInfo),
      s.Atomic name (toJson info) UpdateTable.TABLE
          (s.insertOrUpdateUpdateOn faults name toJson info) ↔
        ∀ t, s.getDatabase = some t → t.InsertsAfterDelete faults UpdateTable.TABLE := by
  constructor
  · intro value tableName
    unfold insertOrUpdateOn
    cases hopen : s.sDb with
    | false =>
        rw [if_pos rfl]
        exact iff_of_true ⟨nofun, fun _ => rfl⟩ nofun
    | true =>
        rw [if_neg nofun, delete_then_insert_atomic_iff fun _ _ => rfl]
        simp
  · intro toJson info
    unfold insertOrUpdateUpdateOn
    cases hdatabase : s.getDatabase with
    | none => exact iff_of_true ⟨nofun, fun _ => rfl⟩ nofun
    | some t =>
        obtain ⟨hopen, hrows⟩ := get_database_rows hdatabase
        have hatomic : ∀ result, s.Atomic name (toJson info) UpdateTable.TABLE result ↔
            t.Atomic name (toJson info) UpdateTable.TABLE result := fun result => by
          unfold Atomic
          rw [hrows]
        simp only [hatomic, Option.some.injEq, forall_eq']
        exact delete_then_insert_atomic_iff fun u hu => get_database_of_open (hu.trans hopen)

end Store

/-- A store with the update interval in its table. -/
def dailyStore : Store where
  file := some (Function.update Store.created NamelessTable.TABLE
    (some ⟨schema, [⟨1, "pref_update_check_interval", "86400"⟩]⟩))
  sDatabaseHandler := true
  sDb := true

/-- The interval is gone, although the call returns true. -/
theorem failed_insert_loses_row :
    ∃ result, result = dailyStore.insertOrUpdateOn ⟨false, true⟩ "pref_update_check_interval"
        "604800" NamelessTable.TABLE ∧
      result.1 = some true ∧
      result.2.rowsFor "pref_update_check_interval" NamelessTable.TABLE = [] ∧
      ¬ dailyStore.Atomic "pref_update_check_interval" "604800" NamelessTable.TABLE result := by
  refine ⟨_, rfl, rfl, rfl, fun h => ?_⟩
  cases h.1 rfl

end NamelessCenter.Database
