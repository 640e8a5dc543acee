import NamelessCenter.Lib.Sql

/-!
# The database of preferences and updates

The table classes give the SQL texts and `DatabaseHandler` executes them when Android's
`SQLiteOpenHelper` finds a database of another version. `dropTable` is a static method of
`BaseTable` and names the table of that class, whichever subclass it is called on. So no migration
drops a table it creates afterwards, and `migrations_succeed_iff` says which databases it gets
through with.
-/

namespace NamelessCenter.Database

open Sql

/-! ## BaseTable.java -/

namespace BaseTable

/-- `BaseTable.TABLE`. -/
def TABLE : String := "base"

/-- The columns of the tables. -/
def KEY_ID : String := "id"

/-- The column that rows are found by. -/
def KEY_NAME : String := "name"

/-- The column of the values. -/
def KEY_VALUE : String := "value"

/-- `String.format("DROP TABLE IF EXISTS %s", TABLE)`, with the field of this class. -/
def dropTable : String := "DROP TABLE IF EXISTS " ++ TABLE

end BaseTable

/-! ## NamelessTable.java -/

namespace NamelessTable

/-- Hides the field of the base class. -/
def TABLE : String := "nameless"

/-- `NamelessTable.createTable`, with the name of its own table. -/
def createTable : String :=
  "CREATE TABLE " ++ TABLE ++ "(" ++ BaseTable.KEY_ID ++ " INTEGER PRIMARY KEY," ++
    BaseTable.KEY_NAME ++ " TEXT," ++ BaseTable.KEY_VALUE ++ " TEXT)"

/-- A static method that is inherited, not overridden. -/
def dropTable : String := BaseTable.dropTable

end NamelessTable

/-! ## UpdateTable.java -/

namespace UpdateTable

/-- Hides the field of the base class. -/
def TABLE : String := "updates"

/-- `UpdateTable.createTable`, with the name of its own table. -/
def createTable : String :=
  "CREATE TABLE " ++ TABLE ++ "(" ++ BaseTable.KEY_ID ++ " INTEGER PRIMARY KEY," ++
    BaseTable.KEY_NAME ++ " TEXT," ++ BaseTable.KEY_VALUE ++ " TEXT);"

/-- The statement that `UpdateTable` inherits, with the name of the base table. -/
def dropTable : String := BaseTable.dropTable

end UpdateTable

/-! ## DatabaseHandler.java -/

/-- The version that the tables are made for. -/
def DATABASE_VERSION : Int := 2

section Handler

variable {ρ : Type*} (db : Database ρ)

/-- `DatabaseHandler.onCreate`. -/
def onCreate : Except SQLException (Database ρ) := do
  let db ← execSQL db NamelessTable.createTable
  execSQL db UpdateTable.createTable

/-- `DatabaseHandler.wipeDb`. -/
def wipeDb : Except SQLException (Database ρ) := do
  let db ← execSQL db NamelessTable.dropTable
  onCreate db

/-- The block `if (currentVersion < 1)`, with the version after it. -/
def upgradeTo1 (currentVersion : Int) : Except SQLException (Database ρ × Int) := do
  if currentVersion < 1 then
    let db ← execSQL db NamelessTable.dropTable
    let db ← execSQL db NamelessTable.createTable
    pure (db, 1)
  else pure (db, currentVersion)

/-- The block `if (currentVersion < 2)`, with the version after it. -/
def upgradeTo2 (currentVersion : Int) : Except SQLException (Database ρ × Int) := do
  if currentVersion < 2 then
    let db ← execSQL db UpdateTable.dropTable
    let db ← execSQL db UpdateTable.createTable
    pure (db, 2)
  else pure (db, currentVersion)

/-- `onUpgrade`; the new version is only logged. -/
def onUpgrade (oldVersion _newVersion : Int) : Except SQLException (Database ρ) := do
  let (db, currentVersion) ← upgradeTo1 db oldVersion
  let (db, currentVersion) ← upgradeTo2 db currentVersion
  if currentVersion ≠ DATABASE_VERSION then wipeDb db else pure db

/-- `onDowngrade`; the versions are only logged. The marker file it creates afterwards is not part
of the database, and its exceptions are ignored. -/
def onDowngrade (_oldVersion _newVersion : Int) : Except SQLException (Database ρ) := wipeDb db

end Handler

/-! ## Statements -/

/-- The columns of both tables. -/
def schema : List (String × String) :=
  [("id", "INTEGER PRIMARY KEY"), ("name", "TEXT"), ("value", "TEXT")]

/-- What the statement for the table of preferences says. -/
theorem parse_create_nameless :
    parse NamelessTable.createTable = some (.createTable NamelessTable.TABLE schema) := by
  decide

/-- What the statement for the table of updates says. -/
theorem parse_create_updates :
    parse UpdateTable.createTable = some (.createTable UpdateTable.TABLE schema) := by
  decide

/-- Neither table is dropped. -/
theorem parse_drop : parse BaseTable.dropTable = some (.dropTableIfExists BaseTable.TABLE) := rfl

section Handler

variable {ρ : Type*} {db : Database ρ}

/-- The table exists with the schema. -/
def HasSchema (db : Database ρ) (name : String) : Prop := (db name).map Table.columns = some schema

/-- The table exists with the schema and has no rows. -/
def IsEmpty (db : Database ρ) (name : String) : Prop := db name = some ⟨schema, []⟩

/-- Neither table exists. -/
def NoTables (db : Database ρ) : Prop :=
  db NamelessTable.TABLE = none ∧ db UpdateTable.TABLE = none

/-- A callback has finished and left both tables with the schema. -/
def Migrated (result : Except SQLException (Database ρ)) : Prop :=
  ∃ db', result = .ok db' ∧ HasSchema db' NamelessTable.TABLE ∧ HasSchema db' UpdateTable.TABLE

/-- The database with an empty table of this name. -/
def withTable (db : Database ρ) (name : String) : Database ρ :=
  Function.update db name (some ⟨schema, []⟩)

/-- The database after any `dropTable()`. -/
def withoutBase (db : Database ρ) : Database ρ := Function.update db "base" none

/-- A table that is created is there and empty. -/
@[simp] theorem with_table_self (name : String) : withTable db name name = some ⟨schema, []⟩ :=
  Function.update_self ..

/-- Creating the table of preferences leaves the table of updates alone. -/
@[simp] theorem with_table_nameless_updates :
    withTable db NamelessTable.TABLE UpdateTable.TABLE = db UpdateTable.TABLE :=
  Function.update_of_ne (by decide) ..

/-- And the other way round. -/
@[simp] theorem with_table_updates_nameless :
    withTable db UpdateTable.TABLE NamelessTable.TABLE = db NamelessTable.TABLE :=
  Function.update_of_ne (by decide) ..

/-- Dropping the base table leaves the table of preferences alone. -/
@[simp] theorem without_base_nameless :
    withoutBase db NamelessTable.TABLE = db NamelessTable.TABLE :=
  Function.update_of_ne (by decide) ..

/-- It leaves the table of updates alone, too. -/
@[simp] theorem without_base_updates : withoutBase db UpdateTable.TABLE = db UpdateTable.TABLE :=
  Function.update_of_ne (by decide) ..

/-- An empty table has the schema. -/
theorem has_schema_of_is_empty {name : String} (h : IsEmpty db name) : HasSchema db name := by
  rw [HasSchema, h]
  rfl

/-! ## What the methods do -/

/-- A table is created exactly if there is none of its name. -/
theorem exec_create (db : Database ρ) {sql name : String}
    (hsql : parse sql = some (.createTable name schema)) :
    (db name = none ∧ execSQL db sql = .ok (withTable db name)) ∨
      db name ≠ none ∧ execSQL db sql = .error (.tableExists name) := by
  cases htable : db name with
  | none => exact .inl ⟨rfl, exec_create_of_missing hsql htable⟩
  | some table => exact .inr ⟨Option.some_ne_none table, exec_create_of_exists hsql htable⟩

/-- Dropping the base table succeeds whether it is there or not. -/
theorem exec_drop_base : execSQL db BaseTable.dropTable = .ok (withoutBase db) :=
  exec_drop parse_drop

/-- `dropTable()` drops nothing, so a table is created behind it only if it is missing. -/
theorem drop_create_cases (db : Database ρ) {sql name : String} (version : Int)
    (hsql : parse sql = some (.createTable name schema)) :
    let recreated : Except SQLException (Database ρ × Int) := do
      let db ← execSQL db BaseTable.dropTable
      let db ← execSQL db sql
      pure (db, version)
    (withoutBase db name = none ∧ recreated = .ok (withTable (withoutBase db) name, version)) ∨
      withoutBase db name ≠ none ∧ recreated = .error (.tableExists name) := by
  intro recreated
  have hdropped : recreated = execSQL (withoutBase db) sql >>= fun db => pure (db, version) := by
    show (execSQL db BaseTable.dropTable >>= _) = _
    rw [exec_drop_base, ok_bind]
  rw [hdropped]
  rcases exec_create (withoutBase db) hsql with ⟨hmissing, hcreate⟩ | ⟨hexists, hstop⟩
  · rw [hcreate]
    exact .inl ⟨hmissing, rfl⟩
  · rw [hstop]
    exact .inr ⟨hexists, rfl⟩

/-- `onCreate` succeeds on a database without the tables only. -/
theorem on_create_cases (db : Database ρ) :
    (NoTables db ∧
        onCreate db = .ok (withTable (withTable db NamelessTable.TABLE) UpdateTable.TABLE)) ∨
      ¬ NoTables db ∧ ∃ name, onCreate db = .error (.tableExists name) := by
  unfold onCreate
  rcases exec_create db parse_create_nameless with ⟨hnameless, hcreate⟩ | ⟨hnameless, hstop⟩
  · rw [hcreate, ok_bind]
    rcases exec_create (withTable db NamelessTable.TABLE) parse_create_updates with
      ⟨hupdates, hcreate'⟩ | ⟨hupdates, hstop⟩
    · rw [with_table_nameless_updates] at hupdates
      exact .inl ⟨⟨hnameless, hupdates⟩, hcreate'⟩
    · rw [with_table_nameless_updates] at hupdates
      exact .inr ⟨fun h => hupdates h.2, _, hstop⟩
  · rw [hstop]
    exact .inr ⟨fun h => hnameless h.1, _, rfl⟩

/-- Dropping the base table makes no difference to the two others. -/
theorem no_tables_without_base : NoTables (withoutBase db) ↔ NoTables db := by
  unfold NoTables
  rw [without_base_nameless, without_base_updates]

/-- `wipeDb` drops nothing, so it succeeds on a database without the tables only. -/
theorem wipe_db_cases (db : Database ρ) :
    (NoTables db ∧ ∃ db', wipeDb db = .ok db' ∧ IsEmpty db' NamelessTable.TABLE ∧
        IsEmpty db' UpdateTable.TABLE) ∨
      ¬ NoTables db ∧ ∃ name, wipeDb db = .error (.tableExists name) := by
  unfold wipeDb NamelessTable.dropTable
  rw [exec_drop_base, ok_bind, ← no_tables_without_base]
  rcases on_create_cases (withoutBase db) with ⟨hnone, hcreate⟩ | ⟨hsome, hstop⟩
  · refine .inl ⟨hnone, _, hcreate, ?_, with_table_self _⟩
    rw [IsEmpty, with_table_updates_nameless, with_table_self]
  · exact .inr ⟨hsome, hstop⟩

/-- `wipeDb` succeeds exactly if neither table is there yet. -/
theorem migrated_wipe_db_iff : Migrated (wipeDb db) ↔ NoTables db := by
  rcases wipe_db_cases db with ⟨hnone, db', hwipe, hnameless, hupdates⟩ | ⟨hsome, name, hstop⟩
  · have hempty := And.intro (has_schema_of_is_empty hnameless) (has_schema_of_is_empty hupdates)
    exact iff_of_true ⟨db', hwipe, hempty⟩ hnone
  · refine iff_of_false ?_ hsome
    intro ⟨db', hok, _⟩
    rw [hstop] at hok
    cases hok

/-- A block of `onUpgrade` that is entered creates its table if it is missing. -/
theorem upgrade_to_1_cases (db : Database ρ) {currentVersion : Int} (h : currentVersion < 1) :
    (db NamelessTable.TABLE = none ∧ upgradeTo1 db currentVersion =
        .ok (withTable (withoutBase db) NamelessTable.TABLE, 1)) ∨
      db NamelessTable.TABLE ≠ none ∧
        upgradeTo1 db currentVersion = .error (.tableExists NamelessTable.TABLE) := by
  have hcases := drop_create_cases db 1 parse_create_nameless
  rw [without_base_nameless] at hcases
  rw [upgradeTo1, if_pos h]
  exact hcases

/-- The step to version 2 succeeds exactly if there is no table of updates yet. -/
theorem upgrade_to_2_cases (db : Database ρ) {currentVersion : Int} (h : currentVersion < 2) :
    (db UpdateTable.TABLE = none ∧ upgradeTo2 db currentVersion =
        .ok (withTable (withoutBase db) UpdateTable.TABLE, 2)) ∨
      db UpdateTable.TABLE ≠ none ∧
        upgradeTo2 db currentVersion = .error (.tableExists UpdateTable.TABLE) := by
  have hcases := drop_create_cases db 2 parse_create_updates
  rw [without_base_updates] at hcases
  rw [upgradeTo2, if_pos h]
  exact hcases

/-- `onUpgrade` from version 1 only creates the table of the updates. -/
theorem migrated_upgrade_from_1_iff {newVersion : Int} :
    Migrated (onUpgrade db 1 newVersion) ↔
      HasSchema db NamelessTable.TABLE ∧ db UpdateTable.TABLE = none := by
  have hskip : upgradeTo1 db 1 = .ok (db, 1) := rfl
  have hcurrent : ¬ (2 : Int) ≠ DATABASE_VERSION := not_not.2 rfl
  unfold onUpgrade
  rw [hskip, ok_bind]
  rcases upgrade_to_2_cases db (show (1 : Int) < 2 by omega) with
    ⟨hnone, hupgrade⟩ | ⟨hsome, hstop⟩
  · have hkept : HasSchema (withTable (withoutBase db) UpdateTable.TABLE) NamelessTable.TABLE ↔
        HasSchema db NamelessTable.TABLE := by
      rw [HasSchema, with_table_updates_nameless, without_base_nameless, HasSchema]
    dsimp only
    rw [hupgrade, ok_bind]
    dsimp only
    rw [if_neg hcurrent]
    constructor
    · intro ⟨db', hok, hnameless, _⟩
      cases hok
      exact ⟨hkept.1 hnameless, hnone⟩
    · intro ⟨hnameless, _⟩
      exact ⟨_, rfl, hkept.2 hnameless, has_schema_of_is_empty (with_table_self _)⟩
  · dsimp only
    rw [hstop]
    refine iff_of_false ?_ fun h => hsome h.2
    intro ⟨db', hok, _⟩
    cases hok

/-- `onUpgrade` from an older version creates both tables. -/
theorem migrated_upgrade_from_0_iff {oldVersion newVersion : Int} (h : oldVersion < 1) :
    Migrated (onUpgrade db oldVersion newVersion) ↔ NoTables db := by
  have hcurrent : ¬ (2 : Int) ≠ DATABASE_VERSION := not_not.2 rfl
  unfold onUpgrade
  rcases upgrade_to_1_cases db h with ⟨hnameless, hupgrade⟩ | ⟨hnameless, hstop⟩
  · -- the second block starts from the new table and the version 1
    rw [hupgrade, ok_bind]
    dsimp only
    rcases upgrade_to_2_cases (withTable (withoutBase db) NamelessTable.TABLE)
      (show (1 : Int) < 2 by omega) with
      ⟨hupdates, hupgrade'⟩ | ⟨hupdates, hstop⟩
    · rw [hupgrade', ok_bind]
      dsimp only
      rw [if_neg hcurrent]
      rw [with_table_nameless_updates, without_base_updates] at hupdates
      refine iff_of_true ⟨_, rfl, ?_, has_schema_of_is_empty (with_table_self _)⟩
        ⟨hnameless, hupdates⟩
      refine has_schema_of_is_empty ?_
      rw [IsEmpty, with_table_updates_nameless, without_base_nameless, with_table_self]
    · rw [hstop]
      rw [with_table_nameless_updates, without_base_updates] at hupdates
      refine iff_of_false ?_ fun hnone => hupdates hnone.2
      intro ⟨db', hok, _⟩
      cases hok
  · rw [hstop]
    refine iff_of_false ?_ fun hnone => hnameless hnone.1
    intro ⟨db', hok, _⟩
    cases hok

end Handler

/-! ## Migrations -/

/-- Which databases the callbacks of `SQLiteOpenHelper` get through with: an upgrade from version 1
needs the first table and no second one, everything else a database without both. -/
theorem migrations_succeed_iff {ρ : Type*} (db : Database ρ) :
    (∀ oldVersion < DATABASE_VERSION, Migrated (onUpgrade db oldVersion DATABASE_VERSION) ↔
      if oldVersion < 1 then NoTables db
      else HasSchema db NamelessTable.TABLE ∧ db UpdateTable.TABLE = none) ∧
    (∀ oldVersion > DATABASE_VERSION, Migrated (onDowngrade db oldVersion DATABASE_VERSION) ↔
      NoTables db) ∧
    ((∃ db', wipeDb db = .ok db' ∧ IsEmpty db' NamelessTable.TABLE ∧
      IsEmpty db' UpdateTable.TABLE) ↔ NoTables db) := by
  refine ⟨fun oldVersion hold => ?_, fun oldVersion _ => migrated_wipe_db_iff, ?_⟩
  · split
    · rename_i hzero
      exact migrated_upgrade_from_0_iff hzero
    · have hone : oldVersion = 1 := by
        rw [DATABASE_VERSION] at hold
        omega
      rw [hone]
      exact migrated_upgrade_from_1_iff
  · -- `wipeDb` leaves the tables empty whenever it finishes
    rcases wipe_db_cases db with ⟨hnone, hwiped⟩ | ⟨hsome, name, hstop⟩
    · exact iff_of_true hwiped hnone
    · refine iff_of_false ?_ hsome
      intro ⟨db', hok, _⟩
      rw [hstop] at hok
      cases hok

/-- An upgrade from version 1, whose database has no table of the updates yet. -/
theorem migrations_succeed_from_1 :
    Migrated (onUpgrade (withTable (fun _ => none : Database Unit) NamelessTable.TABLE) 1
      DATABASE_VERSION) :=
  ((migrations_succeed_iff _).1 1 (by decide)).2 ⟨rfl, rfl⟩

/-- A database that a later version of the app has written: both tables, with one row. -/
def bothTables : Database (Nat × String × String) :=
  withTable
    (Function.update (fun _ => none) NamelessTable.TABLE (some ⟨schema, [(1, "boot", "true")]⟩))
    UpdateTable.TABLE

/-- Such a database cannot be opened any more. -/
theorem downgrade_fails :
    ¬ Migrated (onDowngrade bothTables 3 DATABASE_VERSION) ∧
      onDowngrade bothTables 3 DATABASE_VERSION = .error (.tableExists "nameless") := by
  have hstop : onDowngrade bothTables 3 DATABASE_VERSION = .error (.tableExists "nameless") := rfl
  refine ⟨?_, hstop⟩
  intro ⟨db', hok, _⟩
  rw [hstop] at hok
  cases hok

end NamelessCenter.Database
