import NamelessCenter.Lib.Decimal
import NamelessCenter.Lib.KeyedRows
import NamelessCenter.Lib.Machine
import NamelessCenter.Database.DatabaseHandler
import NamelessCenter.Items.UpdateInfo

/-!
# The preference store

`PreferenceHelper` keeps the preferences as rows of the table `nameless`. Its methods fetch the
instance of `DatabaseHandler` and call a method on it, which works on the static handle `sDb` of
the open database; `tearDown` closes the database, and the next `getInstance` opens it again.
`Preferences` is what the table stands for, a map from names to texts. A store whose tables and
handles are in order (`Sane`) behaves as that map, whatever calls follow each other
(`store_refines_map`).
-/

namespace NamelessCenter.Database

open Sql Text Items

/-! ## Values -/

/-- A value of one of the types of the preferences; an `int` has 32 bits. -/
inductive Value where
  | string (s : String)
  | int (i : Int32)
  | boolean (b : Bool)
  deriving DecidableEq, Repr

/-- `String.valueOf(i)`. -/
def valueOf (i : Int32) : String := toString i.toInt

/-- The text that the setter of its type stores. -/
def Value.encode : Value → String
  | .string s => s
  | .int i => valueOf i
  | .boolean b => if b then "1" else "0"

/-- The part of `getString` behind the query. -/
def decodeString (defaultValue : String) : Option String → String
  | none => defaultValue
  | some value => if value = "" then defaultValue else value

/-- The part of `getInt` behind the query; `none` is a `NumberFormatException`. -/
def decodeInt (defaultValue : Int32) : Option String → Option Int32
  | none => some defaultValue
  | some value => if value = "" then some defaultValue else (parseInt value).map Int32.ofInt

/-- The part of `getBoolean` behind the query. -/
def decodeBoolean (defaultValue : Bool) : Option String → Bool
  | none => defaultValue
  | some value => if value = "" then defaultValue else value == "1"

/-- What the getter of the type of its default value makes of a stored text. -/
def decode (stored : Option String) : Value → Option Value
  | .string d => some (.string (decodeString d stored))
  | .int d => (decodeInt d stored).map .int
  | .boolean d => some (.boolean (decodeBoolean d stored))

/-- Both are of the same type. -/
def Value.SameType : Value → Value → Prop
  | .string _, .string _ | .int _, .int _ | .boolean _, .boolean _ => True
  | _, _ => False

/-! ## Preferences -/

/-- The preferences as a map. -/
abbrev Preferences := String → Option String

namespace Preferences

variable (p : Preferences) (name : String)

/-- `getString(name, defaultValue)`. -/
def getString (defaultValue : String) : String := decodeString defaultValue (p name)

/-- `getInt(name, defaultValue)`, if it does not throw. -/
def getInt (defaultValue : Int32) : Option Int32 := decodeInt defaultValue (p name)

/-- `getBoolean(name, defaultValue)`. -/
def getBoolean (defaultValue : Bool) : Bool := decodeBoolean defaultValue (p name)

/-- A value is stored under a name. -/
def set (v : Value) : Preferences := Function.update p name (some v.encode)

/-- `setString(name, value)`. -/
def setString (value : String) : Preferences := p.set name (.string value)

/-- `setInt(name, value)`. -/
def setInt (value : Int32) : Preferences := p.set name (.int value)

/-- `setBoolean(name, value)`. -/
def setBoolean (value : Bool) : Preferences := p.set name (.boolean value)

/-- `remove(name)`. -/
def remove : Preferences := Function.update p name none

end Preferences

/-! ## The store -/

/-- A row of either table. -/
structure Row where
  id : Nat
  name : String
  value : String
  deriving DecidableEq, Repr

/-- The key that SQLite gives a new row. -/
def nextId (rows : List Row) : Nat := (rows.map Row.id).foldl max 0 + 1

/-- The database file and the static fields of `DatabaseHandler`. A handle that is not null refers
to the open database. -/
structure Store where
  /-- The file, if it has been created. -/
  file : Option (Database Row)
  /-- `sDatabaseHandler != null`. -/
  sDatabaseHandler : Bool
  /-- `sDb != null`. -/
  sDb : Bool

/-- Before the app has run for the first time. -/
def Store.fresh : Store := ⟨none, false, false⟩

namespace Store

variable (s : Store)

/-! ### DatabaseHandler.java

A result `none` of these methods is an exception of SQLite. -/

/-- `getWritableDatabase()` of `SQLiteOpenHelper`: a file that is not there is created. -/
def getWritableDatabase : Option Store :=
  match s.file with
  | some _ => some s
  | none => (onCreate fun _ => none).toOption.map fun db => { s with file := some db }

/-- The constructor. -/
def newInstance : Option Store := s.getWritableDatabase.map fun s => { s with sDb := true }

/-- `DatabaseHandler.getInstance`, if opening the database does not throw. -/
def getInstance : Option Store :=
  if s.sDatabaseHandler then some s
  else s.newInstance.map fun s => { s with sDatabaseHandler := true }

/-- The static database is closed. -/
def closeDatabase : Store := { s with sDb := false }

/-- `DatabaseHandler.tearDown`. -/
def tearDown : Store := { s.closeDatabase with sDatabaseHandler := false }

/-- `getDatabase()`, which never returns null. -/
def getDatabase : Option Store :=
  if s.sDb then some s
  else do
    let s ← s.getInstance
    let s ← s.getWritableDatabase
    pure { s with sDb := true }

/-- `getValueByName(name, tableName)`, whose result may be null. -/
def getValueByName (name tableName : String) : Option (Option String) :=
  if s.sDb = false then some none
  else do
    let rows ← select (← s.file) tableName fun row => row.name = name
    pure (rows.head?.map Row.value)

/-- The deletion of both tables' methods, on the open database. -/
def deleteRows (name tableName : String) : Option Store := do
  let db ← delete (← s.file) tableName fun row => row.name = name
  pure { s with file := some db }

/-- The insertion of both tables' methods, on the open database. -/
def insertRow (name value tableName : String) : Option Store := do
  let db ← insert (← s.file) tableName fun rows => ⟨nextId rows, name, value⟩
  pure { s with file := some db }

/-- `insertOrUpdate(name, value, tableName)`. -/
def insertOrUpdate (name value tableName : String) : Option (Bool × Store) :=
  if s.sDb = false then some (false, s)
  else do
    let s ← s.deleteRows name tableName
    let s ← s.insertRow name value tableName
    pure (true, s)

/-- `deleteItemByName(name, tableName)`. -/
def deleteItemByName (name tableName : String) : Option (Bool × Store) :=
  if s.sDb = false then some (false, s)
  else do
    let s ← s.deleteRows name tableName
    pure (true, s)

/-! ### PreferenceHelper.java

The setters ignore whether the handler has stored anything. -/

/-- `PreferenceHelper.setString`. -/
def setString (name value : String) : Option Store := do
  let s ← s.getInstance
  let (_, s) ← s.insertOrUpdate name value NamelessTable.TABLE
  pure s

/-- `PreferenceHelper.setInt`. -/
def setInt (name : String) (value : Int32) : Option Store := do
  let s ← s.getInstance
  let (_, s) ← s.insertOrUpdate name (valueOf value) NamelessTable.TABLE
  pure s

/-- `PreferenceHelper.setBoolean`. -/
def setBoolean (name : String) (value : Bool) : Option Store := do
  let s ← s.getInstance
  let (_, s) ← s.insertOrUpdate name (if value then "1" else "0") NamelessTable.TABLE
  pure s

/-- `PreferenceHelper.remove`. -/
def remove (name : String) : Option Store := do
  let s ← s.getInstance
  let (_, s) ← s.deleteItemByName name NamelessTable.TABLE
  pure s

/-- `PreferenceHelper.getString`. -/
def getString (name defaultValue : String) : Option (String × Store) := do
  let s ← s.getInstance
  let value ← s.getValueByName name NamelessTable.TABLE
  pure (decodeString defaultValue value, s)

/-- The inner option is `none` if the text is not a number. -/
def getInt (name : String) (defaultValue : Int32) : Option (Option Int32 × Store) := do
  let s ← s.getInstance
  let value ← s.getValueByName name NamelessTable.TABLE
  pure (decodeInt defaultValue value, s)

/-- `PreferenceHelper.getBoolean`. -/
def getBoolean (name : String) (defaultValue : Bool) : Option (Bool × Store) := do
  let s ← s.getInstance
  let value ← s.getValueByName name NamelessTable.TABLE
  pure (decodeBoolean defaultValue value, s)

/-! ### UpdateTable.java -/

section UpdateTable

variable (toJson : UpdateInfo → String)

/-- `UpdateTable.insertOrUpdate`, which fetches the database before each use. -/
def insertOrUpdateUpdate (name : String) (info : UpdateInfo) : Option Store := do
  let s ← s.getDatabase
  let s ← s.getDatabase
  let s ← s.deleteRows name UpdateTable.TABLE
  let s ← s.getDatabase
  s.insertRow name (toJson info) UpdateTable.TABLE

/-- `UpdateTable.deleteItemByName`. -/
def deleteUpdateByName (name : String) : Option Store := do
  let s ← s.getDatabase
  let s ← s.getDatabase
  s.deleteRows name UpdateTable.TABLE

end UpdateTable

/-! ## Sequences of calls -/

/-- The setter of the type of the value. -/
def set (name : String) : Value → Option Store
  | .string value => s.setString name value
  | .int value => s.setInt name value
  | .boolean value => s.setBoolean name value

/-- The getter of the type of the default value. -/
def get (name : String) : Value → Option (Option Value × Store)
  | .string d => (s.getString name d).map fun r => (some (.string r.1), r.2)
  | .int d => (s.getInt name d).map fun r => (r.1.map .int, r.2)
  | .boolean d => (s.getBoolean name d).map fun r => (some (.boolean r.1), r.2)

end Store

/-- The calls that change the stores. -/
inductive Op where
  | set (name : String) (value : Value)
  | remove (name : String)
  | get (name : String) (defaultValue : Value)
  | insertUpdate (name : String) (info : UpdateInfo)
  | deleteUpdate (name : String)
  | tearDown
  deriving DecidableEq, Repr

namespace Op

/-- The preference that the call changes. -/
def preference : Op → Option String
  | .set name _ | .remove name => some name
  | .get .. | .insertUpdate .. | .deleteUpdate _ | .tearDown => none

/-- What a call does to the map of the values set. -/
def apply (m : String → Option Value) : Op → String → Option Value
  | .set name value => Function.update m name (some value)
  | .remove name => Function.update m name none
  | .get .. | .insertUpdate .. | .deleteUpdate _ | .tearDown => m

end Op

/-- The effect of a call; `none` is an exception of SQLite. -/
def Store.step (toJson : UpdateInfo → String) (s : Store) : Op → Option Store
  | .set name value => s.set name value
  | .remove name => s.remove name
  | .get name d => (s.get name d).map Prod.snd
  | .insertUpdate name info => s.insertOrUpdateUpdate toJson name info
  | .deleteUpdate name => s.deleteUpdateByName name
  | .tearDown => some s.tearDown

/-- The value last set for each name, unless it was removed since. -/
def lastSet (ops : List Op) : String → Option Value := ops.foldl Op.apply fun _ => none

/-! ## Stores in order -/

namespace Store

variable {s s' : Store} {name value : String}

/-- The rows of the table of the preferences. -/
def rows (s : Store) : List Row :=
  ((s.file.bind fun db => db NamelessTable.TABLE).map Table.rows).getD []

/-- What the table of the preferences holds for a name. -/
def read (s : Store) : Preferences := fun name =>
  (KeyedRows.find Row.name name s.rows).map Row.value

/-- The file of the store, if there is one, has both tables, and that of the preferences at most one
row for each name. -/
def HasTables (s : Store) : Prop :=
  ∀ db, s.file = some db → (∃ table, db NamelessTable.TABLE = some table) ∧
    (∃ table, db UpdateTable.TABLE = some table) ∧ KeyedRows.Unique Row.name s.rows

/-- Both handles are null or none is, and an open database has a file. -/
structure Sane (s : Store) : Prop where
  tables : s.HasTables
  handles : s.sDb = s.sDatabaseHandler
  opened : s.sDb = true → s.file ≠ none

/-- A store that was never used is sane. -/
theorem sane_fresh : fresh.Sane := ⟨nofun, rfl, nofun⟩

/-- An open database, and the table of the preferences. -/
theorem Sane.nameless (h : s.Sane) (hopen : s.sDb = true) :
    ∃ db table, s.file = some db ∧ db NamelessTable.TABLE = some table ∧ s.rows = table.rows := by
  obtain ⟨db, hfile⟩ := Option.ne_none_iff_exists'.1 (h.opened hopen)
  obtain ⟨⟨table, htable⟩, -, -⟩ := h.tables db hfile
  exact ⟨db, table, hfile, htable, by simp [rows, hfile, htable]⟩

/-- There is at most one row for each name. -/
theorem Sane.unique (h : s.Sane) : KeyedRows.Unique Row.name s.rows := by
  cases hfile : s.file with
  | none =>
      have hrows : s.rows = [] := by simp [rows, hfile]
      rw [hrows]
      exact KeyedRows.unique_nil
  | some db => exact (h.tables db hfile).2.2

/-! ### Opening -/

/-- The tables that `onCreate` makes. -/
def created : Database Row :=
  withTable (withTable (fun _ => none) NamelessTable.TABLE) UpdateTable.TABLE

/-- The tables of a new database. -/
theorem on_create_eq : onCreate (fun _ => none : Database Row) = .ok created := by
  rcases on_create_cases (fun _ => none : Database Row) with ⟨-, hcreate⟩ | ⟨hsome, -⟩
  · exact hcreate
  · exact absurd ⟨rfl, rfl⟩ hsome

/-- A database that can be written has a file, and the rows are the same. -/
theorem get_writable_database (h : s.HasTables) :
    ∃ db, s.getWritableDatabase = some { s with file := some db } ∧
      HasTables { s with file := some db } ∧ rows { s with file := some db } = s.rows := by
  cases hfile : s.file with
  | some db =>
      have hsame : { s with file := some db } = s := by rw [← hfile]
      refine ⟨db, ?_, ?_, ?_⟩
      · rw [hsame, getWritableDatabase, hfile]
      · rw [hsame]
        exact h
      · rw [hsame]
  | none =>
      have hnameless : created NamelessTable.TABLE = some ⟨schema, []⟩ := by
        rw [created, with_table_updates_nameless, with_table_self]
      have hrows : rows { s with file := some created } = [] := by
        show (((some created).bind fun db => db NamelessTable.TABLE).map Table.rows).getD [] = _
        rw [Option.bind_some, hnameless]
        rfl
      refine ⟨created, ?_, fun db hdb => ?_, ?_⟩
      · rw [getWritableDatabase, hfile, on_create_eq]
        rfl
      · cases hdb
        rw [hrows]
        exact ⟨⟨_, hnameless⟩, ⟨_, with_table_self _⟩, KeyedRows.unique_nil⟩
      · rw [hrows]
        simp [rows, hfile]

/-- After `getInstance` the database is open. -/
theorem get_instance (h : s.Sane) :
    ∃ s', s.getInstance = some s' ∧ s'.Sane ∧ s'.sDb = true ∧ s'.rows = s.rows := by
  unfold getInstance
  split
  · rename_i hinstance
    exact ⟨s, rfl, h, h.handles.trans hinstance, rfl⟩
  · obtain ⟨db, hdb, htables, hrows⟩ := get_writable_database h.tables
    refine ⟨⟨some db, true, true⟩, ?_, ⟨htables, rfl, fun _ => Option.some_ne_none db⟩, rfl, hrows⟩
    rw [newInstance, hdb]
    rfl

/-- An open database is taken as it is. -/
theorem get_database_of_open (h : s.sDb = true) : s.getDatabase = some s := by
  rw [getDatabase, if_pos h]

/-- Getting the database succeeds, and changes no rows. -/
theorem get_database (h : s.Sane) :
    ∃ s', s.getDatabase = some s' ∧ s'.Sane ∧ s'.sDb = true ∧ s'.rows = s.rows := by
  unfold getDatabase
  split
  · rename_i hopen
    exact ⟨s, rfl, h, hopen, rfl⟩
  · obtain ⟨t, hinstance, ht, hopen, hrows⟩ := get_instance h
    obtain ⟨db, hdb, htables, hrows'⟩ := get_writable_database ht.tables
    have hhandler : true = t.sDatabaseHandler := hopen.symm.trans ht.handles
    refine ⟨{ t with file := some db, sDb := true }, ?_,
      ⟨htables, hhandler, fun _ => Option.some_ne_none db⟩, rfl, hrows'.trans hrows⟩
    rw [hinstance]
    show (t.getWritableDatabase >>= _) = _
    rw [hdb]
    rfl

/-- `tearDown` keeps the rows. -/
theorem tear_down (h : s.Sane) : s.tearDown.Sane ∧ s.tearDown.rows = s.rows :=
  ⟨⟨h.tables, rfl, nofun⟩, rfl⟩

/-! ### Rows -/

/-- The other table is left alone. -/
theorem update_nameless {db : Database Row} (table : Table Row) {rows : List Row}
    (h : s.Sane) (hfile : s.file = some db) (hunique : KeyedRows.Unique Row.name rows) :
    let t : Store := { s with
      file := some (Function.update db NamelessTable.TABLE (some { table with rows := rows })) }
    t.Sane ∧ t.rows = rows := by
  intro t
  have hrows : t.rows = rows := by
    show (((some (Function.update db NamelessTable.TABLE _)).bind
      fun db => db NamelessTable.TABLE).map Table.rows).getD [] = _
    rw [Option.bind_some, Function.update_self]
    rfl
  refine ⟨⟨fun db' hdb => ?_, h.handles, fun _ => Option.some_ne_none _⟩, hrows⟩
  cases hdb
  obtain ⟨-, ⟨updates, hupdates⟩, -⟩ := h.tables db hfile
  refine ⟨⟨_, Function.update_self ..⟩, ⟨updates, ?_⟩, by rwa [hrows]⟩
  rw [Function.update_of_ne (by decide)]
  exact hupdates

/-- The table of the preferences is left alone. -/
theorem update_updates {db : Database Row} {table : Table Row} (h : s.Sane)
    (hfile : s.file = some db) :
    let t : Store := { s with file := some (Function.update db UpdateTable.TABLE (some table)) }
    t.Sane ∧ t.rows = s.rows := by
  intro t
  have hother : Function.update db UpdateTable.TABLE (some table) NamelessTable.TABLE =
      db NamelessTable.TABLE := Function.update_of_ne (by decide) ..
  have hrows : t.rows = s.rows := by
    show (((some (Function.update db UpdateTable.TABLE _)).bind
      fun db => db NamelessTable.TABLE).map Table.rows).getD [] = _
    rw [Option.bind_some, hother, rows, hfile]
    rfl
  refine ⟨⟨fun db' hdb => ?_, h.handles, fun _ => Option.some_ne_none _⟩, hrows⟩
  cases hdb
  obtain ⟨⟨nameless, hnameless⟩, -, hunique⟩ := h.tables db hfile
  exact ⟨⟨nameless, hother.trans hnameless⟩, ⟨_, Function.update_self ..⟩, by rwa [hrows]⟩

/-- Rows are deleted by their name. -/
theorem delete_rows_nameless (name : String) (h : s.Sane) (hopen : s.sDb = true) :
    ∃ s', s.deleteRows name NamelessTable.TABLE = some s' ∧ s'.Sane ∧ s'.sDb = true ∧
      s'.rows = KeyedRows.delete Row.name name s.rows := by
  obtain ⟨db, table, hfile, htable, hrows⟩ := h.nameless hopen
  have hdeleted : (table.rows.filter fun row => !decide (row.name = name)) =
      KeyedRows.delete Row.name name s.rows := by
    rw [hrows, KeyedRows.delete]
    simp only [ne_eq, decide_not]
  obtain ⟨hsane, hrows'⟩ := update_nameless table h hfile
    (KeyedRows.unique_delete (k := name) h.unique)
  refine ⟨_, ?_, hsane, hopen, hrows'⟩
  unfold deleteRows
  rw [hfile]
  show (Sql.delete db _ _ >>= _) = _
  rw [Sql.delete, htable, Option.map_some, hdeleted]
  rfl

/-- A row with a new name goes behind the others. -/
theorem insert_row_nameless (value : String) (h : s.Sane) (hopen : s.sDb = true)
    (hnew : ∀ row ∈ s.rows, row.name ≠ name) :
    ∃ s' row, s.insertRow name value NamelessTable.TABLE = some s' ∧ s'.Sane ∧ s'.sDb = true ∧
      s'.rows = s.rows ++ [row] ∧ row.name = name ∧ row.value = value := by
  obtain ⟨db, table, hfile, htable, hrows⟩ := h.nameless hopen
  have hunique : KeyedRows.Unique Row.name (s.rows ++ [⟨nextId s.rows, name, value⟩]) := by
    unfold KeyedRows.Unique
    rw [List.map_append, List.map_singleton]
    refine List.nodup_append.2 ⟨h.unique, List.nodup_singleton _, ?_⟩
    intro a ha b hb heq
    obtain ⟨row, hrow, rfl⟩ := List.mem_map.1 ha
    exact hnew row hrow (heq.trans (List.mem_singleton.1 hb))
  obtain ⟨hsane, hrows'⟩ := update_nameless table h hfile hunique
  refine ⟨_, ⟨nextId s.rows, name, value⟩, ?_, hsane, hopen, hrows', rfl, rfl⟩
  unfold insertRow
  rw [hfile]
  show (Sql.insert db _ _ >>= _) = _
  rw [Sql.insert, htable, Option.map_some, hrows]
  rfl

/-- An open database, and the table of the updates. -/
theorem Sane.updates (h : s.Sane) (hopen : s.sDb = true) :
    ∃ db table, s.file = some db ∧ db UpdateTable.TABLE = some table := by
  obtain ⟨db, hfile⟩ := Option.ne_none_iff_exists'.1 (h.opened hopen)
  obtain ⟨-, ⟨table, htable⟩, -⟩ := h.tables db hfile
  exact ⟨db, table, hfile, htable⟩

/-- Deleting updates leaves the preferences alone. -/
theorem delete_rows_updates (name : String) (h : s.Sane) (hopen : s.sDb = true) :
    ∃ s', s.deleteRows name UpdateTable.TABLE = some s' ∧ s'.Sane ∧ s'.sDb = true ∧
      s'.rows = s.rows := by
  obtain ⟨db, table, hfile, htable⟩ := h.updates hopen
  obtain ⟨hsane, hrows⟩ := update_updates h hfile
  refine ⟨_, ?_, hsane, hopen, hrows⟩
  unfold deleteRows
  rw [hfile]
  show (delete db _ _ >>= _) = _
  rw [Sql.delete, htable, Option.map_some]
  rfl

/-- So does inserting them. -/
theorem insert_row_updates (name value : String) (h : s.Sane) (hopen : s.sDb = true) :
    ∃ s', s.insertRow name value UpdateTable.TABLE = some s' ∧ s'.Sane ∧ s'.rows = s.rows := by
  obtain ⟨db, table, hfile, htable⟩ := h.updates hopen
  obtain ⟨hsane, hrows⟩ := update_updates h hfile
  refine ⟨_, ?_, hsane, hrows⟩
  unfold insertRow
  rw [hfile]
  show (Sql.insert db _ _ >>= _) = _
  rw [Sql.insert, htable, Option.map_some]
  rfl

/-! ### Calls on the instance -/

/-- A row that replaces those of its name changes the value of that name only. -/
theorem read_replace {row : Row} (hname : row.name = name)
    (hrows : s'.rows = KeyedRows.delete Row.name name s.rows ++ [row]) :
    s'.read = Function.update s.read name (some row.value) := by
  have hreplace : s'.rows = KeyedRows.replace Row.name name row s.rows := hrows
  funext other
  unfold read
  rw [hreplace]
  by_cases hother : other = name
  · rw [hother, Function.update_self, KeyedRows.find_replace_self hname]
    rfl
  · rw [Function.update_of_ne hother, KeyedRows.find_replace_of_ne hname hother]

/-- Deleting the rows of a name removes its value. -/
theorem read_delete (hrows : s'.rows = KeyedRows.delete Row.name name s.rows) :
    s'.read = Function.update s.read name none := by
  funext other
  unfold read
  rw [hrows]
  by_cases hother : other = name
  · rw [hother, Function.update_self, KeyedRows.find_delete_self]
    rfl
  · rw [Function.update_of_ne hother, KeyedRows.find_delete_of_ne hother]

/-- What is read depends on the rows. -/
theorem read_congr (hrows : s'.rows = s.rows) : s'.read = s.read := by
  unfold read
  rw [hrows]

/-- `insertOrUpdate` changes the value of its name. -/
theorem insert_or_update (name value : String) (h : s.Sane) (hopen : s.sDb = true) :
    ∃ s', s.insertOrUpdate name value NamelessTable.TABLE = some (true, s') ∧ s'.Sane ∧
      s'.sDb = true ∧ s'.read = Function.update s.read name (some value) := by
  obtain ⟨t, hdelete, ht, htopen, htrows⟩ := delete_rows_nameless name h hopen
  have hnew : ∀ row ∈ t.rows, row.name ≠ name := fun row hrow =>
    KeyedRows.key_ne_of_mem_delete (htrows ▸ hrow)
  obtain ⟨s', row, hinsert, hsane, hopen', hrows, hname, hvalue⟩ :=
    insert_row_nameless value ht htopen hnew
  refine ⟨s', ?_, hsane, hopen', ?_⟩
  · rw [insertOrUpdate, if_neg (by simp [hopen]), hdelete]
    show (t.insertRow name value NamelessTable.TABLE >>= _) = _
    rw [hinsert]
    rfl
  · rw [← hvalue]
    exact read_replace hname (by rw [hrows, htrows])

/-- `deleteItemByName` removes the value of its name. -/
theorem delete_item_by_name (name : String) (h : s.Sane) (hopen : s.sDb = true) :
    ∃ s', s.deleteItemByName name NamelessTable.TABLE = some (true, s') ∧ s'.Sane ∧
      s'.sDb = true ∧ s'.read = Function.update s.read name none := by
  obtain ⟨s', hdelete, hsane, hopen', hrows⟩ := delete_rows_nameless name h hopen
  refine ⟨s', ?_, hsane, hopen', read_delete hrows⟩
  rw [deleteItemByName, if_neg (by simp [hopen]), hdelete]
  rfl

/-- `getValueByName` reads the value of its name. -/
theorem get_value_by_name (h : s.Sane) (hopen : s.sDb = true) :
    s.getValueByName name NamelessTable.TABLE = some (s.read name) := by
  obtain ⟨db, table, hfile, htable, hrows⟩ := h.nameless hopen
  rw [getValueByName, if_neg (by simp [hopen]), hfile]
  show (select db _ _ >>= _) = _
  rw [select, htable, read, hrows]
  rfl

/-! ### Calls of the helper -/

/-- A setter fetches the instance and calls it with the text of the value. -/
theorem set_eq_bind (v : Value) :
    s.set name v = s.getInstance >>= fun t =>
      (t.insertOrUpdate name v.encode NamelessTable.TABLE).map Prod.snd := by
  have hbind : ∀ (t : Store) (text : String),
      (t.insertOrUpdate name text NamelessTable.TABLE >>= fun r => some r.2) =
        (t.insertOrUpdate name text NamelessTable.TABLE).map Prod.snd := fun t text =>
    (Option.map_eq_bind ..).symm
  cases v with
  | string value | int value | boolean value => exact bind_congr fun t => hbind t _

/-- A getter fetches the instance, calls it and decodes the text. -/
theorem get_eq_bind (d : Value) :
    s.get name d = s.getInstance >>= fun t =>
      (t.getValueByName name NamelessTable.TABLE).map fun value => (decode value d, t) := by
  cases d with
  | string d | int d | boolean d =>
      simp only [get, getString, getInt, getBoolean]
      cases s.getInstance with
      | none => rfl
      | some t =>
          show (t.getValueByName name _ >>= _).map _ = (t.getValueByName name _).map _
          cases t.getValueByName name NamelessTable.TABLE <;> rfl

/-- A setter does to the rows what it does to the map. -/
theorem set_eq (h : s.Sane) (v : Value) :
    ∃ s', s.set name v = some s' ∧ s'.Sane ∧ s'.read = s.read.set name v := by
  obtain ⟨t, hinstance, ht, hopen, hrows⟩ := get_instance h
  obtain ⟨s', hinsert, hsane, -, hread⟩ :=
    insert_or_update name v.encode ht hopen
  refine ⟨s', ?_, hsane, by rw [hread, read_congr hrows, Preferences.set]⟩
  rw [set_eq_bind, hinstance]
  show (t.insertOrUpdate name v.encode _).map _ = _
  rw [hinsert]
  rfl

/-- So does `remove`. -/
theorem remove_eq (h : s.Sane) :
    ∃ s', s.remove name = some s' ∧ s'.Sane ∧ s'.read = s.read.remove name := by
  obtain ⟨t, hinstance, ht, hopen, hrows⟩ := get_instance h
  obtain ⟨s', hdelete, hsane, -, hread⟩ := delete_item_by_name name ht hopen
  refine ⟨s', ?_, hsane, by rw [hread, read_congr hrows, Preferences.remove]⟩
  rw [remove, hinstance]
  show (t.deleteItemByName name _ >>= _) = _
  rw [hdelete]
  rfl

/-- A getter reads the map and changes no rows. -/
theorem get_eq (name : String) (h : s.Sane) (d : Value) :
    ∃ s', s.get name d = some (decode (s.read name) d, s') ∧ s'.Sane ∧ s'.read = s.read := by
  obtain ⟨t, hinstance, ht, hopen, hrows⟩ := get_instance h
  refine ⟨t, ?_, ht, read_congr hrows⟩
  rw [get_eq_bind, hinstance]
  show (t.getValueByName name _).map _ = _
  rw [get_value_by_name ht hopen, read_congr hrows]
  rfl

/-- Storing an update leaves the preferences alone. -/
theorem insert_or_update_update (toJson : UpdateInfo → String) (info : UpdateInfo) (h : s.Sane) :
    ∃ s', s.insertOrUpdateUpdate toJson name info = some s' ∧ s'.Sane ∧ s'.read = s.read := by
  obtain ⟨t, hdatabase, ht, hopen, hrows⟩ := get_database h
  obtain ⟨u, hdelete, hu, huopen, hurows⟩ := delete_rows_updates name ht hopen
  obtain ⟨s', hinsert, hsane, hrows'⟩ :=
    insert_row_updates name (toJson info) hu huopen
  refine ⟨s', ?_, hsane, read_congr (by rw [hrows', hurows, hrows])⟩
  rw [insertOrUpdateUpdate, hdatabase]
  show (t.getDatabase >>= _) = _
  rw [get_database_of_open hopen]
  show (t.deleteRows name _ >>= _) = _
  rw [hdelete]
  show (u.getDatabase >>= _) = _
  rw [get_database_of_open huopen]
  exact hinsert

/-- So does deleting one. -/
theorem delete_update_by_name (h : s.Sane) :
    ∃ s', s.deleteUpdateByName name = some s' ∧ s'.Sane ∧ s'.read = s.read := by
  obtain ⟨t, hdatabase, ht, hopen, hrows⟩ := get_database h
  obtain ⟨s', hdelete, hsane, -, hrows'⟩ := delete_rows_updates name ht hopen
  refine ⟨s', ?_, hsane, read_congr (by rw [hrows', hrows])⟩
  rw [deleteUpdateByName, hdatabase]
  show (t.getDatabase >>= _) = _
  rw [get_database_of_open hopen]
  exact hdelete

end Store

/-! ## Refinement -/

/-- What a call does to the map of the preferences. -/
def Op.onPreferences (p : Preferences) : Op → Preferences
  | .set name value => p.set name value
  | .remove name => p.remove name
  | .get .. | .insertUpdate .. | .deleteUpdate _ | .tearDown => p

/-- The texts of the values set. -/
def encoded (m : String → Option Value) : Preferences := fun name => (m name).map Value.encode

/-- On encoded values, a call does what it does to the values. -/
theorem on_preferences_encoded (m : String → Option Value) (op : Op) :
    op.onPreferences (encoded m) = encoded (op.apply m) := by
  cases op with
  | set name value =>
      funext other
      simp only [Op.onPreferences, Preferences.set, Op.apply, encoded, Function.update_apply]
      split <;> rfl
  | remove name =>
      funext other
      simp only [Op.onPreferences, Preferences.remove, Op.apply, encoded, Function.update_apply]
      split <;> rfl
  | get | insertUpdate | deleteUpdate | tearDown => rfl

section Refinement

variable {toJson : UpdateInfo → String} {s : Store}

/-- Every call on a store in order succeeds, and does to its preferences what it does to the map. -/
theorem step_refines (toJson : UpdateInfo → String) (h : s.Sane) (op : Op) :
    ∃ s', s.step toJson op = some s' ∧ s'.Sane ∧ s'.read = op.onPreferences s.read := by
  cases op with
  | set name value => exact Store.set_eq h value
  | remove name => exact Store.remove_eq h
  | get name d =>
      obtain ⟨s', hget, hsane, hread⟩ := Store.get_eq name h d
      exact ⟨s', by rw [Store.step, hget]; rfl, hsane, hread⟩
  | insertUpdate name info => exact Store.insert_or_update_update toJson info h
  | deleteUpdate name => exact Store.delete_update_by_name h
  | tearDown =>
      obtain ⟨hsane, hrows⟩ := Store.tear_down h
      exact ⟨_, rfl, hsane, Store.read_congr hrows⟩

/-- A run of the store does to its rows what it does to the map. -/
theorem run_refines (toJson : UpdateInfo → String) (h : s.Sane) {m : String → Option Value}
    (hm : s.read = encoded m) (ops : List Op) :
    ∃ s', Machine.run (Store.step toJson) s ops = some s' ∧ s'.Sane ∧
      s'.read = encoded (ops.foldl Op.apply m) := by
  induction ops generalizing s m with
  | nil => exact ⟨s, rfl, h, hm⟩
  | cons op ops ih =>
      obtain ⟨t, hstep, ht, hread⟩ := step_refines toJson h op
      rw [hm, on_preferences_encoded] at hread
      obtain ⟨s', hrun, hsane, hread'⟩ := ih ht hread
      exact ⟨s', Machine.run_cons.2 ⟨t, hstep, hrun⟩, hsane, hread'⟩

/-- A value is read back by the getter of its type, unless it is the empty text. -/
theorem decode_encode {v d : Value} (htype : v.SameType d) (hne : v ≠ .string "") :
    decode (some v.encode) d = some v := by
  cases v with
  | string value =>
      cases d with
      | string d =>
          have hvalue : value ≠ "" := fun heq => hne (congrArg Value.string heq)
          simp [decode, decodeString, Value.encode, hvalue]
      | int | boolean => exact htype.elim
  | int i =>
      cases d with
      | int d =>
          have hparse : parseInt (valueOf i) = some i.toInt :=
            parse_int_to_string i.le_toInt i.toInt_lt
          have hempty : valueOf i ≠ "" := to_string_ne_empty i.toInt
          simp [decode, decodeInt, Value.encode, hempty, hparse]
      | string | boolean => exact htype.elim
  | boolean b =>
      cases d with
      | boolean d => cases b <;> rfl
      | string | int => exact htype.elim

/-- A preference that was never stored has its default. -/
theorem decode_of_none (d : Value) : decode none d = some d := by
  cases d <;> rfl

/-- So has an empty text. -/
theorem decode_of_empty (d : Value) : decode (some "") d = some d := by
  cases d <;> rfl

/-- The call of a getter returns this value. -/
def Store.Returns (s : Store) (name : String) (d v : Value) : Prop :=
  ∃ s', s.get name d = some (some v, s')

/-- What a getter returns is the value of its name in the map. -/
theorem returns_iff (h : s.Sane) {name : String} {d v : Value} :
    s.Returns name d v ↔ decode (s.read name) d = some v := by
  obtain ⟨t, hget, -, -⟩ := Store.get_eq name h d
  unfold Store.Returns
  rw [hget]
  simp

end Refinement

/-- After any calls, the table of the preferences has at most one row for a name, every getter
returns the value last set for its name, or its default value when there is none or it is the empty
text, and a call changes what is read for no other name. -/
theorem store_refines_map (toJson : UpdateInfo → String) (ops : List Op) :
    ∃ s, Machine.run (Store.step toJson) .fresh ops = some s ∧
      (∀ name, (s.rows.filter fun row => row.name = name).length ≤ 1) ∧
      (∀ name d, lastSet ops name = none → s.Returns name d d) ∧
      (∀ name d, lastSet ops name = some (.string "") → s.Returns name d d) ∧
      (∀ name d v, lastSet ops name = some v → v ≠ .string "" → v.SameType d →
        s.Returns name d v) ∧
      ∀ op, ∃ s', s.step toJson op = some s' ∧ ∀ name d v, op.preference ≠ some name →
        (s'.Returns name d v ↔ s.Returns name d v) := by
  obtain ⟨s, hrun, hsane, hread⟩ :=
    run_refines toJson (m := fun _ => none) Store.sane_fresh rfl ops
  have hvalue : ∀ name, s.read name = (lastSet ops name).map Value.encode := fun name => by
    rw [hread]
    rfl
  refine ⟨s, hrun, fun name => KeyedRows.length_filter_le_one hsane.unique, ?_, ?_, ?_, ?_⟩
  · intro name d hnone
    rw [returns_iff hsane, hvalue, hnone]
    exact decode_of_none d
  · intro name d hempty
    rw [returns_iff hsane, hvalue, hempty]
    exact decode_of_empty d
  · intro name d v hset hne htype
    rw [returns_iff hsane, hvalue, hset]
    exact decode_encode htype hne
  · intro op
    obtain ⟨s', hstep, hsane', hread'⟩ := step_refines toJson hsane op
    refine ⟨s', hstep, fun name d v hother => ?_⟩
    have hsame : s'.read name = s.read name := by
      rw [hread']
      cases op with
      | set other value | remove other =>
          exact Function.update_of_ne (fun heq => hother (congrArg some heq.symm)) _ _
      | get | insertUpdate | deleteUpdate | tearDown => rfl
    rw [returns_iff hsane', returns_iff hsane, hsame]

end NamelessCenter.Database
