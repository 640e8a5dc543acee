import Mathlib.Data.List.Basic
import Mathlib.Logic.Function.Basic

/-!
# Statements of SQLite

A database maps the names of its tables to their columns and rows. `execSQL` runs the text of a
statement. Of the language it knows `CREATE TABLE`, which is an error when the table exists, and
`DROP TABLE IF EXISTS`, which never is. The queries, deletions and insertions of an app are not
texts but calls, `select`, `delete` and `insert`; without the table they fail.
-/

namespace Sql

/-- A table, with the name and the type of each column. -/
structure Table (ρ : Type*) where
  columns : List (String × String)
  rows : List ρ
  deriving DecidableEq, Repr

/-- The tables by their names. -/
abbrev Database (ρ : Type*) := String → Option (Table ρ)

/-- The statements that are understood. -/
inductive Statement where
  | createTable (name : String) (columns : List (String × String))
  | dropTableIfExists (name : String)
  deriving DecidableEq, Repr

/-- What a statement can throw. -/
inductive SQLException where
  | syntaxError (sql : String)
  | tableExists (name : String)
  deriving DecidableEq, Repr

/-! ## The text of a statement -/

/-- What follows the keywords at the start of a text. -/
def afterKeywords (keywords text : List Char) : Option (List Char) :=
  if keywords.isPrefixOf text then some (text.drop keywords.length) else none

/-- A column definition: a name and, behind the first space, a type. -/
def parseColumn (text : List Char) : String × String :=
  (String.ofList (text.takeWhile (· ≠ ' ')), String.ofList ((text.dropWhile (· ≠ ' ')).drop 1))

/-- A table name with its column definitions in parentheses. -/
def parseTable (text : List Char) : Statement :=
  let name := text.takeWhile (· ≠ '(')
  let definitions := (text.drop (name.length + 1)).takeWhile (· ≠ ')')
  .createTable (String.ofList name) ((definitions.splitOn ',').map parseColumn)

/-- The statement with this text; a semicolon may end it. -/
def parse (sql : String) : Option Statement :=
  let text := sql.toList.takeWhile (· ≠ ';')
  match afterKeywords "DROP TABLE IF EXISTS ".toList text with
  | some name => some (.dropTableIfExists (String.ofList name))
  | none => (afterKeywords "CREATE TABLE ".toList text).map parseTable

/-! ## Execution -/

variable {ρ : Type*}

/-- What a statement does to the tables. -/
def Statement.exec (db : Database ρ) : Statement → Except SQLException (Database ρ)
  | .createTable name columns =>
      match db name with
      | some _ => .error (.tableExists name)
      | none => .ok (Function.update db name (some ⟨columns, []⟩))
  | .dropTableIfExists name => .ok (Function.update db name none)

/-- `execSQL(sql)`. -/
def execSQL (db : Database ρ) (sql : String) : Except SQLException (Database ρ) :=
  match parse sql with
  | none => .error (.syntaxError sql)
  | some statement => statement.exec db

/-- A step that succeeds goes on. -/
@[simp] theorem ok_bind {α β : Type _} (a : α) (f : α → Except SQLException β) :
    (Except.ok a >>= f) = f a := rfl

/-- A table that is not there is created, and empty. -/
theorem exec_create_of_missing {db : Database ρ} {sql name : String}
    {columns : List (String × String)} (hsql : parse sql = some (.createTable name columns))
    (hmissing : db name = none) :
    execSQL db sql = .ok (Function.update db name (some ⟨columns, []⟩)) := by
  simp only [execSQL, hsql, Statement.exec, hmissing]

/-- One that is there cannot be created again. -/
theorem exec_create_of_exists {db : Database ρ} {sql name : String} {table : Table ρ}
    {columns : List (String × String)} (hsql : parse sql = some (.createTable name columns))
    (hexists : db name = some table) : execSQL db sql = .error (.tableExists name) := by
  simp only [execSQL, hsql, Statement.exec, hexists]

/-- A table is dropped, whether it is there or not. -/
theorem exec_drop {db : Database ρ} {sql name : String}
    (hsql : parse sql = some (.dropTableIfExists name)) :
    execSQL db sql = .ok (Function.update db name none) := by
  simp only [execSQL, hsql, Statement.exec]

/-! ## Rows -/

/-- The rows of a table that satisfy the condition. -/
def select (db : Database ρ) (name : String) (p : ρ → Bool) : Option (List ρ) :=
  (db name).map fun table => table.rows.filter p

/-- Delete the rows of a table that satisfy the condition. -/
def delete (db : Database ρ) (name : String) (p : ρ → Bool) : Option (Database ρ) :=
  (db name).map fun table =>
    Function.update db name (some { table with rows := table.rows.filter fun row => !p row })

/-- Append a row to a table; the new row may depend on those that are there. -/
def insert (db : Database ρ) (name : String) (row : List ρ → ρ) : Option (Database ρ) :=
  (db name).map fun table =>
    Function.update db name (some { table with rows := table.rows ++ [row table.rows] })

end Sql
