import SchemaCompiler.Store.Row

/-!
# Sessions in memory

A session holds rows by the names of their tables, each table in the order in which its rows were
inserted, and logs what it is asked for under the storage names. Rows of a table are the same to a
session if the integers of their primary keys are.
-/

set_option autoImplicit false
set_option relaxedAutoImplicit false

namespace SchemaCompiler

/-- What a session was asked for and did. -/
inductive Operation where
  | select (storage column : String) (value : Int)
  | delete (storage : String) (key : List Int)
deriving Repr, DecidableEq

/-- A row to delete that is not stored. -/
structure MissingRow where
  storage : String
  key : List Int
deriving Repr, DecidableEq

/-- The rows of all tables, and what was done to them. -/
structure Session where
  rowsOf : String → List Row := fun _ ↦ []
  log : List Operation := []

namespace Session

/-- The session without rows. -/
def empty : Session := {}

/-- Replaces the rows of a table. -/
def setRows (session : Session) (table : Table) (rows : List Row) : Session :=
  { session with rowsOf := fun name ↦ if name = table.name then rows else session.rowsOf name }

/-- The rows of a table. -/
def rows (session : Session) (table : Table) : List Row := session.rowsOf table.name

/-- Adds a row at the end of its table; the log does not show it. -/
def insert (session : Session) (table : Table) (row : Row) : Session :=
  session.setRows table (session.rows table ++ [row])

/-- Adds an entry to the log. -/
def note (session : Session) (operation : Operation) : Session :=
  { session with log := session.log ++ [operation] }

/-- The rows of a table whose column holds an integer. -/
def select (session : Session) (table : Table) (column : String) (value : Int) :
    List Row × Session :=
  ((session.rows table).filter fun row ↦ row.integer? column == some value,
    session.note (.select table.storage column value))

/-- Removes all rows with the key of a row. -/
def delete (session : Session) (table : Table) (row : Row) : Except MissingRow Session :=
  let key := table.integerKey row
  let kept := (session.rows table).filter fun stored ↦ table.integerKey stored != key
  if kept.length = (session.rows table).length then .error ⟨table.storage, key⟩
  else .ok ((session.setRows table kept).note (.delete table.storage key))

/-- The deletes of the log in order. -/
def deletes (session : Session) : List (String × List Int) :=
  session.log.filterMap fun
    | .delete storage key => some (storage, key)
    | .select .. => none

end Session

end SchemaCompiler
