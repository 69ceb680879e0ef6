import SchemaCompiler.Ordered
import SchemaCompiler.Schema.Column

/-!
# Tables

A table is declared by a table definition or synthesized for a relation, whose link rows it holds.
Its accessors lead over one step of a relation: from a row of a declared table to its link rows, and
from a link row to the rows that it links.
-/

set_option autoImplicit false
set_option relaxedAutoImplicit false

namespace SchemaCompiler

/-- Where a table comes from. -/
inductive TableKind where
  | declared
  /-- The link entity of the relation between two tables. -/
  | link (left right : String)
deriving Repr, DecidableEq

/-- A step over a relation. -/
structure Accessor where
  /-- The table that the step leads to. -/
  target : String
  /-- Whether the step leads to any number of rows, or to one at most. -/
  many : Bool
  /-- The column of the link entity that joins the two sides. -/
  column : String
  /-- The accessor of the target that leads back. -/
  inverse : String
deriving Repr, DecidableEq

/-- A table of a schema. -/
structure Table where
  name : String
  storage : String
  kind : TableKind
  primary : OrderedMap Column := .empty
  ordinary : OrderedMap Column := .empty
  accessors : OrderedMap Accessor := .empty
  /-- The columns that show a row. -/
  shown : List String := []
deriving Repr, DecidableEq

namespace Table

/-- Whether the table holds link rows. -/
def isLink (table : Table) : Bool :=
  match table.kind with
  | .declared => false
  | .link .. => true

/-- The columns, the primary key first. -/
def columns (table : Table) : List Column := table.primary.values ++ table.ordinary.values

/-- The column of a name. -/
def column? (table : Table) (name : String) : Option Column :=
  match table.primary.get? name with
  | some column => some column
  | none => table.ordinary.get? name

/-- The names of the columns. -/
def columnNames (table : Table) : List String := table.columns.map Column.name

/-- Whether link rows can refer to the rows of the table: by a primary key column `id` that holds an
integer and is never null. -/
def hasIntegerId (table : Table) : Bool :=
  match table.primary.get? "id" with
  | some column => column.type.isInteger && !column.nullable
  | none => false

/-- Adds a column to the key or to the others, as its `primaryKey` says. -/
def addColumn (table : Table) (column : Column) : Table :=
  if column.primaryKey then { table with primary := table.primary.insert column.name column }
  else { table with ordinary := table.ordinary.insert column.name column }

/-- Sets an accessor. -/
def addAccessor (table : Table) (name : String) (accessor : Accessor) : Table :=
  { table with accessors := table.accessors.insert name accessor }

end Table

end SchemaCompiler
