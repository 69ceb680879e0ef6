import SchemaCompiler.Text.Offset

/-!
# Schema documents

A document is a list of statements. A table definition declares a table with its primary key, its
other fields and the fields that show a row. A relation links two tables; the weights of its sides
say which side owns the other, and its markers say how many rows of each side take part.
-/

set_option autoImplicit false
set_option relaxedAutoImplicit false

namespace SchemaCompiler

/-- A mark after a field type. -/
inductive FieldOption where
  | nullable
  | unique
  | sequence
deriving Repr, DecidableEq

/-- The character that writes a field option. -/
def FieldOption.toChar : FieldOption → Char
  | nullable => '?'
  | unique => '!'
  | sequence => '~'

/-- The raw text after the `=` of a field. -/
structure DefaultText where
  text : String
  span : Span
deriving Repr, DecidableEq

/-- A field of a table or of a relation. -/
structure Field where
  name : String
  /-- The type symbol as written. -/
  type : String
  /-- The options in the order in which they are written. -/
  options : List FieldOption := []
  initial : Option DefaultText := none
deriving Repr, DecidableEq

/-- Which fields show a row. -/
inductive Shown where
  | all
  | fields (names : List String)
deriving Repr, DecidableEq

/-- The declaration of a table. -/
structure TableDefinition where
  name : String
  primaries : List Field
  fields : List Field
  shown : Option Shown := none
deriving Repr, DecidableEq

/-- One side of a relation. -/
structure Side where
  symbol : String
  /-- The number of `^` after the symbol. -/
  weight : Nat
  /-- The number of `<` or `>` on this side of the dash. -/
  markers : Nat
deriving Repr, DecidableEq

/-- A relation between two tables. -/
structure Relation where
  left : Side
  right : Side
  /-- The fields that link rows have beside the two keys. -/
  fields : List Field
deriving Repr, DecidableEq

/-- A statement of a document. -/
inductive Statement where
  | table (definition : TableDefinition)
  | relation (relation : Relation)
deriving Repr, DecidableEq

/-- The fields of a statement, those of a primary key first. -/
def Statement.fields : Statement → List Field
  | .table definition => definition.primaries ++ definition.fields
  | .relation sides => sides.fields

/-- A parsed document. -/
structure Document where
  statements : List Statement
deriving Repr, DecidableEq

namespace Document

/-- The relations of a document in the order in which they are written. -/
def relations (document : Document) : List Relation :=
  document.statements.filterMap fun
    | .table _ => none
    | .relation relation => some relation

/-- The table definitions of a document in the order in which they are written. -/
def tables (document : Document) : List TableDefinition :=
  document.statements.filterMap fun
    | .table definition => some definition
    | .relation _ => none

end Document

end SchemaCompiler
