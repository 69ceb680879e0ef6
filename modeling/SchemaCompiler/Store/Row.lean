import SchemaCompiler.Schema.Table
import SchemaCompiler.Text.Quoted

/-!
# Rows

A row gives a value to each column of its table. Rows are addressed by their integer values: link
rows refer to them, selections compare them, and keys consist of them.
-/

set_option autoImplicit false
set_option relaxedAutoImplicit false

namespace SchemaCompiler

/-- A value of a column. -/
inductive Value where
  | null
  | integer (number : Int)
  | text (content : String)
  /-- A value of an enumeration. -/
  | variant (name : String)
deriving Repr, DecidableEq

/-- A value as it is shown. -/
def Value.describe : Value → String
  | null => "None"
  | integer number => toString number
  | text content => Text.quote content
  | variant name => name

/-- The values of the columns of a table. -/
structure Row where
  values : List (String × Value)
deriving Repr, DecidableEq

namespace Row

/-- The value of a column. -/
def value? (row : Row) (column : String) : Option Value :=
  (row.values.find? fun entry ↦ entry.1 == column).map Prod.snd

/-- The value of a column that holds an integer. -/
def integer? (row : Row) (column : String) : Option Int :=
  match row.value? column with
  | some (.integer number) => some number
  | _ => none

/-- The value of a column as it is shown; a value that may be absent is marked as present. -/
def describeColumn (row : Row) (column : Column) : String :=
  match row.value? column.name with
  | none | some .null => Value.null.describe
  | some value =>
    if column.nullable then "Some(" ++ value.describe ++ ")" else value.describe

/-- A row as it is shown: the name of its table and the shown columns. -/
def describe (row : Row) (table : Table) : String :=
  let parts := table.shown.filterMap fun name ↦
    (table.column? name).map fun column ↦ name ++ ":" ++ row.describeColumn column
  table.name ++ "\x7b " ++ String.intercalate ", " parts ++ " \x7d"

end Row

namespace Table

/-- The names of the columns of the primary key. -/
def keyColumns (table : Table) : List String :=
  (table.columns.filter Column.primaryKey).map Column.name

/-- The integers among the values of the primary key. -/
def integerKey (table : Table) (row : Row) : List Int := table.keyColumns.filterMap row.integer?

/-- The values of the primary key, if all of them are integers. -/
def wholeKey? (table : Table) (row : Row) : Option (List Int) := table.keyColumns.mapM row.integer?

end Table

end SchemaCompiler
