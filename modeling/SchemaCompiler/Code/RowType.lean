import SchemaCompiler.Code.Plan
import SchemaCompiler.Code.Tree

/-!
# Row types

The code of a table is a type for its rows, its description for the runtime, the text that shows a
row, and a method for each accessor. `RowType.ofPlan` resolves the accessors against the other
tables; after that, writing the code cannot fail.
-/

set_option autoImplicit false
set_option relaxedAutoImplicit false

namespace SchemaCompiler

open Target (Identifier)
open SchemaCompiler.Tree

instance : Coe Identifier Tree := ⟨fun identifier ↦ .word identifier.text⟩

/-- A method that performs a step over a relation. -/
inductive AccessorMethod where
  /-- Lists the rows of `target` whose `column` holds the `id` of the row. -/
  | collection (method target : Identifier) (column : String) (id : Identifier)
  /-- Finds the row of `target` whose `id` is in the `key` of the row. -/
  | back (method target : Identifier) (key : Identifier)
deriving Repr, DecidableEq

/-- The code of a table. -/
structure RowType where
  plan : TablePlan
  methods : List AccessorMethod
deriving Repr, DecidableEq

namespace RowType

/-! ### Accessors -/

/-- Resolves an accessor of a table. -/
def method (plan : Plan) (owner : TablePlan) (entry : AccessorPlan) :
    Except GenerationStop AccessorMethod :=
  let keyColumn := if entry.accessor.many then "id" else entry.accessor.column
  match plan.tables.get? entry.accessor.target, owner.field? keyColumn with
  | some target, some key =>
    if entry.accessor.many then
      .ok (.collection entry.method target.rowType entry.accessor.column key)
    else .ok (.back entry.method target.rowType key)
  | _, _ => .error (.danglingAccessor owner.table.name entry.name)

/-- The code of a planned table. -/
def ofPlan (plan : Plan) (owner : TablePlan) : Except GenerationStop RowType := do
  return ⟨owner, ← owner.accessors.mapM (method plan owner)⟩

/-! ### Text -/

/-- The name of the type of optional values. -/
def optionType : Tree := ":: std :: option :: Option"

/-- A present value. -/
def present (value : List Tree) : Tree := .row [optionType, ":: Some", paren value]

/-- An absent value. -/
def absent : Tree := .row [optionType, ":: None"]

/-- A text that may be absent. -/
def optionalText : Option String → Tree
  | some content => present [literal content]
  | none => absent

/-- A truth value. -/
def truth (value : Bool) : Tree := if value then "true" else "false"

/-- The type of a field. -/
def fieldType (runtime : Tree) (entry : ColumnPlan) : Tree :=
  let base : Tree := match entry.column.type, entry.enumeration with
    | .integer, _ => "i64"
    | .smallInteger, _ => "i16"
    | .text _, _ => ":: std :: string :: String"
    | .dateTime, _ => .row [runtime, ":: DateTime"]
    | .date, _ => .row [runtime, ":: Date"]
    | .enumeration _, some name => name
    | .enumeration symbol, none => symbol
  if entry.column.nullable then .row [optionType, "<", base, ">"] else base

/-- The column type as the runtime names it. -/
def columnType : ColumnType → Tree
  | .integer => "Integer"
  | .smallInteger => "SmallInteger"
  | .text (some limit) =>
    .row ["String", paren [present [.word (toString limit ++ "u32")]]]
  | .text none => .row ["String", paren [absent]]
  | .dateTime => "DateTime"
  | .date => "Date"
  | .enumeration symbol => .row ["Enum", paren [literal symbol]]

/-- The description of a column for the runtime. -/
def columnValue (runtime : Tree) (column : Column) : Tree :=
  .row [runtime, ":: Column", brace [
    "name :", literal column.name, ",",
    "ty :", runtime, ":: ColumnType ::", columnType column.type, ",",
    "primary_key :", truth column.primaryKey, ",",
    "nullable :", truth column.nullable, ",",
    "unique :", truth column.unique, ",",
    "default :", optionalText column.initial, ",",
    "sequence :", optionalText column.sequence, ",",
    "foreign_key :", optionalText (column.foreignKey.map ForeignKey.describe), ","]]

/-- The case that reads an integer column. -/
def integerCase (entry : ColumnPlan) : Tree :=
  if entry.column.nullable then
    .row [literal entry.column.name, "=> self .", entry.field, ". map (i64 :: from) ,"]
  else
    .row [literal entry.column.name, "=>",
      present ["i64 :: from", paren ["self .", entry.field]], ","]

/-- The description of a table for the runtime. -/
def tableImplementation (runtime : Tree) (plan : TablePlan) : Tree :=
  let integers := plan.columns.filter fun entry ↦ entry.column.type.isInteger
  .row ["impl", runtime, ":: Table for", plan.rowType, brace [
    "const NAME : & 'static str =", literal plan.table.storage, ";",
    "const COLUMNS : & 'static", bracket [runtime, ":: Column"], "= &",
    bracket (commaList (plan.columns.map fun entry ↦ columnValue runtime entry.column)), ";",
    "fn int_column (& self , column : & str) ->", optionType, "< i64 >", brace [
      "match column", brace [.row (integers.map integerCase), "_ =>", absent, ","]]]]

/-- The pattern that shows a row: the name of the table and then its shown columns. -/
def showPattern (table : Table) : String :=
  let parts := table.shown.map fun column ↦ column ++ ":\x7b:?\x7d"
  table.name ++ "\x7b\x7b " ++ String.intercalate ", " parts ++ " \x7d\x7d"

/-- The text that shows a row. -/
def showImplementation (plan : TablePlan) : Tree :=
  let values := plan.table.shown.filterMap fun column ↦
    (plan.field? column).map fun field ↦ Tree.row ["self .", field]
  .row ["impl :: std :: fmt :: Display for", plan.rowType, brace [
    "fn fmt (& self , f : & mut :: std :: fmt :: Formatter < '_ >) -> :: std :: fmt :: Result",
    brace ["write !",
      paren ["f ,", literal (showPattern plan.table), ",", .row (commaList values)]]]]

/-- The beginning of a method that reads from a session, up to the type of its result. -/
def methodHead (runtime : Tree) (method : Identifier) : Tree :=
  .row ["pub fn", method, "< __S :", runtime, ":: Session >",
    "(& self , session : & mut __S ,) -> :: std :: result :: Result <"]

/-- The code of an accessor. -/
def methodCode (runtime : Tree) : AccessorMethod → Tree
  | .collection method target column id =>
    .row [methodHead runtime method, ":: std :: vec :: Vec <", target, "> , __S :: Error >",
      brace ["session . select :: <", target, ">",
        paren [literal column, ", i64 :: from", paren ["self .", id]]]]
  | .back method target key =>
    .row [methodHead runtime method, optionType, "<", target, "> , __S :: Error >",
      brace [":: std :: result :: Result :: Ok", paren [
        "session . select :: <", target, ">", paren ["\"id\" , self .", key],
        "? . into_iter () . next ()"]]]

/-- The code of all accessors; a table without accessors has none. -/
def methodsCode (runtime : Tree) (item : RowType) : List Tree :=
  if item.methods.isEmpty then []
  else ["impl", item.plan.rowType, brace (item.methods.map (methodCode runtime))]

/-- The code of a table. -/
def code (runtime : Tree) (item : RowType) : Tree :=
  let fields := item.plan.columns.map fun entry ↦
    Tree.row ["pub", entry.field, ":", fieldType runtime entry, ","]
  .row ["# [derive (Debug , Clone , PartialEq)] pub struct", item.plan.rowType, brace fields,
    tableImplementation runtime item.plan, showImplementation item.plan,
    .row (methodsCode runtime item)]

end RowType

end SchemaCompiler
