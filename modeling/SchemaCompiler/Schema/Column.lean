/-!
# Columns

A column is a field with its type symbol resolved and its options turned into facts.
-/

set_option autoImplicit false
set_option relaxedAutoImplicit false

namespace SchemaCompiler

/-- The type of a column. -/
inductive ColumnType where
  | integer
  | smallInteger
  /-- A text of at most `limit` characters, or of any length. -/
  | text (limit : Option Nat)
  | dateTime
  | date
  /-- Any other symbol names an enumeration. -/
  | enumeration (symbol : String)
deriving Repr, DecidableEq

namespace ColumnType

/-- The type that a symbol names. -/
def ofSymbol (symbol : String) : ColumnType :=
  if symbol = "int" then integer
  else if symbol = "Integer" then integer
  else if symbol = "SmallInteger" then smallInteger
  else if symbol = "TinyStr" then text (some 20)
  else if symbol = "NameStr" then text (some 50)
  else if symbol = "TextStr" then text (some 200)
  else if symbol = "InfoStr" then text (some 500)
  else if symbol = "String" then text none
  else if symbol = "DateTime" then dateTime
  else if symbol = "Date" then date
  else enumeration symbol

/-- Whether the values of a type are integers. -/
def isInteger : ColumnType → Bool
  | integer | smallInteger => true
  | _ => false

/-- The symbol of an enumeration. -/
def enumeration? : ColumnType → Option String
  | enumeration symbol => some symbol
  | _ => none

/-- The wording of a type in messages. -/
def describe : ColumnType → String
  | integer => "Integer"
  | smallInteger => "SmallInteger"
  | text (some limit) => "String(" ++ toString limit ++ ")"
  | text none => "String"
  | dateTime => "DateTime"
  | date => "Date"
  | enumeration symbol => "Enum(" ++ symbol ++ ")"

end ColumnType

/-- A reference from a column of a link entity to a column of one of its sides. -/
structure ForeignKey where
  table : String
  /-- The storage name of the table. -/
  storage : String
  column : String
deriving Repr, DecidableEq

/-- The wording of a foreign key. -/
def ForeignKey.describe (key : ForeignKey) : String := key.storage ++ "." ++ key.column

/-- A column of a table. -/
structure Column where
  name : String
  type : ColumnType
  primaryKey : Bool := false
  nullable : Bool := false
  unique : Bool := false
  /-- The default expression as written. -/
  initial : Option String := none
  sequence : Option String := none
  foreignKey : Option ForeignKey := none
deriving Repr, DecidableEq

end SchemaCompiler
