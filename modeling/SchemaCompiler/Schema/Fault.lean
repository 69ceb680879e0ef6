import SchemaCompiler.Diagnostic
import SchemaCompiler.Schema

/-!
# Why a document describes no schema
-/

set_option autoImplicit false
set_option relaxedAutoImplicit false

namespace SchemaCompiler

/-- A rule of schemas that a document breaks. -/
inductive SchemaFault where
  | duplicateTable (name : String)
  /-- Two declared tables have one small name. -/
  | caseCollision (existing name : String)
  | nullableKey (table field : String)
  | duplicateField (field table : String)
  | unknownShownField (table field : String)
  | repeatedOption (option : Char) (table field : String)
  | nullableSequence (table field : String)
  | sequenceType (table field : String) (type : ColumnType)
  | selfRelation (left right : String)
  /-- A link entity has the name of a table. -/
  | linkCollision (link left right : String)
  | undeclaredEndpoint (left right name : String)
  | missingIntegerId (table : String)
  | alreadyRelated (left right existing : String)
  | unbackedLink (name : String)
  | missingColumn (table field : String) (key : ForeignKey)
deriving Repr, DecidableEq

namespace SchemaFault

/-- The wording of a fault. -/
def message : SchemaFault → String
  | duplicateTable name => "duplicate table `" ++ name ++ "`"
  | caseCollision existing name =>
    "tables `" ++ existing ++ "` and `" ++ name ++ "` differ only in case"
  | nullableKey table field =>
    "primary key `" ++ table ++ "." ++ field ++ "` cannot be nullable"
  | duplicateField field table => "duplicate field `" ++ field ++ "` in table `" ++ table ++ "`"
  | unknownShownField table field =>
    "repr of `" ++ table ++ "` names unknown field `" ++ field ++ "`"
  | repeatedOption option table field =>
    "option `" ++ String.singleton option ++ "` repeated on field `" ++ table ++ "." ++ field ++ "`"
  | nullableSequence table field =>
    "field `" ++ table ++ "." ++ field ++ "` requests a sequence but is nullable"
  | sequenceType table field type =>
    "field `" ++ table ++ "." ++ field ++ "` requests a sequence but has type `" ++ type.describe
      ++ "`"
  | selfRelation left right =>
    "relation `" ++ left ++ " - " ++ right ++ "` relates a table to itself"
  | linkCollision link left right =>
    "link entity `" ++ link ++ "` of relation `" ++ left ++ " - " ++ right
      ++ "` collides with an existing table"
  | undeclaredEndpoint left right name =>
    "relation `" ++ left ++ " - " ++ right ++ "` references undeclared table `" ++ name ++ "`"
  | missingIntegerId table =>
    "table `" ++ table
      ++ "` is related to other tables but has no non-nullable integer `id` primary key"
  | alreadyRelated left right existing =>
    "`" ++ left ++ "` and `" ++ right ++ "` are already related through `" ++ existing ++ "`"
  | unbackedLink name => "link entity `" ++ name ++ "` is not backed by a relation"
  | missingColumn table field key =>
    "field `" ++ table ++ "." ++ field ++ "` references missing column `" ++ key.describe ++ "`"

/-- The cause that a fault reports. -/
def cause (fault : SchemaFault) : Cause := .invalidSchema fault.message

end SchemaFault

end SchemaCompiler
