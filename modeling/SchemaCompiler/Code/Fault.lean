import SchemaCompiler.Diagnostic

/-!
# Why a schema cannot be written as code
-/

set_option autoImplicit false
set_option relaxedAutoImplicit false

namespace SchemaCompiler

/-- A part of a relation that the relation graph leads to. -/
inductive RelationPart where
  | linkEntity
  | collection
  | ownedSide
deriving Repr, DecidableEq

/-- The wording of a part of a relation. -/
def RelationPart.describe : RelationPart → String
  | linkEntity => "link entity"
  | collection => "collection accessor"
  | ownedSide => "accessor for the owned side"

/-- A reason to refuse a schema or the settings of its generation. -/
inductive CodeFault where
  /-- A table has the name of an item that every schema has. -/
  | reservedTable (name : String)
  | unusableName (name : String)
  | duplicateProcedure (name existing origin : String)
  | missingTarget (lower managing : String)
  | missingPart (managing lower : String) (part : RelationPart)
  | runtimePath (path : String)
  | importPath (path : String)
  | configuration
deriving Repr, DecidableEq

/-- The wording of a fault. -/
def CodeFault.message : CodeFault → String
  | reservedTable name =>
    "table `" ++ name ++ "` collides with a generated item of the same name"
  | unusableName name => "`" ++ name ++ "` cannot be used as a Rust identifier"
  | duplicateProcedure name existing origin =>
    "procedure `" ++ name ++ "` generated for both `" ++ existing ++ "` and `" ++ origin ++ "`"
  | missingTarget lower managing =>
    "relation target `" ++ lower ++ "` of `" ++ managing ++ "` is not a table"
  | missingPart managing lower part =>
    "relation from `" ++ managing ++ "` to `" ++ lower ++ "` has no " ++ part.describe
  | runtimePath path => "invalid runtime path `" ++ path ++ "`"
  | importPath path => "invalid import module `" ++ path ++ "`"
  | configuration => "invalid configuration line"

/-- Why generation stops without code. -/
inductive GenerationStop where
  /-- The schema or the settings are refused with a message. -/
  | refused (fault : CodeFault)
  /-- A name reads as an identifier without being spelled as one. -/
  | decoratedName (name : String)
  /-- An accessor refers to a table or a column that is not there. -/
  | danglingAccessor (table accessor : String)
deriving Repr, DecidableEq

/-- The cause that a stop reports. Only a refusal has one. -/
def GenerationStop.cause? : GenerationStop → Option Cause
  | refused fault => some (.generation fault.message)
  | _ => none

end SchemaCompiler
