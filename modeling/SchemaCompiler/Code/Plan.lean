import SchemaCompiler.Code.Fault
import SchemaCompiler.Schema
import SchemaCompiler.Target.Identifier

/-!
# Plans

Before any code is written, a plan resolves every name that the code will use: the identifiers of
tables, columns and accessors, and for each directed relation the link entity, the accessor that
lists its rows and, where the first side owns the second, the accessor that leads to the owned rows.
A schema with a name that cannot be written or a relation that leads nowhere has no plan.
-/

set_option autoImplicit false
set_option relaxedAutoImplicit false

namespace SchemaCompiler

open Target (Identifier)

/-- A column, the field that holds it, and the type of the field if that is an enumeration. -/
structure ColumnPlan where
  column : Column
  field : Identifier
  enumeration : Option Identifier
deriving Repr, DecidableEq

/-- An accessor and the method that performs it. -/
structure AccessorPlan where
  name : String
  accessor : Accessor
  method : Identifier
deriving Repr, DecidableEq

/-- A table and the identifiers of its code. -/
structure TablePlan where
  table : Table
  rowType : Identifier
  /-- The procedure that deletes a row. -/
  procedure : Identifier
  columns : List ColumnPlan
  accessors : List AccessorPlan
deriving Repr, DecidableEq

namespace TablePlan

/-- The field of a column. -/
def field? (plan : TablePlan) (column : String) : Option Identifier :=
  (plan.columns.find? fun entry ↦ entry.column.name == column).map ColumnPlan.field

/-- The method of an accessor. -/
def method? (plan : TablePlan) (accessor : String) : Option Identifier :=
  (plan.accessors.find? fun entry ↦ entry.name == accessor).map AccessorPlan.method

end TablePlan

/-- A direction of a relation: what to do with the link rows of a row that is deleted. -/
structure RelationDelete where
  /-- The table whose row is deleted. -/
  managing : String
  /-- The small name of the related table. -/
  lower : String
  /-- The related table. -/
  deleted : String
  link : String
  /-- The accessor of `managing` that lists its link rows. -/
  collection : String
  /-- The accessor of the link rows that leads to `deleted`, if `managing` owns it. -/
  owned : Option String
  /-- The procedure that removes the link rows. -/
  procedure : Identifier
deriving Repr, DecidableEq

/-- All resolved names of a schema. -/
structure Plan where
  tables : OrderedMap TablePlan := .empty
  relationDeletes : List RelationDelete := []
deriving Repr, DecidableEq

/-- The items that are written for every schema. -/
def reservedItems : List String := ["DeleteScope", "Deleted", "Unlinked", "config", "lookup"]

namespace Plan

/-- The identifier of a name. -/
def identifier (name : String) : Except GenerationStop Identifier :=
  (Identifier.ofName name).mapError fun
    | .refused => .refused (.unusableName name)
    | .decorated => .decoratedName name

/-- The procedures named so far, each with what it is for. -/
abbrev Procedures := OrderedMap String

/-- Names a procedure unless the name is taken. -/
def addProcedure (procedures : Procedures) (procedure : Identifier) (origin : String) :
    Except GenerationStop Procedures :=
  match procedures.get? procedure.text with
  | some existing => .error (.refused (.duplicateProcedure procedure.text existing origin))
  | none => .ok (procedures.insert procedure.text origin)

/-! ### Tables -/

/-- Resolves a column. -/
def ofColumn (column : Column) : Except GenerationStop ColumnPlan := do
  let field ← identifier column.name
  match column.type with
  | .enumeration symbol => return ⟨column, field, some (← identifier symbol)⟩
  | _ => return ⟨column, field, none⟩

/-- Resolves an accessor. -/
def ofAccessor (entry : String × Accessor) : Except GenerationStop AccessorPlan := do
  return ⟨entry.1, entry.2, ← identifier entry.1⟩

/-- Resolves a table. -/
def ofTable (procedures : Procedures) (table : Table) :
    Except GenerationStop (Procedures × TablePlan) := do
  if reservedItems.contains table.name then throw (.refused (.reservedTable table.name))
  let procedure ← identifier ("delete_" ++ table.storage)
  let procedures ← addProcedure procedures procedure table.name
  let columns ← table.columns.mapM ofColumn
  let accessors ← table.accessors.entries.mapM ofAccessor
  let rowType ← identifier table.name
  return (procedures, ⟨table, rowType, procedure, columns, accessors⟩)

/-- Resolves tables in turn. -/
def ofTables (procedures : Procedures) (plans : OrderedMap TablePlan) :
    List Table → Except GenerationStop (Procedures × OrderedMap TablePlan)
  | [] => return (procedures, plans)
  | table :: rest => do
    let (procedures, plan) ← ofTable procedures table
    ofTables procedures (plans.insert table.name plan) rest

/-! ### Relations -/

/-- A reference that holds, or the fault that its part of the relation is missing. -/
def require (managing lower : String) (part : RelationPart) (holds : String → Bool) :
    Option String → Except GenerationStop String
  | some name =>
    if holds name then .ok name else .error (.refused (.missingPart managing lower part))
  | none => .error (.refused (.missingPart managing lower part))

/-- Whether a table of a schema has an accessor. -/
def hasAccessor (schema : Schema) (table accessor : String) : Bool :=
  match schema.table? table with
  | some found => found.accessors.contains accessor
  | none => false

/-- Resolves a direction of a relation. -/
def ofRelation (schema : Schema) (managing lower : String) :
    Except GenerationStop RelationDelete := do
  match schema.resolve? lower with
  | none => throw (.refused (.missingTarget lower managing))
  | some target =>
    let deleted := target.name
    let link ← require managing lower .linkEntity (fun name ↦ (schema.table? name).isSome)
      (schema.graph.linkEntity? managing deleted)
    let collection ← require managing lower .collection (hasAccessor schema managing)
      (schema.graph.collection? managing deleted)
    let owned ← match schema.graph.owned? managing deleted with
      | none => pure none
      | some accessor =>
        some <$> require managing lower .ownedSide (hasAccessor schema link) (some accessor)
    let procedure ← identifier ("delete_" ++ lower ++ "_from_" ++ Name.lower managing)
    return ⟨managing, lower, deleted, link, collection, owned, procedure⟩

/-- The directed relations of a schema: for each table in order the tables it is related to. -/
def directions (schema : Schema) : List (String × String) :=
  schema.tables.values.flatMap fun table ↦
    (schema.graph.relatedTo table.name).map fun lower ↦ (table.name, lower)

/-- Resolves directed relations in turn. -/
def ofDirections (schema : Schema) (procedures : Procedures) :
    List (String × String) → Except GenerationStop (List RelationDelete)
  | [] => return []
  | (managing, lower) :: rest => do
    let entry ← ofRelation schema managing lower
    let procedures ←
      addProcedure procedures entry.procedure (managing ++ " - " ++ entry.deleted)
    return entry :: (← ofDirections schema procedures rest)

/-- The plan of a schema. -/
def ofSchema (schema : Schema) : Except GenerationStop Plan := do
  let (procedures, tables) ← ofTables .empty .empty schema.tables.values
  return ⟨tables, ← ofDirections schema procedures (directions schema)⟩

/-! ### Views -/

/-- The enumerations of a plan, each once, in the order in which columns name them. -/
def enumerations (plan : Plan) : List String :=
  let symbols := plan.tables.values.flatMap fun table ↦
    table.columns.filterMap fun entry ↦ entry.column.type.enumeration?
  (symbols.foldl OrderedSet.insert .empty).elements

/-- The directed relations of a table. -/
def relationsOf (plan : Plan) (table : String) : List RelationDelete :=
  plan.relationDeletes.filter fun entry ↦ entry.managing == table

end Plan

end SchemaCompiler
