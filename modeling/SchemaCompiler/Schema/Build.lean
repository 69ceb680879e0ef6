import SchemaCompiler.Document
import SchemaCompiler.Event
import SchemaCompiler.Schema.Fault

/-!
# Building a schema from a document

The statements are read twice. The first pass declares a table for each statement in turn, a link
entity for a relation. The second pass resolves the sides of the relations, so that a relation may
stand before the tables it names, attaches the accessors and fills the graph. A last look checks
that link entities and foreign keys lead somewhere.
-/

set_option autoImplicit false
set_option relaxedAutoImplicit false

namespace SchemaCompiler

namespace Column

/-- Sets the fact that a field option stands for, unless it is set. -/
def addOption (table : String) (column : Column) (wantsSequence : Bool) :
    FieldOption → Except SchemaFault (Column × Bool)
  | .nullable =>
    if column.nullable then .error (.repeatedOption '?' table column.name)
    else .ok ({ column with nullable := true }, wantsSequence)
  | .unique =>
    if column.unique then .error (.repeatedOption '!' table column.name)
    else .ok ({ column with unique := true }, wantsSequence)
  | .sequence =>
    if wantsSequence then .error (.repeatedOption '~' table column.name)
    else .ok (column, true)

/-- The column of a field of a table. -/
def ofField (table : String) (field : Field) : Except SchemaFault Column := do
  let start : Column × Bool := ({ name := field.name, type := .ofSymbol field.type }, false)
  let (column, wantsSequence) ← field.options.foldlM
    (fun state option ↦ state.1.addOption table state.2 option) start
  let column := { column with initial := field.initial.map DefaultText.text }
  if wantsSequence then
    if column.nullable then throw (.nullableSequence table field.name)
    else if column.type.isInteger then
      return { column with sequence := some (Name.sequence table) }
    else throw (.sequenceType table field.name column.type)
  else return column

end Column

namespace Table

/-- Adds a column whose name is free. -/
def insertColumn (table : Table) (column : Column) : Except SchemaFault Table :=
  if (table.column? column.name).isSome then .error (.duplicateField column.name table.name)
  else .ok (table.addColumn column)

/-- Adds a field to the primary key. -/
def insertPrimary (table : Table) (field : Field) : Except SchemaFault Table := do
  let column ← Column.ofField table.name field
  if column.nullable then throw (.nullableKey table.name field.name)
  else table.insertColumn { column with primaryKey := true }

/-- Adds an ordinary field. -/
def insertField (table : Table) (field : Field) : Except SchemaFault Table := do
  table.insertColumn (← Column.ofField table.name field)

/-- The columns that a clause names, or all. -/
def showFields (table : Table) : Option Shown → Except SchemaFault Table
  | none | some .all => .ok { table with shown := table.columnNames }
  | some (.fields names) =>
    match names.find? fun name ↦ (table.column? name).isNone with
    | some name => .error (.unknownShownField table.name name)
    | none => .ok { table with shown := names }

/-- The table of a definition. -/
def ofDefinition (definition : TableDefinition) : Except SchemaFault Table := do
  let bare : Table :=
    { name := definition.name, storage := Name.storage definition.name, kind := .declared }
  let keyed ← definition.primaries.foldlM insertPrimary bare
  let full ← definition.fields.foldlM insertField keyed
  full.showFields definition.shown

/-- The column of a link entity that refers to one of its sides. -/
def keyColumn (symbol : String) : Column :=
  { name := Name.key (Name.lower symbol)
    type := .integer
    primaryKey := true
    foreignKey := some ⟨symbol, Name.storage symbol, "id"⟩ }

/-- The link entity of a relation. -/
def ofRelation (relation : Relation) : Except SchemaFault Table := do
  let left := relation.left.symbol
  let right := relation.right.symbol
  let name := Name.link left right
  let bare : Table := { name := name, storage := Name.storage name, kind := .link left right }
  let keyed ← [keyColumn left, keyColumn right].foldlM insertColumn bare
  let full ← relation.fields.foldlM insertField keyed
  full.showFields none

end Table

namespace Schema

/-! ### First pass: tables -/

/-- Declares the table of a definition. -/
def declareTable (schema : Schema) (definition : TableDefinition) : Except SchemaFault Schema := do
  let name := definition.name
  if schema.tables.contains name then throw (.duplicateTable name)
  match schema.graph.resolve? (Name.lower name) with
  | some existing => throw (.caseCollision existing name)
  | none =>
    let table ← Table.ofDefinition definition
    return { tables := schema.tables.insert name table
             graph := { schema.graph with
               symbols := schema.graph.symbols.insert (Name.lower name) name } }

/-- Declares the link entity of a relation, whose sides need not be declared yet. -/
def declareLink (schema : Schema) (relation : Relation) : Except SchemaFault Schema := do
  let left := relation.left.symbol
  let right := relation.right.symbol
  let name := Name.link left right
  if Name.lower left = Name.lower right then throw (.selfRelation left right)
  if schema.tables.contains name then throw (.linkCollision name left right)
  let table ← Table.ofRelation relation
  return { schema with tables := schema.tables.insert name table }

/-- Declares what a statement introduces. -/
def declare (schema : Schema) : Statement → Except SchemaFault Schema
  | .table definition => schema.declareTable definition
  | .relation relation => schema.declareLink relation

/-! ### Second pass: relations -/

/-- Resolves a side of a relation. -/
def endpoint (schema : Schema) (relation : Relation) (side : Side) :
    Except SchemaFault Endpoint :=
  match schema.table? side.symbol with
  | some table =>
    if table.isLink then
      .error (.undeclaredEndpoint relation.left.symbol relation.right.symbol side.symbol)
    else if table.hasIntegerId then
      .ok ⟨side.symbol, Name.lower side.symbol, side.weight, .ofMarkers side.markers⟩
    else .error (.missingIntegerId side.symbol)
  | none => .error (.undeclaredEndpoint relation.left.symbol relation.right.symbol side.symbol)

/-- Gives a link entity the accessor to one of its sides. -/
def attachBack (schema : Schema) (link : Link) (near far : Endpoint) : Schema :=
  let accessor : Accessor := ⟨near.table, false, Name.key near.lower, Name.collection far.lower⟩
  { schema with
    tables := schema.tables.modify link.name fun table ↦ table.addAccessor near.lower accessor }

/-- Gives a side of a relation the accessor to its link rows. -/
def attachCollection (schema : Schema) (link : Link) (near far : Endpoint) : Schema :=
  let accessor : Accessor := ⟨link.name, true, Name.key near.lower, near.lower⟩
  { schema with
    tables := schema.tables.modify near.table fun table ↦
      table.addAccessor (Name.collection far.lower) accessor }

/-- Gives the tables of a relation their accessors. -/
def attachAccessors (schema : Schema) (link : Link) : Schema :=
  (((schema.attachBack link link.left link.right).attachBack link link.right link.left
    ).attachCollection link link.left link.right).attachCollection link link.right link.left

/-- Resolves a relation. -/
def relate (schema : Schema) (relation : Relation) : Except SchemaFault Schema := do
  let left ← schema.endpoint relation relation.left
  let right ← schema.endpoint relation relation.right
  match schema.graph.linkEntity? left.table right.table with
  | some existing => throw (.alreadyRelated left.table right.table existing)
  | none =>
    let link : Link := ⟨Name.link left.table right.table, left, right⟩
    let attached := schema.attachAccessors link
    return { attached with graph := attached.graph.insert link }

/-- Resolves relations in turn. The answer is the schema that was reached, and the fault that
stopped the work before all relations were resolved. -/
def relateAll (schema : Schema) : List Relation → Schema × Option SchemaFault
  | [] => (schema, none)
  | relation :: rest =>
    match schema.relate relation with
    | .ok next => next.relateAll rest
    | .error fault => (schema, some fault)

/-! ### Last look -/

/-- The first table that breaks a rule, as `find` reports it. -/
def firstFault (schema : Schema) (find : Table → Option SchemaFault) : Except SchemaFault Unit :=
  match schema.tables.values.findSome? find with
  | some fault => .error fault
  | none => .ok ()

/-- A link entity without a relation. -/
def unbackedLink? (schema : Schema) (table : Table) : Option SchemaFault :=
  match table.kind with
  | .declared => none
  | .link left right =>
    if schema.graph.linkEntity? left right = some table.name then none
    else some (.unbackedLink table.name)

/-- Whether a foreign key refers to a column. -/
def resolvesKey (schema : Schema) (key : ForeignKey) : Bool :=
  match schema.table? key.table with
  | some target => (target.column? key.column).isSome
  | none => false

/-- A foreign key of a table that refers to nothing. -/
def missingColumn? (schema : Schema) (table : Table) : Option SchemaFault :=
  table.columns.findSome? fun column ↦
    match column.foreignKey with
    | none => none
    | some key =>
      if schema.resolvesKey key then none
      else some (.missingColumn table.name column.name key)

/-- Checks that link entities and foreign keys lead somewhere. -/
def check (schema : Schema) : Except SchemaFault Unit := do
  schema.firstFault schema.unbackedLink?
  schema.firstFault schema.missingColumn?

/-- Whether the graph knows a link from both of its sides. -/
def knowsBothSides (schema : Schema) (link : Link) : Bool :=
  (schema.graph.relatedTo link.left.table).contains link.right.lower &&
    (schema.graph.relatedTo link.right.table).contains link.left.lower &&
    (schema.graph.collection? link.left.table link.right.table).isSome &&
    (schema.graph.collection? link.right.table link.left.table).isSome &&
    schema.graph.linkEntity? link.left.table link.right.table ==
      schema.graph.linkEntity? link.right.table link.left.table

/-- Whether an accessor of a table leads to a table from which its inverse leads back. -/
def leadsBack (schema : Schema) (table : Table) (accessor : Accessor) : Bool :=
  match schema.table? accessor.target with
  | some target =>
    match target.accessors.get? accessor.inverse with
    | some inverse => inverse.target == table.name
    | none => false
  | none => false

/-- Whether both sides of every link know each other and every accessor leads back. This is not a
rule that a document could break: it is asserted before the check. -/
def isReciprocal (schema : Schema) : Bool :=
  schema.graph.links.all schema.knowsBothSides &&
    schema.tables.values.all fun table ↦ table.accessors.values.all (schema.leadsBack table)

/-! ### Building -/

/-- Declares the tables of a document. -/
def declareAll (document : Document) : Except SchemaFault Schema :=
  document.statements.foldlM declare {}

/-- The schema that a document describes. -/
def ofDocument (document : Document) : Except SchemaFault Schema := do
  let declared ← declareAll document
  match declared.relateAll document.relations with
  | (schema, none) =>
    schema.check
    return schema
  | (_, some fault) => throw fault

/-! ### Events -/

/-- The event of a resolved relation. -/
def linkEvent (link : Link) : Event :=
  { severity := .trace
    message := "resolved relation"
    details := [("link", .text link.name), ("left", .text link.left.table),
      ("left_weight", .count link.left.weight), ("right", .text link.right.table),
      ("right_weight", .count link.right.weight), ("ownership", .text link.ownership.name)] }

/-- The event of a model that has all its relations. -/
def builtEvent (schema : Schema) : Event :=
  { severity := .debug
    message := "built schema model"
    details := [("tables", .count schema.tables.size),
      ("relations", .count schema.graph.links.length)] }

/-- What building a schema reports, up to the fault if there is one. -/
def events (document : Document) : List Event :=
  match declareAll document with
  | .error _ => []
  | .ok declared =>
    match declared.relateAll document.relations with
    | (schema, none) => schema.graph.links.map linkEvent ++ [schema.builtEvent]
    | (schema, some _) => schema.graph.links.map linkEvent

end Schema

end SchemaCompiler
