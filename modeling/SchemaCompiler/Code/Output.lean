import SchemaCompiler.Code.Delete
import SchemaCompiler.Code.Lookup
import SchemaCompiler.Code.Settings
import SchemaCompiler.Event
import SchemaCompiler.Target.Item

/-!
# Generated code

`Schema.generate` plans the code of a schema, checks the settings and resolves every item; it stops
at the first name, path or relation that cannot be written. What the settings may hold is for the
grammar of the written code to say. An `Output` holds the resolved items, and writing them as text
cannot fail.
-/

set_option autoImplicit false
set_option relaxedAutoImplicit false

namespace SchemaCompiler

open Target (Identifier Grammar)
open SchemaCompiler.Tree

/-- An import that is resolved. -/
structure UseItem where
  module : Tree
  name : Identifier

/-- The code of a schema, item by item. -/
structure Output where
  /-- The path of the runtime. -/
  runtime : Tree
  imports : List UseItem
  /-- The items of the configuration module. -/
  configuration : List Tree
  rowTypes : List RowType
  entityDeletes : List EntityDelete
  linkDeletes : List LinkDelete
  lookup : Lookup

namespace Output

/-- The code of the imports. -/
def importCode (output : Output) : List Tree :=
  output.imports.map fun item ↦
    .row ["use", item.module, "::", item.name, ";"]

/-- The code of the configuration module. -/
def configurationCode (output : Output) : Tree :=
  .row ["pub mod config", brace output.configuration]

/-- The tables with their code. -/
def tableCode (output : Output) : List (String × Tree) :=
  output.rowTypes.map fun item ↦ (item.plan.table.name, item.code output.runtime)

/-- The code of the delete procedures, after the types that they share. -/
def procedureCode (output : Output) : List Tree :=
  DeleteSupport.code output.runtime :: (output.entityDeletes.map (EntityDelete.code output.runtime)
    ++ output.linkDeletes.map (LinkDelete.code output.runtime))

/-- The code of the lookup module. -/
def lookupCode (output : Output) : Tree := output.lookup.code

/-- The code of a table. -/
def table? (output : Output) (name : String) : Option Tree :=
  (output.tableCode.find? fun entry ↦ entry.1 == name).map Prod.snd

/-- All items in the order in which they are written. -/
def items (output : Output) : List Tree :=
  output.importCode ++ [output.configurationCode] ++ output.tableCode.map Prod.snd
    ++ output.procedureCode ++ [output.lookupCode]

/-- The text of all items, each followed by an empty line. -/
def render (output : Output) : String :=
  String.join (output.items.map fun item ↦ item.text ++ "\n\n")

end Output

/-! ### Generation -/

/-- What must hold before items are resolved: a plan and settings that can be written. -/
structure Preparation where
  plan : Plan
  runtime : Tree
  imports : List UseItem
  configuration : List Tree

/-- Resolves the items of a prepared schema. -/
def Preparation.output (preparation : Preparation) (schema : Schema) :
    Except GenerationStop Output := do
  let plan := preparation.plan
  let rowTypes ← plan.tables.values.mapM (RowType.ofPlan plan)
  let entityDeletes ← plan.tables.values.mapM (EntityDelete.ofPlan plan)
  let linkDeletes ← plan.relationDeletes.mapM (LinkDelete.ofEntry plan)
  return ⟨preparation.runtime, preparation.imports, preparation.configuration, rowTypes,
    entityDeletes, linkDeletes, .ofPlan schema plan⟩

section Generation

variable [Grammar]

/-- The runtime path of the settings. -/
def Settings.runtimePath (settings : Settings) : Except GenerationStop Tree :=
  match Grammar.path? settings.runtime with
  | some path => .ok path
  | none => .error (.refused (.runtimePath settings.runtime))

/-- Resolves an import. -/
def UseItem.ofImport (item : Import) : Except GenerationStop UseItem :=
  match Grammar.path? item.modulePath with
  | some path => return ⟨path, ← Plan.identifier item.name⟩
  | none => .error (.refused (.importPath item.modulePath))

/-- The items of the configuration lines. -/
def Settings.configuration (settings : Settings) : Except GenerationStop (List Tree) :=
  match Grammar.items? (String.intercalate "\n" settings.lines) with
  | some items => .ok items
  | none => .error (.refused .configuration)

/-- Plans a schema and checks the settings. -/
def Schema.prepare (schema : Schema) (settings : Settings) :
    Except GenerationStop Preparation := do
  let plan ← Plan.ofSchema schema
  let runtime ← settings.runtimePath
  let imports ← settings.imports.mapM UseItem.ofImport
  return ⟨plan, runtime, imports, ← settings.configuration⟩

/-- The code of a schema. -/
def Schema.generate (schema : Schema) (settings : Settings) : Except GenerationStop Output := do
  (← schema.prepare settings).output schema

end Generation

/-! ### Events -/

/-- The warnings about enumerations that no import brings into scope. -/
def Preparation.warnings (preparation : Preparation) (settings : Settings) : List Event :=
  let missing := preparation.plan.enumerations.filter fun symbol ↦
    !(settings.imports.any fun item ↦ item.name == symbol)
  missing.map fun symbol ↦
    { severity := .warn
      message := "enumeration type is not imported"
      details := [("symbol", .text symbol)] }

/-- The event of generated code. -/
def Output.generatedEvent (output : Output) : Event :=
  { severity := .debug
    message := "generated schema code"
    details := [("tables", .count output.rowTypes.length),
      ("procedures", .count (output.entityDeletes.length + output.linkDeletes.length))] }

/-- What generation reports, up to the place where it stops. -/
def Schema.generateEvents [Grammar] (schema : Schema) (settings : Settings) : List Event :=
  match schema.prepare settings with
  | .error _ => []
  | .ok preparation =>
    match preparation.output schema with
    | .ok output => preparation.warnings settings ++ [output.generatedEvent]
    | .error _ => preparation.warnings settings

end SchemaCompiler
