import SchemaCompiler.Schema.Graph
import SchemaCompiler.Schema.Table

/-!
# Schemas

A schema holds the tables of a document, declared and synthesized, and the graph of their relations.
-/

set_option autoImplicit false
set_option relaxedAutoImplicit false

namespace SchemaCompiler

/-- The resolved model of a document. -/
structure Schema where
  /-- The tables in the order of their statements; a link entity has the place of its relation. -/
  tables : OrderedMap Table := .empty
  graph : RelationGraph := {}
deriving Repr, DecidableEq

namespace Schema

/-- The table of a symbol. -/
def table? (schema : Schema) (name : String) : Option Table := schema.tables.get? name

/-- The declared table of a small name. -/
def resolve? (schema : Schema) (lower : String) : Option Table :=
  match schema.graph.resolve? lower with
  | some name => schema.table? name
  | none => none

end Schema

end SchemaCompiler
