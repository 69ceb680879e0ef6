import SchemaCompiler.Schema

/-!
# Edits of a schema

The parts of a schema may be changed after it is built, one entry at a time. An edit keeps the order
of what it does not touch and may leave references that lead nowhere.
-/

set_option autoImplicit false
set_option relaxedAutoImplicit false

namespace SchemaCompiler

/-- A map of the relation graph that is keyed by two tables. -/
inductive PairRole where
  | linkEntity
  | collection
  | owned
deriving Repr, DecidableEq

/-- A change of one entry of a schema. -/
inductive Edit where
  | removeTable (table : String)
  | removeAccessor (table accessor : String)
  | relate (table lower : String)
  | unrelate (table lower : String)
  /-- Sets an entry of a map, or removes it. -/
  | setPair (role : PairRole) (first second : String) (value : Option String)
deriving Repr, DecidableEq

/-- Sets or removes the entry of a pair. -/
def PairMap.setPair (map : PairMap) (first second : String) : Option String → PairMap
  | some value => map.insertPair first second value
  | none => map.erasePair first second

/-- Changes one map of the graph. -/
def RelationGraph.setPair (graph : RelationGraph) (role : PairRole) (first second : String)
    (value : Option String) : RelationGraph :=
  match role with
  | .linkEntity => { graph with linkEntities := graph.linkEntities.setPair first second value }
  | .collection => { graph with collections := graph.collections.setPair first second value }
  | .owned => { graph with owned := graph.owned.setPair first second value }

/-- Takes back that a table is related to another one; the table keeps its possibly empty entry. -/
def RelationGraph.unrelate (graph : RelationGraph) (table lower : String) : RelationGraph :=
  { graph with related := graph.related.modify table fun names ↦ names.erase lower }

/-- Takes an accessor from a table. -/
def Table.removeAccessor (table : Table) (accessor : String) : Table :=
  { table with accessors := table.accessors.erase accessor }

/-- Applies an edit. -/
def Schema.edit (schema : Schema) : Edit → Schema
  | .removeTable table => { schema with tables := schema.tables.erase table }
  | .removeAccessor table accessor =>
    { schema with
      tables := schema.tables.modify table fun entry ↦ entry.removeAccessor accessor }
  | .relate table lower => { schema with graph := schema.graph.relate table lower }
  | .unrelate table lower => { schema with graph := schema.graph.unrelate table lower }
  | .setPair role first second value =>
    { schema with graph := schema.graph.setPair role first second value }

end SchemaCompiler
