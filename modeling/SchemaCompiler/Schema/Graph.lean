import SchemaCompiler.Ordered
import SchemaCompiler.Schema.Name

/-!
# The relation graph

The graph records, for each table, the tables it is related to, the link entity and the accessor of
each relation, and the directions in which deletes cascade. Ownership follows from the weights of
the two sides alone: the heavier side owns the lighter one, two sides of one weight own each other,
and two sides without weight own nothing.
-/

set_option autoImplicit false
set_option relaxedAutoImplicit false

namespace SchemaCompiler

/-- How many rows of a side take part in a relation. -/
inductive Cardinality where
  | one
  | many
deriving Repr, DecidableEq

namespace Cardinality

/-- The cardinality that a number of markers stands for. -/
def ofMarkers (markers : Nat) : Cardinality := if markers > 1 then many else one

/-- The name of a cardinality. -/
def name : Cardinality → String
  | one => "one"
  | many => "many"

end Cardinality

/-- The directions in which deletes cascade over a relation. -/
inductive Ownership where
  | neither
  | left
  | right
  | both
deriving Repr, DecidableEq

namespace Ownership

/-- The ownership between sides of two weights. -/
def ofWeights (leftWeight rightWeight : Nat) : Ownership :=
  if leftWeight = 0 ∧ rightWeight = 0 then neither
  else if leftWeight = rightWeight then both
  else if leftWeight > rightWeight then left
  else right

/-- Whether the left side owns the right one. -/
def leftOwns : Ownership → Bool
  | left | both => true
  | neither | right => false

/-- Whether the right side owns the left one. -/
def rightOwns : Ownership → Bool
  | right | both => true
  | neither | left => false

/-- The name of an ownership in events. -/
def name : Ownership → String
  | neither => "None"
  | left => "Left"
  | right => "Right"
  | both => "Mutual"

end Ownership

/-- A side of a resolved relation. -/
structure Endpoint where
  table : String
  /-- The small name of the table. -/
  lower : String
  weight : Nat
  cardinality : Cardinality
deriving Repr, DecidableEq

/-- A resolved relation. -/
structure Link where
  /-- The symbol of the link entity. -/
  name : String
  left : Endpoint
  right : Endpoint
deriving Repr, DecidableEq

namespace Link

/-- Who owns whom over a relation. -/
def ownership (link : Link) : Ownership := .ofWeights link.left.weight link.right.weight

/-- The side of a table. -/
def endpoint? (link : Link) (table : String) : Option Endpoint :=
  if link.left.table = table then some link.left
  else if link.right.table = table then some link.right
  else none

end Link

/-- What all relations of a schema say together, by table symbol. -/
structure RelationGraph where
  /-- The small names of the tables that a table is related to. -/
  related : OrderedMap OrderedSet := .empty
  /-- The accessor of the first table that lists its link rows to the second. -/
  collections : PairMap := OrderedMap.empty
  /-- The accessor of the link rows that leads to the second table, where the first one owns it. -/
  owned : PairMap := OrderedMap.empty
  /-- The link entity of two tables. -/
  linkEntities : PairMap := OrderedMap.empty
  /-- The relations in the order in which they are written. -/
  links : List Link := []
  /-- The declared tables by their small names. -/
  symbols : OrderedMap String := .empty
deriving Repr, DecidableEq

namespace RelationGraph

/-- The small names of the tables that a table is related to, in the order of the relations. -/
def relatedTo (graph : RelationGraph) (table : String) : List String :=
  match graph.related.get? table with
  | some names => names.elements
  | none => []

/-- The accessor of `source` that lists its link rows to `target`. -/
def collection? (graph : RelationGraph) (source target : String) : Option String :=
  graph.collections.pair? source target

/-- The accessor of the link rows that leads to `target`, if `owner` owns it. -/
def owned? (graph : RelationGraph) (owner target : String) : Option String :=
  graph.owned.pair? owner target

/-- Whether deletes of rows of `owner` cascade to `target`. -/
def owns (graph : RelationGraph) (owner target : String) : Bool :=
  (graph.owned? owner target).isSome

/-- The link entity of two tables. -/
def linkEntity? (graph : RelationGraph) (first second : String) : Option String :=
  graph.linkEntities.pair? first second

/-- The declared table of a small name. -/
def resolve? (graph : RelationGraph) (lower : String) : Option String := graph.symbols.get? lower

/-- The relation of two tables, in either order. -/
def link? (graph : RelationGraph) (first second : String) : Option Link :=
  match graph.linkEntity? first second with
  | some name => graph.links.find? fun link ↦ link.name == name
  | none => none

/-- Notes that a table is related to another one. -/
def relate (graph : RelationGraph) (table lower : String) : RelationGraph :=
  { graph with related := graph.related.upsert table .empty fun names ↦ names.insert lower }

/-- Notes what one side of a relation sees of the other one. -/
def insertPairs (graph : RelationGraph) (link : String) (near far : Endpoint) : RelationGraph :=
  { graph with
    linkEntities := graph.linkEntities.insertPair near.table far.table link
    collections := graph.collections.insertPair near.table far.table (Name.collection far.lower) }

/-- Notes that one side of a relation owns the other one. -/
def insertOwned (graph : RelationGraph) (owner target : Endpoint) : RelationGraph :=
  { graph with owned := graph.owned.insertPair owner.table target.table target.lower }

/-- Adds a relation. -/
def insert (graph : RelationGraph) (link : Link) : RelationGraph :=
  let related := (graph.relate link.left.table link.right.lower).relate
    link.right.table link.left.lower
  let paired := (related.insertPairs link.name link.left link.right).insertPairs
    link.name link.right link.left
  let right := if link.ownership.leftOwns then paired.insertOwned link.left link.right else paired
  let both := if link.ownership.rightOwns then right.insertOwned link.right link.left else right
  { both with links := both.links ++ [link] }

end RelationGraph

end SchemaCompiler
