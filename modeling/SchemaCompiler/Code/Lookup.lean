import SchemaCompiler.Code.Plan
import SchemaCompiler.Code.Tree

/-!
# Lookup datasets

The written code carries what the schema knows of its relations as constant tables, with functions
that look an entry up by one name or by two. `Lookup.get?` and `Lookup.getPair?` say what those
functions answer.
-/

set_option autoImplicit false
set_option relaxedAutoImplicit false

namespace SchemaCompiler

open SchemaCompiler.Tree

/-- A dataset that is keyed by one name. -/
abbrev Dataset (Value : Type) := List (String × Value)

/-- A dataset that is keyed by two names. -/
abbrev PairDataset := Dataset (Dataset String)

/-- The constant tables of a schema. -/
structure Lookup where
  /-- The small names of the tables that a table is related to. -/
  relationSpec : Dataset (List String)
  collections : PairDataset
  owned : PairDataset
  linkEntities : PairDataset
  /-- The column names of a table. -/
  columns : Dataset (List String)
  /-- The cardinalities of the sides of a link entity. -/
  cardinalities : Dataset (String × String)
  /-- The delete procedure of a table. -/
  entityDeletes : Dataset String
  /-- The delete procedure of a direction of a relation. -/
  relationDeletes : PairDataset
deriving Repr, DecidableEq

namespace Lookup

/-- The value of the first entry under a name. -/
def get? {Value : Type} (dataset : Dataset Value) (key : String) : Option Value :=
  (dataset.find? fun entry ↦ entry.1 == key).map Prod.snd

/-- The value of the first entry under two names. -/
def getPair? (dataset : PairDataset) (first second : String) : Option String :=
  (get? dataset first).bind fun inner ↦ get? inner second

/-- The entries of a map keyed by two names. -/
def ofPairMap (map : PairMap) : PairDataset :=
  map.entries.map fun entry ↦ (entry.1, entry.2.entries)

/-- The delete procedures of all directed relations. -/
def relationProcedures (plan : Plan) : PairMap :=
  plan.relationDeletes.foldl
    (fun map entry ↦ PairMap.insertPair map entry.managing entry.deleted entry.procedure.text)
    OrderedMap.empty

/-- The constant tables of a schema with a plan. -/
def ofPlan (schema : Schema) (plan : Plan) : Lookup where
  relationSpec := schema.tables.values.filterMap fun table ↦
    let related := schema.graph.relatedTo table.name
    if related.isEmpty then none else some (table.name, related)
  collections := ofPairMap schema.graph.collections
  owned := ofPairMap schema.graph.owned
  linkEntities := ofPairMap schema.graph.linkEntities
  columns := schema.tables.values.map fun table ↦ (table.name, table.columnNames)
  cardinalities := schema.graph.links.map fun link ↦
    (link.name, link.left.cardinality.name, link.right.cardinality.name)
  entityDeletes := plan.tables.values.map fun entry ↦ (entry.table.name, entry.procedure.text)
  relationDeletes := ofPairMap (relationProcedures plan)

/-! ### Text -/

/-- Entries in a constant table. -/
def table {Value : Type} (value : Value → Tree) (dataset : Dataset Value) : Tree :=
  .row ["&", bracket (commaList (dataset.map fun entry ↦
    paren [literal entry.1, ",", value entry.2]))]

/-- Texts in a constant list. -/
def textList (items : List String) : Tree := .row ["&", bracket (commaList (items.map literal))]

/-- Entries in a constant table that is keyed by two names. -/
def pairTable (dataset : PairDataset) : Tree := table (table literal) dataset

/-- The type of a constant table from names to lists of names. -/
def listTableType : Tree := "& [(& str , & [& str])]"

/-- The type of a constant table that is keyed by two names. -/
def pairTableType : Tree := "& [(& str , & [(& str , & str)])]"

/-- A constant. -/
def constant (name : String) (type value : Tree) : Tree :=
  .row ["pub const", name, ":", type, "=", value, ";"]

/-- The functions that look an entry up. -/
def functions : Tree :=
  .row ["pub fn get < V : Copy > (map : & [(& str , V)] , key : & str) ->",
    ":: std :: option :: Option < V >", brace [
      "map . iter () . find (| (k , _) | * k == key) . map (| (_ , v) | * v)"],
    "pub fn get_pair < V : Copy > (map : & [(& str , & [(& str , V)])] , a : & str , b : & str ,)",
    "-> :: std :: option :: Option < V >", brace ["get (get (map , a) ? , b)"]]

/-- The code of the constant tables. -/
def code (lookup : Lookup) : Tree :=
  .row ["pub mod lookup", brace [
    documentation "Table → lowercase names of related tables",
    constant "RELATION_SPEC" listTableType (table textList lookup.relationSpec),
    documentation "(A, B) → accessor on A listing the link rows to B",
    constant "REF_TABLE" pairTableType (pairTable lookup.collections),
    constant "LR_REF" pairTableType "REF_TABLE",
    documentation "(owner, owned) → link row field naming the owned side",
    constant "RELATION_SPEC_FOR_DESTRUCTION" pairTableType (pairTable lookup.owned),
    documentation "(A, B) → link entity",
    constant "LR_TYPE" pairTableType (pairTable lookup.linkEntities),
    documentation "Table → column names",
    constant "FIELD_SPEC" listTableType (table textList lookup.columns),
    documentation "Link entity → (left, right) cardinality",
    constant "CARDINALITY" "& [(& str , (& str , & str))]"
      (table (fun sides ↦ paren [literal sides.1, ",", literal sides.2]) lookup.cardinalities),
    documentation "Table → entity-delete procedure",
    constant "DELETE_PROCEDURES" "& [(& str , & str)]" (table literal lookup.entityDeletes),
    documentation "(managing, related) → relation-delete procedure",
    constant "RELATION_DELETE_PROCEDURES" pairTableType (pairTable lookup.relationDeletes),
    functions]]

end Lookup

end SchemaCompiler
