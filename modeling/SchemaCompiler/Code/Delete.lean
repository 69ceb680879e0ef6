import SchemaCompiler.Code.RowType

/-!
# Delete procedures

Every table has a procedure that deletes a row: it notes the row in a scope, removes the link rows
of each relation in turn and then the row itself. Every direction of a relation has a procedure that
removes link rows and, where the managing side owns the other, deletes the rows they lead to.
-/

set_option autoImplicit false
set_option relaxedAutoImplicit false

namespace SchemaCompiler

open Target (Identifier)
open SchemaCompiler.Tree
open RowType (optionType present absent)

/-- What the procedure of a table does for one of its relations. -/
structure UnlinkStep where
  /-- The small name of the related table. -/
  lower : String
  /-- The method that lists the link rows. -/
  method : Identifier
  /-- The procedure that removes them. -/
  procedure : Identifier
deriving Repr, DecidableEq

/-- The procedure that deletes a row of a table. -/
structure EntityDelete where
  table : String
  rowType : Identifier
  procedure : Identifier
  steps : List UnlinkStep
deriving Repr, DecidableEq

/-- The method that leads from a link row to an owned row, and the procedure that deletes it. -/
structure OwnedStep where
  method : Identifier
  procedure : Identifier
deriving Repr, DecidableEq

/-- The procedure that removes the link rows of a direction of a relation. -/
structure LinkDelete where
  entry : RelationDelete
  linkType : Identifier
  linkProcedure : Identifier
  owned : Option OwnedStep
deriving Repr, DecidableEq

/-! ### Resolution -/

/-- The step of a relation in the procedure of its managing table. -/
def UnlinkStep.ofEntry (owner : TablePlan) (entry : RelationDelete) :
    Except GenerationStop UnlinkStep :=
  match owner.method? entry.collection with
  | some method => .ok ⟨entry.lower, method, entry.procedure⟩
  | none => .error (.danglingAccessor owner.table.name entry.collection)

/-- The delete procedure of a table. -/
def EntityDelete.ofPlan (plan : Plan) (owner : TablePlan) :
    Except GenerationStop EntityDelete := do
  let steps ← (plan.relationsOf owner.table.name).mapM (UnlinkStep.ofEntry owner)
  return ⟨owner.table.name, owner.rowType, owner.procedure, steps⟩

/-- The delete procedure of a direction of a relation. -/
def LinkDelete.ofEntry (plan : Plan) (entry : RelationDelete) :
    Except GenerationStop LinkDelete :=
  match plan.tables.get? entry.link, plan.tables.get? entry.deleted, entry.owned with
  | some link, _, none => .ok ⟨entry, link.rowType, link.procedure, none⟩
  | some link, some deleted, some accessor =>
    match link.method? accessor with
    | some method =>
      .ok ⟨entry, link.rowType, link.procedure, some ⟨method, deleted.procedure⟩⟩
    | none => .error (.danglingAccessor entry.link accessor)
  | _, _, _ => .error (.danglingAccessor entry.managing entry.collection)

/-! ### Text -/

namespace DeleteSupport

/-- The type that notes the rows of one delete. -/
def scopeType (runtime : Tree) : Tree :=
  .row [documentation "Rows visited by one top-level delete.",
    "# [derive (Debug , Default)] pub struct DeleteScope", brace [
      "visited : :: std :: collections :: BTreeSet <",
      "(& 'static str , :: std :: vec :: Vec < i64 >) > ,"],
    "impl DeleteScope", brace [
      "pub fn new () -> DeleteScope", brace ["DeleteScope :: default ()"],
      documentation "Records `row`, returning `false` if it was already visited.",
      documentation "Rows with a primary key that is not integer valued are not",
      documentation "tracked.",
      "pub fn visit < T :", runtime, ":: Table > (& mut self , row : & T) -> bool", brace [
        "let mut key = :: std :: vec :: Vec :: new () ;",
        "for column in T :: COLUMNS . iter () . filter (| column | column . primary_key)", brace [
          "match row . int_column (column . name)", brace [
            present ["value"], "=> key . push (value) ,", absent, "=> return true ,"]],
        "self . visited . insert ((T :: NAME , key))"],
      "pub fn len (& self) -> usize", brace ["self . visited . len ()"],
      "pub fn is_empty (& self) -> bool", brace ["self . visited . is_empty ()"]]]

/-- The type of what deleting a row did. -/
def deletedType : Tree :=
  .row [documentation "Outcome of an entity-delete procedure.",
    "# [derive (Debug , Clone , PartialEq)] pub struct Deleted", brace [
      documentation "Storage name of the deleted row's table",
      "pub table : & 'static str ,",
      documentation "Result of each relation-delete procedure, keyed by the",
      documentation "related table's lowercase name",
      "pub relations : :: std :: vec :: Vec <",
      paren ["& 'static str ,", optionType, "< :: std :: vec :: Vec < Unlinked >> ,"], "> ,"],
    "impl Deleted", brace [
      "pub fn get (& self , relation : & str ,) ->",
      optionType, "< &", optionType, "< :: std :: vec :: Vec < Unlinked >> >", brace [
        "self . relations . iter () . find (| (name , _) | * name == relation)",
        ". map (| (_ , unlinked) | unlinked)"]]]

/-- The type of what removing a link row did. -/
def unlinkedType : Tree :=
  .row [documentation "Outcome of removing one link row of an owned relation.",
    "# [derive (Debug , Clone , PartialEq)] pub struct Unlinked", brace [
      "pub link :", optionType, "< Deleted > ,",
      documentation "Result of deleting the owned row the link pointed at",
      "pub target :", optionType, "< Deleted > ,"]]

/-- The types that all delete procedures share. -/
def code (runtime : Tree) : Tree := .row [scopeType runtime, deletedType, unlinkedType]

end DeleteSupport

/-- A successful result. -/
def Tree.success (value : Tree) : Tree := .row [":: std :: result :: Result :: Ok", paren [value]]

/-- The code of the procedure that deletes a row. -/
def EntityDelete.code (runtime : Tree) (item : EntityDelete) : Tree :=
  let head := Tree.row ["pub fn", item.procedure, "< __S :", runtime, ":: Session >",
    paren ["session : & mut __S , scope : & mut DeleteScope , row : &", item.rowType, ","],
    "-> :: std :: result :: Result <", optionType, "< Deleted > , __S :: Error >"]
  let step := fun (step : UnlinkStep) ↦ Tree.row [
    "let links = row .", step.method, "(session) ? ;",
    "deleted . relations . push", paren [paren [literal step.lower, ",", step.procedure,
      "(session , scope , & links) ?"]], ";"]
  if item.steps.isEmpty then
    .row [head, brace ["if scope . visit (row)", brace ["session . delete (row) ? ;"],
      success absent]]
  else
    .row [head, brace [
      "if ! scope . visit (row)", brace ["return", success absent, ";"],
      "let mut deleted = Deleted", brace [
        "table : <", item.rowType, "as", runtime, ":: Table > :: NAME ,",
        "relations : :: std :: vec :: Vec :: new () ,"], ";",
      .row (item.steps.map step),
      "session . delete (row) ? ;",
      success (present ["deleted"])]]

/-- The code of the procedure that removes link rows. -/
def LinkDelete.code (runtime : Tree) (item : LinkDelete) : Tree :=
  let head := Tree.row ["pub fn", item.entry.procedure, "< __S :", runtime, ":: Session >",
    paren ["session : & mut __S , scope : & mut DeleteScope , links : &",
      bracket [item.linkType], ","],
    "-> :: std :: result :: Result <", optionType,
    "< :: std :: vec :: Vec < Unlinked >> , __S :: Error , >"]
  match item.owned with
  | none =>
    .row [head, brace [
      "for link in links", brace [item.linkProcedure, "(session , scope , link) ? ;"],
      success absent]]
  | some owned =>
    .row [head, brace [
      "let mut unlinked = :: std :: vec :: Vec :: with_capacity (links . len ()) ;",
      "for link in links", brace [
        "let target = link .", owned.method, "(session) ? ;",
        "let link_deleted =", item.linkProcedure, "(session , scope , link) ? ;",
        "let target_deleted = match target", brace [
          present ["target"], "=>", owned.procedure, "(session , scope , & target) ? ,",
          absent, "=>", absent, ","], ";",
        "unlinked . push", paren ["Unlinked", brace [
          "link : link_deleted , target : target_deleted ,"]], ";"],
      success (present ["unlinked"])]]

end SchemaCompiler
