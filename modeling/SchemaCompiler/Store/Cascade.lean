import SchemaCompiler.Code.Plan
import SchemaCompiler.Store.Session

/-!
# Cascading deletes

The delete procedures of a plan act on a session. Deleting a row first removes its link rows,
relation by relation, and deletes the rows that it owns over them; then the row itself goes. A scope
notes the rows that one delete has begun with, so that cycles of ownership come to an end. A row
whose primary key is not made of integers alone is not noted.

A failure keeps what was done before it. The recursion is bounded by a number that `Plan.depth`
takes from the rows of the session: every step deeper uses up a link row or a noted row.
-/

set_option autoImplicit false
set_option relaxedAutoImplicit false

namespace SchemaCompiler

/-- The rows that a delete has begun with, by storage name and key. -/
structure Scope where
  visited : List (String × List Int) := []
deriving Repr, DecidableEq

namespace Scope

/-- The number of noted rows. -/
def size (scope : Scope) : Nat := scope.visited.length

/-- Notes a row, and answers whether it is new. A row without a whole key is always new. -/
def visit (scope : Scope) (table : Table) (row : Row) : Bool × Scope :=
  match table.wholeKey? row with
  | none => (true, scope)
  | some key =>
    if (table.storage, key) ∈ scope.visited then (false, scope)
    else (true, ⟨scope.visited ++ [(table.storage, key)]⟩)

end Scope

mutual

/-- What deleting a row did: the storage name of its table, and what became of each relation. -/
inductive Deleted where
  | node (storage : String) (relations : List RelationOutcome)

/-- What became of a relation, under the small name of the related table. -/
inductive RelationOutcome where
  /-- The link rows are gone; the related rows stay. -/
  | unlinked (lower : String)
  /-- The link rows are gone with the rows they led to. -/
  | cascaded (lower : String) (links : List LinkOutcome)

/-- What deleting a link row and the row it led to did. -/
inductive LinkOutcome where
  | pair (link target : Option Deleted)

end

/-- Why a delete stopped. -/
inductive CascadeFault where
  | missing (row : MissingRow)
  /-- The bound on the depth of the recursion was reached. -/
  | exhausted
deriving Repr, DecidableEq

/-- What a delete works on. -/
structure CascadeState where
  session : Session
  scope : Scope := {}

/-- A part of a delete. -/
abbrev Cascade := ExceptT CascadeFault (StateM CascadeState)

namespace Cascade

/-- Notes a row in the scope, and answers whether it is new. -/
def visit (table : Table) (row : Row) : Cascade Bool := do
  let state ← get
  let (new, scope) := state.scope.visit table row
  set { state with scope := scope }
  return new

/-- The rows of a table whose column holds an integer. -/
def select (table : Table) (column : String) (value : Int) : Cascade (List Row) := do
  let state ← get
  let (rows, session) := state.session.select table column value
  set { state with session := session }
  return rows

/-- Removes a row from the session. -/
def remove (table : Table) (row : Row) : Cascade Unit := do
  let state ← get
  match state.session.delete table row with
  | .ok session => set { state with session := session }
  | .error fault => throw (.missing fault)

/-- The link rows of a row by an accessor of its table. -/
def listLinks (plan : Plan) (accessor : Accessor) (row : Row) : Cascade (List Row) :=
  match plan.tables.get? accessor.target, row.integer? "id" with
  | some target, some id => select target.table accessor.column id
  | _, _ => return []

/-- The row that a link row leads to by an accessor of its table. -/
def followLink (plan : Plan) (accessor : Accessor) (link : Row) : Cascade (Option Row) :=
  match plan.tables.get? accessor.target, link.integer? accessor.column with
  | some target, some id => do return (← select target.table "id" id).head?
  | _, _ => return none

/-- An accessor of a table of a plan. -/
def accessor? (plan : Plan) (table accessor : String) : Option Accessor :=
  (plan.tables.get? table).bind fun entry ↦ entry.table.accessors.get? accessor

/-- Removes link rows, where `delete` deletes a row of a table with all that belongs to it. -/
def unlink (plan : Plan) (delete : String → Row → Cascade (Option Deleted))
    (entry : RelationDelete) (links : List Row) : Cascade RelationOutcome := do
  match entry.owned.bind (accessor? plan entry.link) with
  | none =>
    links.forM fun link ↦ discard (delete entry.link link)
    return .unlinked entry.lower
  | some accessor =>
    let outcomes ← links.mapM fun link ↦ do
      let target ← followLink plan accessor link
      let linkOutcome ← delete entry.link link
      let targetOutcome ← match target with
        | some row => delete entry.deleted row
        | none => pure none
      return LinkOutcome.pair linkOutcome targetOutcome
    return .cascaded entry.lower outcomes

/-- Removes the link rows of a row over one of its relations. -/
def unlinkRow (plan : Plan) (delete : String → Row → Cascade (Option Deleted)) (row : Row)
    (entry : RelationDelete) : Cascade RelationOutcome := do
  let links ← match accessor? plan entry.managing entry.collection with
    | some accessor => listLinks plan accessor row
    | none => pure []
  unlink plan delete entry links

/-- Deletes a row of a table, at most `depth` rows deep. A table without relations reports
nothing. -/
def deleteRow (plan : Plan) : (depth : Nat) → (table : String) → (row : Row) →
    Cascade (Option Deleted)
  | 0, _, _ => throw .exhausted
  | depth + 1, name, row =>
    match plan.tables.get? name with
    | none => return none
    | some entry => do
      let relations := plan.relationsOf name
      let new ← visit entry.table row
      if relations.isEmpty then
        if new then remove entry.table row
        return none
      else if new then
        let outcomes ← relations.mapM (unlinkRow plan (deleteRow plan depth) row)
        remove entry.table row
        return some (.node entry.table.storage outcomes)
      else return none

end Cascade

namespace Plan

/-- A depth that deletes in a session do not reach. -/
def depth (plan : Plan) (session : Session) : Nat :=
  2 * plan.tables.values.foldr (fun entry total ↦ (session.rows entry.table).length + total) 2

/-- Deletes a row of a table with all that belongs to it. -/
def delete (plan : Plan) (table : String) (row : Row) : Cascade (Option Deleted) := do
  Cascade.deleteRow plan (plan.depth (← get).session) table row

/-- Removes link rows as the procedure of a direction of a relation does. -/
def unlink (plan : Plan) (entry : RelationDelete) (links : List Row) :
    Cascade RelationOutcome := do
  Cascade.unlink plan (Cascade.deleteRow plan (plan.depth (← get).session)) entry links

/-- The direction of a relation between two tables. -/
def relationDelete? (plan : Plan) (managing deleted : String) : Option RelationDelete :=
  plan.relationDeletes.find? fun entry ↦ entry.managing == managing && entry.deleted == deleted

end Plan

end SchemaCompiler
