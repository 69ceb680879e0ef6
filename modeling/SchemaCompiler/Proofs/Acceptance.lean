import SchemaCompiler.Compilation
import SchemaCompiler.Proofs.CascadeDepth

/-!
# Accepted schemas

A schema is accepted if it was read from a text and code was generated for it, in some grammar of
the written code (`Accepted`). Its plan is coherent then (`Accepted.coherent`), and the relation
graph and the plan say the same: the tables that take part in relations, their link entities and who
owns whom (`Accepted.owns_iff`).

A delete of an accepted schema is a run that is not cut off (`Plan.Coherent.run_delete`).
-/

set_option autoImplicit false
set_option relaxedAutoImplicit false

namespace SchemaCompiler

/-- A schema that was read and written, and the plan that it was written by. -/
structure Accepted (schema : Schema) (plan : Plan) : Prop where
  read : ∃ source, Schema.read source = .ok schema
  generated : ∃ (_ : Target.Grammar) (settings : Settings) (output : Output),
    schema.generate settings = .ok output
  planned : Plan.ofSchema schema = .ok plan

/-- A table takes part in a relation. -/
def Schema.Related (schema : Schema) (name : String) : Prop := schema.graph.relatedTo name ≠ []

instance (schema : Schema) (name : String) : Decidable (schema.Related name) :=
  inferInstanceAs (Decidable (schema.graph.relatedTo name ≠ []))

namespace Accepted

variable {schema : Schema} {plan : Plan}

/-- What there is to check of a schema and its plan: they are those of a text, and the schema can be
written. -/
theorem of_isOk {source : String} (hread : Schema.read source = .ok schema)
    (hplan : Plan.ofSchema schema = .ok plan) (hwritten : (schema.generate {}).isOk = true) :
    Accepted schema plan := by
  refine ⟨⟨source, hread⟩, ?_, hplan⟩
  cases houtput : schema.generate {} with
  | ok output => exact ⟨inferInstance, {}, output, houtput⟩
  | error stop =>
    rw [houtput] at hwritten
    cases hwritten

theorem exists_document (haccepted : Accepted schema plan) :
    ∃ document, Schema.ofDocument document = .ok schema := by
  obtain ⟨source, hread⟩ := haccepted.read
  obtain ⟨document, -, hbuild⟩ := bind_eq_ok_iff.mp hread
  refine ⟨document, ?_⟩
  cases hdocument : Schema.ofDocument document with
  | error fault =>
    rw [hdocument] at hbuild
    cases hbuild
  | ok built =>
    rw [hdocument] at hbuild
    cases hbuild
    rfl

theorem coherent (haccepted : Accepted schema plan) : plan.Coherent := by
  obtain ⟨document, hbuild⟩ := haccepted.exists_document
  exact Plan.coherent hbuild haccepted.planned

theorem sound (haccepted : Accepted schema plan) : schema.Sound := by
  obtain ⟨document, hbuild⟩ := haccepted.exists_document
  exact (Schema.ofDocument_sound hbuild).1

theorem table?_eq (haccepted : Accepted schema plan) (name : String) :
    plan.table? name = schema.table? name :=
  Plan.table?_eq haccepted.sound.toDeclares haccepted.planned name

/-! ### The graph and the plan -/

/-- The graph knows a link entity for each direction of the plan. -/
theorem linkEntity?_iff (haccepted : Accepted schema plan) {source target name : String} :
    schema.graph.linkEntity? source target = some name ↔
      ∃ entry ∈ plan.relationDeletes, entry.managing = source ∧ entry.deleted = target ∧
        entry.link = name := by
  have hsound := haccepted.sound
  constructor
  · intro hentity
    obtain ⟨link, near, far, hrelates, hname⟩ := hsound.graph.entity.mp hentity
    obtain ⟨entry, hentry, rfl, rfl⟩ := Plan.exists_entry hsound haccepted.planned hrelates
    have hlink := Plan.link_eq_of_relates hsound haccepted.planned hentry hrelates
    exact ⟨entry, hentry, rfl, rfl, hlink.trans hname.symm⟩
  · rintro ⟨entry, hentry, rfl, rfl, rfl⟩
    obtain ⟨link, near, far, hdirects⟩ := Plan.exists_directs hsound haccepted.planned hentry
    exact hsound.graph.entity.mpr ⟨link, near, far, hdirects.relates, hdirects.link_eq⟩

/-- The graph and the plan agree on ownership. -/
theorem owns_iff (haccepted : Accepted schema plan) {source target : String} :
    schema.graph.owns source target = true ↔
      ∃ entry ∈ plan.relationDeletes, entry.managing = source ∧ entry.deleted = target ∧
        entry.Owns := by
  have hsound := haccepted.sound
  constructor
  · intro howns
    obtain ⟨name, howned⟩ := Option.isSome_iff_exists.mp howns
    obtain ⟨link, near, far, hrelates, -⟩ := hsound.graph.owned.mp howned
    obtain ⟨entry, hentry, rfl, rfl⟩ := Plan.exists_entry hsound haccepted.planned hrelates
    obtain ⟨other, otherNear, otherFar, hdirects⟩ :=
      Plan.exists_directs hsound haccepted.planned hentry
    refine ⟨entry, hentry, rfl, rfl, ?_⟩
    rw [RelationDelete.Owns, hdirects.owned_eq]
    exact howns
  · rintro ⟨entry, hentry, rfl, rfl, howns⟩
    obtain ⟨link, near, far, hdirects⟩ := Plan.exists_directs hsound haccepted.planned hentry
    rw [RelationDelete.Owns, hdirects.owned_eq] at howns
    exact howns

/-- The tables that take part in relations are those with directions. -/
theorem related_iff (haccepted : Accepted schema plan) {name : String} :
    schema.Related name ↔ ∃ entry, entry ∈ plan.relationsOf name := by
  have hsound := haccepted.sound
  constructor
  · intro hrelated
    obtain ⟨lower, hlower⟩ := List.exists_mem_of_ne_nil _ hrelated
    obtain ⟨link, near, far, hrelates, -⟩ := hsound.graph.related.mp hlower
    obtain ⟨entry, hentry, hmanaging, -⟩ := Plan.exists_entry hsound haccepted.planned hrelates
    exact ⟨entry, Plan.mem_relationsOf_iff.mpr ⟨hentry, hmanaging⟩⟩
  · rintro ⟨entry, hentry⟩
    obtain ⟨hmember, rfl⟩ := Plan.mem_relationsOf_iff.mp hentry
    obtain ⟨link, near, far, hdirects⟩ := Plan.exists_directs hsound haccepted.planned hmember
    obtain ⟨hlink, hjoins, hnear, -⟩ := hdirects.relates
    exact List.ne_nil_of_mem
      (hsound.graph.related.mpr ⟨link, near, far, ⟨hlink, hjoins, hnear, rfl⟩, rfl⟩)

/-- A link row is a link row of both of its sides. -/
theorem exists_entry_of_side (haccepted : Accepted schema plan) {name left right side : String}
    {table : Table} (htable : schema.table? name = some table)
    (hkind : table.kind = .link left right) (hside : side ∈ [left, right]) :
    ∃ entry ∈ plan.relationsOf side, entry.link = name := by
  have hplan := haccepted.coherent
  rw [← haccepted.table?_eq] at htable
  obtain ⟨entry, hentry, hmanaging, hdeleted, hlink⟩ := hplan.reached htable hkind
  rcases List.mem_pair.mp hside with rfl | rfl
  · exact ⟨entry, Plan.mem_relationsOf_iff.mpr ⟨hentry, hmanaging⟩, hlink⟩
  · obtain ⟨back, hback, hbackManaging, -, hbackLink⟩ := hplan.back hentry
    exact ⟨back, Plan.mem_relationsOf_iff.mpr ⟨hback, hbackManaging.trans hdeleted⟩,
      hbackLink.trans hlink⟩

end Accepted

/-! ### Deletes as runs -/

/-- A state with an empty scope is settled. -/
theorem Plan.Stores.valid {plan : Plan} {session : Session} (hstores : plan.Stores session) :
    CascadeState.Valid plan { session := session } :=
  ⟨hstores, fun _ _ _ _ _ _ ⟨_, _, hmember⟩ ↦ List.not_mem_nil hmember⟩

/-- A delete is a run that is not cut off. -/
theorem Plan.Coherent.run_delete {plan : Plan} (hplan : plan.Coherent) {state last : CascadeState}
    (hvalid : state.Valid plan) {name : String} {table : Table} {row : Row}
    (htable : plan.table? name = some table) (hfits : row.Fits table)
    {outcome : Except CascadeFault (Option Deleted)}
    (hrun : (plan.delete name row).runOn state = (outcome, last)) :
    Run plan (plan.depth state.session) (.row name row) state (Cascade.stop? outcome) last ∧
      Cascade.stop? outcome ≠ some .exhausted := by
  have hvalidCall : Call.Valid plan ⟨name, row, state⟩ := ⟨hvalid, table, htable, hfits⟩
  refine ⟨Cascade.run_deleteRow hplan _ htable hfits hvalid.stores hrun, fun hstop ↦ ?_⟩
  refine hplan.delete_not_exhausted hvalidCall ?_
  cases outcome with
  | ok deleted => cases hstop
  | error fault =>
    cases hstop
    exact congrArg Prod.fst hrun

/-! ### A small schema -/

namespace Sample

/-- Authors and books own each other. -/
def source : String :=
  "Author(id: int) \x7b name: NameStr \x7d\nBook(id: int) \x7b\x7d\nAuthor^ <<->> Book^ \x7b\x7d"

/-- The schema of authors and books. -/
def schema : Schema :=
  match Schema.read source with
  | .ok schema => schema
  | .error _ => {}

/-- The plan of authors and books. -/
def plan : Plan :=
  match Plan.ofSchema schema with
  | .ok plan => plan
  | .error _ => {}

theorem accepted : Accepted schema plan :=
  .of_isOk (by decide +kernel : Schema.read source = .ok schema) (by decide +kernel)
    (by decide +kernel)

/-- An author. -/
def author (id : Int) : Row := ⟨[("id", .integer id), ("name", .text "")]⟩

/-- A book. -/
def book (id : Int) : Row := ⟨[("id", .integer id)]⟩

/-- Who wrote what. -/
def link (author book : Int) : Row := ⟨[("author_id", .integer author), ("book_id", .integer book)]⟩

/-- Two authors wrote the first book, and one of them the second one; the third book has no
author. -/
def session : Session where
  rowsOf name :=
    if name = "Author" then [author 1, author 2]
    else if name = "Book" then [book 1, book 2, book 3]
    else if name = "AuthorBook" then [link 1 1, link 2 1, link 2 2]
    else []

theorem exists_author : ∃ table, schema.table? "Author" = some table ∧ (author 1).Fits table := by
  have hfits : (schema.table? "Author").any fun table ↦ (author 1).Fits table := by decide +kernel
  obtain ⟨table, htable, hrow⟩ := (Option.any_eq_true _ _).mp hfits
  exact ⟨table, htable, of_decide_eq_true hrow⟩

theorem keyed (name : String) (table : Table) (htable : schema.table? name = some table)
    (hrelated : schema.Related name) : table.keyColumns = ["id"] := by
  have hall : ∀ entry ∈ schema.tables.entries, schema.Related entry.1 →
      entry.2.keyColumns = ["id"] := by decide +kernel
  exact hall (name, table) (OrderedMap.mem_of_get?_eq_some htable) hrelated

end Sample

end SchemaCompiler
