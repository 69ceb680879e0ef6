import SchemaCompiler.Proofs.Acceptance

/-!
# Link rows never dangle

A session is intact if both keys of every link row are numbers of stored rows (`Schema.Intact`). A
delete takes a row out only when no link row refers to it any more, so every permitted operation
keeps a session intact (`Accepted.intact_perform`). A run is a chain of permitted operations; so the
session is intact after each of them, also if the run stops with a fault
(`Accepted.intact_throughout`).
-/

set_option autoImplicit false
set_option relaxedAutoImplicit false

namespace SchemaCompiler

/-- The keys of a link row are numbers of stored rows of its two sides. -/
def Session.Anchors (session : Session) (left right : String) (link : Row) : Prop :=
  ∀ side ∈ [left, right], ∃ row ∈ session.rowsOf side, (row.integer? "id").isSome = true ∧
    row.integer? "id" = link.integer? (Name.key (Name.lower side))

instance (session : Session) (left right : String) (link : Row) :
    Decidable (session.Anchors left right link) :=
  inferInstanceAs (Decidable (∀ side ∈ [left, right], ∃ row ∈ session.rowsOf side,
    (row.integer? "id").isSome = true ∧
      row.integer? "id" = link.integer? (Name.key (Name.lower side))))

/-- No link row of a session dangles. -/
def Schema.Intact (schema : Schema) (session : Session) : Prop :=
  ∀ ⦃name : String⦄ ⦃table : Table⦄ ⦃left right : String⦄, schema.table? name = some table →
    table.kind = .link left right → ∀ link ∈ session.rowsOf name, session.Anchors left right link

/-- Whether the link rows of a table are anchored, if it is a link entity. -/
def Session.AnchorsAll (session : Session) (name : String) : TableKind → Prop
  | .declared => True
  | .link left right => ∀ link ∈ session.rowsOf name, session.Anchors left right link

instance (session : Session) (name : String) (kind : TableKind) :
    Decidable (session.AnchorsAll name kind) :=
  match kind with
  | .declared => inferInstanceAs (Decidable True)
  | .link left right =>
    inferInstanceAs (Decidable (∀ link ∈ session.rowsOf name, session.Anchors left right link))

theorem Schema.intact_iff {schema : Schema} {session : Session} :
    schema.Intact session ↔
      ∀ entry ∈ schema.tables.entries, session.AnchorsAll entry.1 entry.2.kind := by
  constructor
  · rintro hintact ⟨name, table⟩ hentry
    have hget : schema.table? name = some table := OrderedMap.get?_eq_some_of_mem hentry
    cases hkind : table.kind with
    | declared => exact trivial
    | link left right => exact hintact hget hkind
  · intro hall name table left right hget hkind
    have hanchors := hall (name, table) (OrderedMap.mem_of_get?_eq_some hget)
    rw [hkind] at hanchors
    exact hanchors

instance (schema : Schema) (session : Session) : Decidable (schema.Intact session) :=
  decidable_of_iff _ Schema.intact_iff.symm

namespace Accepted

variable {schema : Schema} {plan : Plan}

/-- Permitted operations keep a session intact. -/
theorem intact_perform (haccepted : Accepted schema plan) {session : Session}
    {operation : Operation} (hintact : schema.Intact session)
    (hpermits : plan.Permits session operation) :
    schema.Intact (plan.perform session operation) := by
  intro name table left right htable hkind link hlink side hside
  have hbefore := (Plan.within_perform plan session operation).mem hlink
  obtain ⟨row, hrow, hsome, hid⟩ := hintact htable hkind link hbefore side hside
  cases operation with
  | select => exact ⟨row, hrow, hsome, hid⟩
  | delete storage key =>
    refine ⟨row, List.mem_filter.mpr ⟨hrow, ?_⟩, hsome, hid⟩
    by_contra hdrop
    rw [Bool.not_eq_true] at hdrop
    obtain ⟨sideTable, hget, hstorage, hkey⟩ := Plan.keeps_eq_false_iff.mp hdrop
    obtain ⟨entry, hentry, rfl⟩ := haccepted.exists_entry_of_side htable hkind hside
    obtain ⟨id, hnumber⟩ := Option.isSome_iff_exists.mp hsome
    refine hpermits.2 hget hstorage row hrow hkey id hnumber ⟨entry, hentry, link, hbefore, ?_⟩
    rw [RelationDelete.nearColumn, (Plan.mem_relationsOf_iff.mp hentry).2, ← hid, hnumber]

/-- No link row dangles at any moment of a delete. Assumes: an accepted schema, a session of rows
that fit their tables in which no link row dangles, and a row of any table. The delete starts with
an empty scope, and it is not cut off; the operations that it logs lead from the session to the last
one, and after each of them no link row dangles, whether the delete then goes on, ends or stops with
a fault. -/
theorem intact_throughout (haccepted : Accepted schema plan) {session : Session}
    (hstores : plan.Stores session) (hintact : schema.Intact session) {name : String}
    {table : Table} {row : Row} (htable : schema.table? name = some table)
    (hfits : row.Fits table) :
    ∃ outcome last operations,
      (plan.delete name row).runOn { session := session } = (outcome, last) ∧
      outcome ≠ .error .exhausted ∧ last.session.log = session.log ++ operations ∧
      last.session = operations.foldl plan.perform session ∧
      ∀ performed, performed <+: operations →
        schema.Intact (performed.foldl plan.perform session) := by
  have hplan := haccepted.coherent
  rcases hanswer : (plan.delete name row).runOn { session := session } with ⟨outcome, last⟩
  rw [← haccepted.table?_eq] at htable
  obtain ⟨hrun, hfuel⟩ := hplan.run_delete hstores.valid htable hfits hanswer
  obtain ⟨operations, hlog, hlast, hholds⟩ := (hrun.acts hplan hstores.valid).exists_operations
    hintact fun _ _ ↦ haccepted.intact_perform
  refine ⟨outcome, last, operations, rfl, ?_, hlog, hlast, hholds⟩
  rintro rfl
  exact hfuel rfl

/-- An author is deleted whose only book has a second author, who has a second book. -/
theorem intact_throughout_sample :
    Sample.plan.Stores Sample.session ∧ Sample.schema.Intact Sample.session ∧
      ∃ outcome last operations,
        (Sample.plan.delete "Author" (Sample.author 1)).runOn { session := Sample.session } =
          (outcome, last) ∧
        outcome ≠ .error .exhausted ∧ last.session.log = Sample.session.log ++ operations ∧
        last.session = operations.foldl Sample.plan.perform Sample.session ∧
        ∀ performed, performed <+: operations →
          Sample.schema.Intact (performed.foldl Sample.plan.perform Sample.session) := by
  have hstores : Sample.plan.Stores Sample.session := by decide +kernel
  have hintact : Sample.schema.Intact Sample.session := by decide +kernel
  obtain ⟨table, htable, hfits⟩ := Sample.exists_author
  exact ⟨hstores, hintact, Sample.accepted.intact_throughout hstores hintact htable hfits⟩

end Accepted

end SchemaCompiler
