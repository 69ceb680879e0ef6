import SchemaCompiler.Proofs.CascadeOnce

/-!
# Deletes descend

`Plan.Enters` is the relation between a call and a call that it makes for a row at the other end of
a link row, at some depth. All calls of a delete are valid (`Call.Valid.of_enters`), so each of them
is entered with fewer stored link rows than the call around it. In the sample schema, whose table is
untracked, a delete does enter another call.
-/

set_option autoImplicit false
set_option relaxedAutoImplicit false

namespace SchemaCompiler

/-- A call enters another one, at some depth. -/
def Plan.Enters (plan : Plan) (outer inner : Call) : Prop :=
  ∃ depth, Cascade.EntersWithin plan depth outer inner

/-- The calls of a delete are valid. -/
theorem Call.Valid.of_enters {plan : Plan} (hplan : plan.Coherent) {first call : Call}
    (hvalid : first.Valid plan) (hcalls : Relation.ReflTransGen plan.Enters first call) :
    call.Valid plan := by
  induction hcalls with
  | refl => exact hvalid
  | tail _ hstep ih =>
    obtain ⟨depth, henters⟩ := hstep
    exact (henters.valid_and_linkRows_lt hplan ih).1

/-- Whenever a call of a delete enters the call for a row at the other end of a link row, fewer link
rows are stored than when the outer call was entered, and the calls for link rows call nothing; so
no delete goes deeper than there are link rows. Assumes: an accepted schema, also with untracked
tables, a session and a row that fit it, and an empty scope. -/
theorem Accepted.deletes_descend {schema : Schema} {plan : Plan}
    (haccepted : Accepted schema plan) {session : Session} (hstores : plan.Stores session)
    {name : String} {table : Table} {row : Row} (htable : schema.table? name = some table)
    (hfits : row.Fits table) :
    (∀ outer inner, Relation.ReflTransGen plan.Enters ⟨name, row, { session := session }⟩ outer →
      plan.Enters outer inner →
        plan.linkRows inner.state.session < plan.linkRows outer.state.session) ∧
    (∀ link entity, schema.table? link = some entity → entity.isLink →
      ∀ depth, Cascade.deleteRow plan (depth + 1) link = Cascade.deleteRow plan 1 link) ∧
    (∀ depth, plan.linkRows session + 2 ≤ depth →
      ((Cascade.deleteRow plan depth name row).runOn { session := session }).1 ≠
        .error .exhausted) ∧
    ((plan.delete name row).runOn { session := session }).1 ≠ .error .exhausted := by
  have hplan := haccepted.coherent
  rw [← haccepted.table?_eq] at htable
  have hvalid : Call.Valid plan ⟨name, row, { session := session }⟩ :=
    ⟨hstores.valid, table, htable, hfits⟩
  refine ⟨?_, ?_, fun depth hdepth ↦ ?_, hplan.delete_not_exhausted hvalid⟩
  · rintro outer inner hcalls ⟨depth, henters⟩
    exact (henters.valid_and_linkRows_lt hplan (hvalid.of_enters hplan hcalls)).2
  · intro link entity hentity hlink
    rw [← haccepted.table?_eq] at hentity
    exact Cascade.deleteRow_eq_of_link hplan hentity (Table.isLink_iff_kind_ne.mp hlink)
  · exact Cascade.not_exhausted_of_linkRows hplan depth hvalid hdepth

namespace Sample.Untracked

theorem stores : plan.Stores session := by decide +kernel

theorem exists_pair : ∃ table, schema.table? "Pair" = some table ∧ (pair 1).Fits table := by
  have hany : (schema.table? "Pair").any fun table ↦ (pair 1).Fits table := by decide +kernel
  obtain ⟨table, htable, hfits⟩ := (Option.any_eq_true _ _).mp hany
  exact ⟨table, htable, of_decide_eq_true hfits⟩

/-- The delete of the first pair enters another call. -/
theorem exists_entered :
    ∃ inner, plan.Enters ⟨"Pair", pair 1, { session := session }⟩ inner := by
  obtain ⟨table, htable, hfits⟩ := exists_pair
  rw [← accepted.table?_eq] at htable
  have hvalid : Call.Valid plan ⟨"Pair", pair 1, { session := session }⟩ :=
    ⟨stores.valid, table, htable, hfits⟩
  have hshallow : Cascade.stop? ((Cascade.deleteRow plan 2 "Pair" (pair 1)).runOn
      { session := session }).1 = some .exhausted := by decide +kernel
  rcases hanswer : (Cascade.deleteRow plan 2 "Pair" (pair 1)).runOn { session := session } with
    ⟨fault | result, last⟩
  · rw [hanswer] at hshallow
    cases hshallow
    obtain ⟨inner, henters, -⟩ := Cascade.exists_entered accepted.coherent hvalid hanswer
    exact ⟨inner, 1, henters⟩
  · rw [hanswer] at hshallow
    cases hshallow

end Sample.Untracked

/-- The delete of the first pair starts with four link rows, and enters another one with fewer. -/
theorem Accepted.deletes_descend_untracked :
    Sample.Untracked.plan.linkRows Sample.Untracked.session = 4 ∧
      (∃ inner, Sample.Untracked.plan.Enters
          ⟨"Pair", Sample.Untracked.pair 1, { session := Sample.Untracked.session }⟩ inner ∧
        Sample.Untracked.plan.linkRows inner.state.session < 4) ∧
      ((Cascade.deleteRow Sample.Untracked.plan 6 "Pair" (Sample.Untracked.pair 1)).runOn
        { session := Sample.Untracked.session }).1 ≠ .error .exhausted := by
  have hfour : Sample.Untracked.plan.linkRows Sample.Untracked.session = 4 := by decide +kernel
  obtain ⟨table, htable, hfits⟩ := Sample.Untracked.exists_pair
  obtain ⟨hdescend, -, hdeep, -⟩ :=
    Sample.Untracked.accepted.deletes_descend Sample.Untracked.stores htable hfits
  obtain ⟨inner, henters⟩ := Sample.Untracked.exists_entered
  exact ⟨hfour, ⟨inner, henters, Nat.lt_of_lt_of_eq (hdescend _ inner .refl henters) hfour⟩,
    hdeep 6 (by omega)⟩

end SchemaCompiler
