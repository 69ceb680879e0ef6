import SchemaCompiler.Proofs.CascadeClosure
import SchemaCompiler.Proofs.CascadeOnce

/-!
# Scopes record deletes

A row is noted when its delete begins, and its delete is logged when it ends, after all that belongs
to it. In between, other rows are noted and their deletes are logged. Where every row that a run
comes to is tracked, a run that is not stopped therefore notes the rows whose deletes it logs, in
another order (`Run.records`). A delete that is stopped found its own row missing, and has noted
this row in addition.
-/

set_option autoImplicit false
set_option relaxedAutoImplicit false

namespace SchemaCompiler

/-! ### Logged deletes -/

namespace Session

theorem deletes_note_select (session : Session) (storage column : String) (value : Int) :
    (session.note (.select storage column value)).deletes = session.deletes := by
  simp [deletes, note]

theorem deletes_of_delete {session next : Session} {table : Table} {row : Row}
    (hdelete : session.delete table row = .ok next) :
    next.deletes = session.deletes ++ [(table.storage, table.integerKey row)] := by
  rw [(delete_eq_ok hdelete).2]
  simp [deletes, note, setRows]

end Session

/-- The rows that are noted between two states are those whose deletes are logged between them. -/
def CascadeState.Records (state last : CascadeState) : Prop :=
  ∃ noted passed, last.scope.visited = state.scope.visited ++ noted ∧
    last.session.deletes = state.session.deletes ++ passed ∧ noted.Perm passed

namespace CascadeState.Records

variable {state asked middle last : CascadeState}

theorem refl (state : CascadeState) : state.Records state :=
  ⟨[], [], (List.append_nil _).symm, (List.append_nil _).symm, .nil⟩

theorem trans (hfirst : state.Records middle) (hsecond : middle.Records last) :
    state.Records last := by
  obtain ⟨noted, passed, hvisited, hdeletes, hperm⟩ := hfirst
  obtain ⟨moreNoted, morePassed, hmoreVisited, hmoreDeletes, hmorePerm⟩ := hsecond
  refine ⟨noted ++ moreNoted, passed ++ morePassed, ?_, ?_, hperm.append hmorePerm⟩
  · rw [hmoreVisited, hvisited, List.append_assoc]
  · rw [hmoreDeletes, hdeletes, List.append_assoc]

/-- Asking for rows is not recorded. -/
theorem log (state : CascadeState) (storage column : String) (value : Int) :
    state.Records (state.log (.select storage column value)) := by
  refine ⟨[], [], (List.append_nil _).symm, ?_, .nil⟩
  rw [List.append_nil]
  exact Session.deletes_note_select state.session storage column value

theorem looks {plan : Plan} {entry : RelationDelete} {link : Row} {target : Option Row}
    (hlooks : plan.Looks entry link state target asked) : state.Records asked := by
  cases hlooks with
  | unowned => exact refl state
  | owned => exact log state _ _ _

end CascadeState.Records

/-! ### Runs -/

/-- The row of a task is one of a tracked table. -/
def Task.Tracked (plan : Plan) : Task → Prop
  | .row name _ => ∀ ⦃table : Table⦄, plan.table? name = some table → table.Tracked
  | .relations .. | .links .. => True

namespace Plan

variable {plan : Plan} {entry : RelationDelete}

/-- Link rows are tracked. -/
theorem Coherent.tracked_link (hplan : plan.Coherent) (hentry : entry ∈ plan.relationDeletes)
    (link : Row) : (Task.row entry.link link).Tracked plan := by
  intro table htable
  obtain ⟨other, hother, hshape⟩ := hplan.exists_link hentry
  rw [htable] at hother
  cases hother
  exact hshape.tracked

/-- The rows of tables with directions are tracked. -/
theorem IdKeyed.tracked_row (hkeyed : plan.IdKeyed) (hplan : plan.Coherent) {name : String}
    (hentry : entry ∈ plan.relationsOf name) (row : Row) : (Task.row name row).Tracked plan :=
  fun _ htable ↦ hkeyed.tracked hplan htable hentry

/-- The rows that link rows lead to are tracked. -/
theorem IdKeyed.tracked_deleted (hkeyed : plan.IdKeyed) (hplan : plan.Coherent)
    (hentry : entry ∈ plan.relationDeletes) (row : Row) :
    (Task.row entry.deleted row).Tracked plan := by
  obtain ⟨back, hback⟩ := hplan.exists_mem_relationsOf_deleted hentry
  exact hkeyed.tracked_row hplan hback row

end Plan

theorem Scope.visited_add_of_tracked {table : Table} {row : Row} (hshape : table.WellFormed)
    (hfits : row.Fits table) (htracked : table.Tracked) (scope : Scope) :
    (scope.add table row).visited = scope.visited ++ [(table.storage, table.integerKey row)] := by
  have hkey := hfits.wholeKey?_of_tracked hshape htracked
  rw [hfits.integerKey_eq_of_wholeKey? hshape hkey, add, hkey]

namespace Run

variable {plan : Plan} {depth : Nat} {task : Task} {state last : CascadeState}
  {stop : Option CascadeFault}

/-- A run that is not stopped records its deletes. -/
theorem records (hplan : plan.Coherent) (hkeyed : plan.IdKeyed)
    (hrun : Run plan depth task state stop last) (htracked : task.Tracked plan)
    (hstop : stop = none) : state.Records last := by
  induction hrun with
  | exhausted | stopped | missing | blocked | stuck | failed => cases hstop
  | noted | cleared | removed => exact .refl _
  | @deleted depth name row state last table session htable hfits hnew hclear hdelete ih =>
    obtain ⟨noted, passed, hvisited, hdeletes, hperm⟩ := ih trivial rfl
    have hadd := Scope.visited_add_of_tracked (hplan.shape htable) hfits (htracked htable)
      state.scope
    refine ⟨(table.storage, table.integerKey row) :: noted,
      passed ++ [(table.storage, table.integerKey row)], ?_, ?_, ?_⟩
    · show last.scope.visited = _
      rw [hvisited, CascadeState.add, hadd, List.append_assoc, List.singleton_append]
    · rw [Session.deletes_of_delete hdelete, hdeletes, List.append_assoc]
      rfl
    · exact (hperm.cons _).trans (List.perm_append_singleton _ _).symm
  | next _ _ _ _ _ ihlinks ihrest =>
    exact ((CascadeState.Records.log _ _ _ _).trans (ihlinks trivial rfl)).trans
      (ihrest trivial hstop)
  | cut hrefers hlooks _ _ ihlink ihrest =>
    have hlink := ihlink (hplan.tracked_link hrefers.entry_mem _) rfl
    exact ((CascadeState.Records.looks hlooks).trans hlink).trans (ihrest trivial hstop)
  | followed hrefers hlooks _ _ _ ihlink ihtarget ihrest =>
    have hlink := ihlink (hplan.tracked_link hrefers.entry_mem _) rfl
    have htarget := ihtarget (hkeyed.tracked_deleted hplan hrefers.entry_mem _) rfl
    exact (((CascadeState.Records.looks hlooks).trans hlink).trans htarget).trans
      (ihrest trivial hstop)

end Run

/-! ### Deletes -/

namespace Accepted

variable {schema : Schema} {plan : Plan} {session : Session}

/-- The scope of a delete records what was deleted, each row once. Assumes: an accepted schema in
which `id` is the only key column of every table that takes part in a relation, a session of rows
that fit their tables, and a row of such a table. With an empty scope, the deletes that are logged
are of different rows; the noted rows are these if the delete succeeds, and else these and the row
itself. -/
theorem scope_records_deletes (haccepted : Accepted schema plan)
    (hkeys : ∀ name table, schema.table? name = some table → schema.Related name →
      table.keyColumns = ["id"])
    (hstores : plan.Stores session) {name : String} {table : Table} {row : Row}
    (htable : schema.table? name = some table) (hrelated : schema.Related name)
    (hfits : row.Fits table) :
    ∃ outcome last passed,
      (plan.delete name row).runOn { session := session } = (outcome, last) ∧
      outcome ≠ .error .exhausted ∧
      last.session.deletes = session.deletes ++ passed ∧ passed.Nodup ∧
      ((∃ result, outcome = .ok result) →
        last.scope.visited.Perm passed ∧ last.scope.size = passed.length) ∧
      ((∃ fault, outcome = .error fault) →
        last.scope.visited.Perm ((table.storage, table.integerKey row) :: passed)) := by
  have hplan := haccepted.coherent
  have hkeyed := haccepted.idKeyed hkeys
  have hentries := haccepted.related_iff.mp hrelated
  rw [← haccepted.table?_eq] at htable
  rcases hanswer : (plan.delete name row).runOn { session := session } with ⟨outcome, last⟩
  obtain ⟨hrun, hfuel⟩ := hplan.run_delete hstores.valid htable hfits hanswer
  obtain ⟨passed, hdeletes, hnodup, -⟩ := (hrun.acts hplan hstores.valid).exists_passed
  refine ⟨outcome, last, passed, rfl, ?_, hdeletes, hnodup, ?_, ?_⟩
  · rintro rfl
    exact hfuel rfl
  · rintro ⟨result, rfl⟩
    obtain ⟨entry, hentry⟩ := hentries
    obtain ⟨noted, recorded, hvisited, hrecorded, hperm⟩ :=
      hrun.records hplan hkeyed (hkeyed.tracked_row hplan hentry row) rfl
    obtain rfl := List.append_cancel_left (hrecorded.symm.trans hdeletes)
    have hall : last.scope.visited.Perm recorded := by
      rw [hvisited]
      exact hperm
    exact ⟨hall, hall.length_eq⟩
  · rintro ⟨fault, rfl⟩
    rcases hrun.row_cases hplan (hkeyed.direct hplan) hstores.valid htable hentries hfuel with
      ⟨-, hnone, -⟩ | ⟨-, shallow, middle, hclear, ⟨hnone, -⟩ | ⟨missing, -, -, rfl⟩⟩
    · cases hnone
    · cases hnone
    · obtain ⟨entry, hentry⟩ := hentries
      obtain ⟨noted, recorded, hvisited, hrecorded, hperm⟩ :=
        hclear.records hplan hkeyed trivial rfl
      obtain rfl := List.append_cancel_left (hrecorded.symm.trans hdeletes)
      have hadd := Scope.visited_add_of_tracked (hplan.shape htable) hfits
        (hkeyed.tracked hplan htable hentry) {}
      rw [hvisited, CascadeState.add, hadd]
      exact hperm.cons _

/-- The delete of an author notes and deletes seven rows: two authors, two books and three link
rows. -/
theorem scope_records_deletes_sample :
    Sample.plan.Stores Sample.session ∧ Sample.schema.Related "Author" ∧
      ∃ result last passed,
        (Sample.plan.delete "Author" (Sample.author 1)).runOn { session := Sample.session } =
          (.ok result, last) ∧
        last.session.deletes = Sample.session.deletes ++ passed ∧ passed.Nodup ∧
        last.scope.visited.Perm passed ∧ passed.length = 7 := by
  have hstores : Sample.plan.Stores Sample.session := by decide +kernel
  have hrelated : Sample.schema.Related "Author" := by decide +kernel
  obtain ⟨table, htable, hfits⟩ := Sample.exists_author
  obtain ⟨outcome, last, passed, hanswer, -, hdeletes, hnodup, hok, -⟩ :=
    Sample.accepted.scope_records_deletes Sample.keyed hstores htable hrelated hfits
  have hseen : Cascade.stop? ((Sample.plan.delete "Author" (Sample.author 1)).runOn
      { session := Sample.session }).1 = none ∧
      ((Sample.plan.delete "Author" (Sample.author 1)).runOn
        { session := Sample.session }).2.scope.size = 7 := by decide +kernel
  rw [hanswer] at hseen
  obtain ⟨hstop, hsize⟩ := hseen
  cases outcome with
  | error fault => cases hstop
  | ok result =>
    obtain ⟨hperm, hlength⟩ := hok ⟨result, rfl⟩
    exact ⟨hstores, hrelated, result, last, passed, hanswer, hdeletes, hnodup, hperm,
      hlength.symm.trans hsize⟩

end Accepted

end SchemaCompiler
