import SchemaCompiler.Proofs.Acceptance
import SchemaCompiler.Proofs.CascadeCover
import SchemaCompiler.Proofs.CascadeSuccess

/-!
# What deletes remove

Where `id` is the whole key of every table that takes part in relations, a delete removes exactly
what must go. The rows that must go are the least set with the rows to delete that is closed under
ownership over the link rows of the session before (`Schema.Doomed`); with them go the link rows
that refer to one of them (`Schema.Falls`).

Nothing else goes, since a run only follows link rows of the session before (`Run.explains`). All of
it goes, since the noted rows are such a closed set: a noted row has no rows and no link rows left
(`Run.clears`), a link row that went leads to a row that was noted or to none (`Plan.Covers`), and a
row that went was noted (`Plan.Notes`). These three facts compose, so they hold of deletes one after
the other in one scope as well (`Plan.Progress`).

The main statements are `Accepted.rowsOf_delete_eq_filter` for one delete and
`Accepted.rowsOf_deletes_eq_of_perm` for deletes in any order.
-/

set_option autoImplicit false
set_option relaxedAutoImplicit false

namespace SchemaCompiler

/-! ### Tables that are keyed by numbers -/

theorem Table.WellFormed.tracked_of_id {table : Table} (hshape : table.WellFormed)
    (hid : table.hasIntegerId = true) (hkey : table.keyColumns = ["id"]) : table.Tracked := by
  intro column hcolumn hprimary
  have hname : column.name = "id" := by
    have hmember : column.name ∈ table.keyColumns :=
      Table.mem_keyColumns_iff.mpr ⟨column, hcolumn, hprimary, rfl⟩
    rw [hkey] at hmember
    exact List.mem_singleton.mp hmember
  rcases hshape.mem_columns_iff.mp hcolumn with hget | hget
  · rw [hname] at hget
    simp only [Table.hasIntegerId, hget, Bool.and_eq_true] at hid
    exact hid.1
  · rw [hshape.ordinary_unmarked hget] at hprimary
    cases hprimary

namespace Plan

/-- The number is the whole key of every table with directions. -/
def IdKeyed (plan : Plan) : Prop :=
  ∀ ⦃name : String⦄ ⦃table : Table⦄, plan.table? name = some table →
    (∃ entry, entry ∈ plan.relationsOf name) → table.keyColumns = ["id"]

theorem IdKeyed.tracked {plan : Plan} (hkeyed : plan.IdKeyed) (hplan : plan.Coherent)
    {name : String} {table : Table} (htable : plan.table? name = some table)
    {entry : RelationDelete} (hentry : entry ∈ plan.relationsOf name) : table.Tracked :=
  (hplan.shape htable).tracked_of_id (hplan.of_mem_relationsOf htable hentry).2.1
    (hkeyed htable ⟨entry, hentry⟩)

theorem IdKeyed.direct {plan : Plan} (hkeyed : plan.IdKeyed) (hplan : plan.Coherent) :
    plan.Direct := by
  rintro name table htable huntracked ⟨before, entry, after, hsplit, -⟩
  have hentry : entry ∈ plan.relationsOf name := by
    rw [hsplit]
    exact List.mem_append_right _ List.mem_cons_self
  exact huntracked (hkeyed.tracked hplan htable hentry)

end Plan

/-! ### Noted rows are gone -/

/-- Of the rows that are noted between two states, no rows and no link rows are left. -/
def Plan.Clears (plan : Plan) (state last : CascadeState) : Prop :=
  ∀ ⦃name : String⦄ ⦃table : Table⦄ ⦃id : Int⦄, plan.table? name = some table →
    table.keyColumns = ["id"] → (table.storage, [id]) ∉ state.scope.visited →
      (table.storage, [id]) ∈ last.scope.visited →
        (∀ row ∈ last.session.rowsOf name, row.integer? "id" ≠ some id) ∧
          ¬ plan.Linked last.session name id

namespace Plan.Clears

variable {plan : Plan} {state middle last : CascadeState}

theorem of_scope_eq (hscope : last.scope = state.scope) : plan.Clears state last := by
  intro name table id _ _ hnew hnoted
  rw [hscope] at hnoted
  exact absurd hnoted hnew

theorem trans (hfirst : plan.Clears state middle) (hsecond : plan.Clears middle last)
    (hwithin : last.session.Within middle.session) : plan.Clears state last := by
  intro name table id htable hkey hnew hnoted
  by_cases hmiddle : (table.storage, [id]) ∈ middle.scope.visited
  · obtain ⟨hgone, hfree⟩ := hfirst htable hkey hnew hmiddle
    exact ⟨fun row hrow ↦ hgone row (hwithin.mem hrow),
      fun hlinked ↦ hfree (hlinked.within hwithin)⟩
  · exact hsecond htable hkey hmiddle hnoted

end Plan.Clears

namespace Run

variable {plan : Plan} {depth : Nat} {task : Task} {state middle last : CascadeState}
  {stop : Option CascadeFault}

/-- When the directions of a row are cleared and no row has its key any more, nothing is left of the
rows that were noted. -/
theorem clears_of_clear (hplan : plan.Coherent) (hvalid : state.Valid plan) {name : String}
    {row : Row} {table : Table} (htable : plan.table? name = some table)
    (hclear : Run plan depth (.relations name row (plan.relationsOf name)) (state.add table row)
      none middle) (hclears : plan.Clears (state.add table row) middle)
    (hscope : last.scope = middle.scope) (hwithin : last.session.Within middle.session)
    (hgone : ∀ stored ∈ last.session.rowsOf name,
      table.integerKey stored ≠ table.integerKey row) : plan.Clears state last := by
  intro other otherTable id hother hkey hnew hnoted
  rw [hscope] at hnoted
  by_cases hadded : (otherTable.storage, [id]) ∈ (state.add table row).scope.visited
  · obtain ⟨key, hwhole, heq⟩ := (Scope.mem_visited_add.mp hadded).resolve_left hnew
    obtain rfl := hplan.storage_eq hother htable (Prod.mk.inj heq).1
    rw [htable] at hother
    cases hother
    have hid : row.integer? "id" = some id := by
      rw [← (Prod.mk.inj heq).2, Table.wholeKey?, hkey] at hwhole
      cases hown : row.integer? "id" with
      | none => simp [hown] at hwhole
      | some number => simpa [hown] using hwhole
    refine ⟨fun stored hstored hnumber ↦ hgone stored hstored ?_, fun hlinked ↦ ?_⟩
    · rw [Table.integerKey_of_id hkey hnumber, Table.integerKey_of_id hkey hid]
    · exact hclear.not_linked_of_clear hplan hvalid htable hid (hlinked.within hwithin)
  · obtain ⟨hfree, hunlinked⟩ := hclears hother hkey hadded hnoted
    exact ⟨fun stored hstored ↦ hfree stored (hwithin.mem hstored),
      fun hlinked ↦ hunlinked (hlinked.within hwithin)⟩

/-- A run that is not stopped leaves nothing of the rows that it noted. -/
theorem clears (hplan : plan.Coherent) (hrun : Run plan depth task state stop last)
    (hvalid : state.Valid plan) (hstop : stop = none) : plan.Clears state last := by
  induction hrun with
  | exhausted | stopped | missing | blocked | stuck | failed => cases hstop
  | noted | cleared | removed => exact .of_scope_eq rfl
  | @deleted depth name row state last table session htable hfits hnew hclear hdelete ih =>
    have hcleared : plan.Clears (state.add table row) last := by
      by_cases hkind : table.kind = .declared
      · exact ih (hvalid.add hplan htable hkind row) rfl
      · obtain ⟨-, rfl⟩ := hclear.eq_of_link hplan htable hkind
        exact .of_scope_eq rfl
    refine hclear.clears_of_clear hplan hvalid htable hcleared rfl
      (Session.within_of_delete hdelete) fun stored hstored hkey ↦ ?_
    exact ((Session.mem_of_delete_iff hdelete).mp hstored).2 ⟨(hplan.name_eq htable).symm, hkey⟩
  | next _ _ _ hlinks hrest ihlinks ihrest =>
    have hfirst := ihlinks (hvalid.log _) rfl
    exact Plan.Clears.trans hfirst (ihrest (hlinks.valid hplan (hvalid.log _)) hstop) hrest.within
  | cut _ hlooks hlink hrest ihlink ihrest =>
    have hasked := hvalid.looks hlooks
    exact ((Plan.Clears.of_scope_eq hlooks.scope_eq).trans (ihlink hasked rfl) hlink.within).trans
      (ihrest (hlink.valid hplan hasked) hstop) hrest.within
  | followed _ hlooks hlink htarget hrest ihlink ihtarget ihrest =>
    have hasked := hvalid.looks hlooks
    have hmiddle := hlink.valid hplan hasked
    exact (((Plan.Clears.of_scope_eq hlooks.scope_eq).trans (ihlink hasked rfl) hlink.within).trans
      (ihtarget hmiddle rfl) htarget.within).trans (ihrest (htarget.valid hplan hmiddle) hstop)
        hrest.within

end Run

/-! ### Only doomed rows go -/

namespace Plan

/-- Whether a row goes with doomed rows: it is one of them, or a link row that refers to one. -/
def Falls (plan : Plan) (doomed : String → Int → Prop) (name : String) (row : Row) : Prop :=
  (∃ id, row.integer? "id" = some id ∧ doomed name id) ∨
    ∃ entry ∈ plan.relationDeletes, entry.link = name ∧
      ∃ id, row.integer? entry.nearColumn = some id ∧ doomed entry.managing id

/-- Doomed rows are closed under ownership over the link rows of a session. -/
def Closed (plan : Plan) (session : Session) (doomed : String → Int → Prop) : Prop :=
  ∀ ⦃entry : RelationDelete⦄, entry ∈ plan.relationDeletes → entry.Owns →
    ∀ link ∈ session.rowsOf entry.link, ∀ near far, link.integer? entry.nearColumn = some near →
      link.integer? entry.farColumn = some far → doomed entry.managing near →
        ∀ row ∈ session.rowsOf entry.deleted, row.integer? "id" = some far →
          doomed entry.deleted far

/-- All rows that went between two states go with doomed rows. -/
def Explains (plan : Plan) (doomed : String → Int → Prop) (state last : CascadeState) : Prop :=
  ∀ ⦃name : String⦄, ∀ row ∈ state.session.rowsOf name, row ∉ last.session.rowsOf name →
    plan.Falls doomed name row

namespace Explains

variable {plan : Plan} {doomed : String → Int → Prop} {state middle last : CascadeState}

theorem of_rowsOf_eq (hrows : last.session.rowsOf = state.session.rowsOf) :
    plan.Explains doomed state last := by
  intro name row hbefore hafter
  rw [hrows] at hafter
  exact absurd hbefore hafter

theorem trans (hfirst : plan.Explains doomed state middle)
    (hsecond : plan.Explains doomed middle last) : plan.Explains doomed state last := by
  intro name row hbefore hafter
  by_cases hmiddle : row ∈ middle.session.rowsOf name
  · exact hsecond row hmiddle hafter
  · exact hfirst row hbefore hmiddle

end Explains

end Plan

/-- A task that begins at doomed rows. -/
def Task.Rooted (plan : Plan) (session : Session) (doomed : String → Int → Prop) : Task → Prop
  | .row name own => (∃ entry, entry ∈ plan.relationsOf name) ∧
      ∀ id, own.integer? "id" = some id → doomed name id
  | .relations name own _ => ∀ id, own.integer? "id" = some id → doomed name id
  | .links entry id listed => doomed entry.managing id ∧
      ∀ link ∈ listed, link ∈ session.rowsOf entry.link

namespace Run

variable {plan : Plan} {depth : Nat} {task : Task} {state asked middle last : CascadeState}
  {stop : Option CascadeFault} {session : Session} {doomed : String → Int → Prop}
  {entry : RelationDelete} {id : Int} {link target : Row} {rest : List Row}

/-- A link row of a doomed row goes with it. -/
theorem explains_link (hplan : plan.Coherent) (hvalid : state.Valid plan)
    (hrefers : plan.Refers entry id link) (hdoomed : doomed entry.managing id)
    {found : Option Row} (hlooks : plan.Looks entry link state found asked)
    (hlink : Run plan depth (.row entry.link link) asked stop middle) :
    plan.Explains doomed state middle := by
  intro name row hbefore hafter
  obtain ⟨table, htable, hshape⟩ := hplan.exists_link hrefers.entry_mem
  obtain ⟨helse, hkeys⟩ := hlink.rowsOf_of_link hplan htable hshape.kind
  rw [← hlooks.rowsOf_eq] at hbefore
  have hname : name = entry.link := by
    by_contra hname
    rw [helse name hname] at hafter
    exact hafter hbefore
  subst hname
  refine Or.inr ⟨entry, hrefers.entry_mem, rfl, id, ?_, hdoomed⟩
  rw [← hrefers.near]
  exact ((hvalid.looks hlooks).stores htable row hbefore).integer?_eq_of_integerKey_eq
    (hplan.shape htable) (hrefers.fits htable) (hkeys row hbefore hafter)
    (hshape.mem_key.mpr (Or.inl rfl))

/-- The row that a link row of a doomed row leads to is doomed. -/
theorem rooted_target (hplan : plan.Coherent) (hclosed : plan.Closed session doomed)
    (hwithin : state.session.Within session) (hrefers : plan.Refers entry id link)
    (hrooted : (Task.links entry id (link :: rest)).Rooted plan session doomed)
    (hlooks : plan.Looks entry link state (some target) asked) :
    (Task.row entry.deleted target).Rooted plan session doomed := by
  obtain ⟨howns, far, hfar, hfirst⟩ := hlooks.of_some
  obtain ⟨hstored, hid⟩ := Session.mem_targets_iff.mp (List.mem_of_head? hfirst)
  refine ⟨hplan.exists_mem_relationsOf_deleted hrefers.entry_mem, fun number hnumber ↦ ?_⟩
  rw [hid] at hnumber
  cases hnumber
  exact hclosed hrefers.entry_mem howns link (hrooted.2 link List.mem_cons_self) id far
    hrefers.near hfar hrooted.1 target (hwithin.mem hstored) hid

/-- A run from doomed rows takes out only what goes with doomed rows. Assumes: the doomed rows are
closed over the link rows of a session that the run began with or after. -/
theorem explains (hplan : plan.Coherent) (hclosed : plan.Closed session doomed)
    (hrun : Run plan depth task state stop last) (hvalid : state.Valid plan)
    (hwithin : state.session.Within session) (hrooted : task.Rooted plan session doomed) :
    plan.Explains doomed state last := by
  induction hrun with
  | exhausted | noted | cleared | removed => exact .of_rowsOf_eq rfl
  | @stopped depth name row state last table fault htable hfits hnew hclear ih =>
    have hkind := (hplan.of_mem_relationsOf htable hrooted.1.choose_spec).1
    exact ih (hvalid.add hplan htable hkind row) hwithin hrooted.2
  | @missing depth name row state last table fault htable hfits hnew hclear hdelete ih =>
    have hkind := (hplan.of_mem_relationsOf htable hrooted.1.choose_spec).1
    exact ih (hvalid.add hplan htable hkind row) hwithin hrooted.2
  | @deleted depth name row state last table session htable hfits hnew hclear hdelete ih =>
    obtain ⟨⟨entry, hentry⟩, hdoomed⟩ := hrooted
    obtain ⟨hkind, hinteger, hid⟩ := hplan.of_mem_relationsOf htable hentry
    intro other stored hbefore hafter
    by_cases hlast : stored ∈ last.session.rowsOf other
    · have hgone : other = name ∧ table.integerKey stored = table.integerKey row := by
        by_contra hkept
        rw [← hplan.name_eq htable] at hkept
        exact hafter ((Session.mem_of_delete_iff hdelete).mpr ⟨hlast, hkept⟩)
      obtain ⟨rfl, hkey⟩ := hgone
      obtain ⟨id, hown⟩ := hfits.exists_id (hplan.shape htable) hinteger
      refine Or.inl ⟨id, ?_, hdoomed id hown⟩
      rw [← hown]
      exact (hvalid.stores htable stored hbefore).integer?_eq_of_integerKey_eq
        (hplan.shape htable) hfits hkey hid
    · exact ih (hvalid.add hplan htable hkind row) hwithin hdoomed stored hbefore hlast
  | @blocked depth name row state last entry rest id table fault hentry hid htable hlinks ih =>
    refine ih (hvalid.log _) hwithin ⟨?_, fun link hlink ↦ ?_⟩
    · rw [(Plan.mem_relationsOf_iff.mp hentry).2]
      exact hrooted id hid
    · exact hwithin.mem (RelationDelete.mem_linksOf_iff.mp hlink).1
  | @next depth name row state middle last entry rest id table stop hentry hid _ hlinks _ ihlinks
      ihrest =>
    have hfirst := ihlinks (hvalid.log _) hwithin
      ⟨(Plan.mem_relationsOf_iff.mp hentry).2 ▸ hrooted id hid,
        fun link hlink ↦ hwithin.mem (RelationDelete.mem_linksOf_iff.mp hlink).1⟩
    exact Plan.Explains.trans hfirst
      (ihrest (hlinks.valid hplan (hvalid.log _)) (hwithin.trans hlinks.within) hrooted)
  | stuck hrefers hlooks hlink _ => exact explains_link hplan hvalid hrefers hrooted.1 hlooks hlink
  | failed hrefers hlooks hlink _ _ ihtarget =>
    have hasked := hvalid.looks hlooks
    exact (explains_link hplan hvalid hrefers hrooted.1 hlooks hlink).trans
      (ihtarget (hlink.valid hplan hasked) (hwithin.trans (hlooks.within.trans hlink.within))
        (rooted_target hplan hclosed hwithin hrefers hrooted hlooks))
  | cut hrefers hlooks hlink _ _ ihrest =>
    have hasked := hvalid.looks hlooks
    exact (explains_link hplan hvalid hrefers hrooted.1 hlooks hlink).trans
      (ihrest (hlink.valid hplan hasked) (hwithin.trans (hlooks.within.trans hlink.within))
        ⟨hrooted.1, fun other hother ↦ hrooted.2 other (List.mem_cons_of_mem _ hother)⟩)
  | followed hrefers hlooks hlink htarget _ _ ihtarget ihrest =>
    have hasked := hvalid.looks hlooks
    have hmiddle := hlink.valid hplan hasked
    have hless := hwithin.trans (hlooks.within.trans hlink.within)
    exact ((explains_link hplan hvalid hrefers hrooted.1 hlooks hlink).trans
      (ihtarget hmiddle hless (rooted_target hplan hclosed hwithin hrefers hrooted hlooks))).trans
      (ihrest (htarget.valid hplan hmiddle) (hless.trans htarget.within)
        ⟨hrooted.1, fun other hother ↦ hrooted.2 other (List.mem_cons_of_mem _ hother)⟩)

end Run

/-! ### Deletes one after the other -/

/-- What holds of the states before and after deletes in one scope: rows went by permitted
operations, tracked rows that went were noted, link rows that went lead to rows that were seen, and
nothing is left of the rows that were noted. -/
structure Plan.Progress (plan : Plan) (state last : CascadeState) : Prop where
  acts : plan.Acts state.session last.session
  notes : plan.Notes state last
  covers : plan.Covers state last fun _ _ ↦ False
  clears : plan.Clears state last

namespace Plan.Progress

variable {plan : Plan} {state middle last : CascadeState}

theorem refl (plan : Plan) (state : CascadeState) : plan.Progress state state :=
  ⟨.refl, .of_rowsOf_eq rfl rfl, .of_rowsOf_eq rfl, .of_scope_eq rfl⟩

theorem trans (hfirst : plan.Progress state middle) (hsecond : plan.Progress middle last) :
    plan.Progress state last :=
  ⟨hfirst.acts.trans hsecond.acts, hfirst.notes.trans hsecond.notes,
    hfirst.covers.trans hsecond.covers hsecond.acts.within hsecond.notes.visited,
    hfirst.clears.trans hsecond.clears hsecond.acts.within⟩

end Plan.Progress

namespace Run

variable {plan : Plan} {depth : Nat} {state last : CascadeState} {stop : Option CascadeFault}
  {name : String} {table : Table} {row : Row}

/-- A delete makes progress, also if its row is missing. -/
theorem progress (hplan : plan.Coherent) (hdirect : plan.Direct) (hvalid : state.Valid plan)
    (htable : plan.table? name = some table) (hrelated : ∃ entry, entry ∈ plan.relationsOf name)
    (hrun : Run plan depth (.row name row) state stop last) (hfuel : stop ≠ some .exhausted) :
    plan.Progress state last := by
  have hacts := hrun.acts hplan hvalid
  have hnotes := hrun.notes hplan hvalid.stores
  have hname := hplan.name_eq htable
  have hkind := (hplan.of_mem_relationsOf htable hrelated.choose_spec).1
  have hadded := hvalid.add hplan htable hkind row
  rcases hrun.row_cases hplan hdirect hvalid htable hrelated hfuel with
    ⟨-, -, rfl⟩ | ⟨-, shallow, middle, hclear, hend⟩
  · exact Plan.Progress.refl plan last
  have hcovers : plan.Covers (state.add table row) middle fun other number ↦
      other = name ∧ row.integer? "id" = some number := hclear.covers hplan hadded.stores rfl
  have hclears := hclear.clears hplan hadded rfl
  rcases hend with ⟨-, session, hdelete, rfl⟩ | ⟨fault, -, hdelete, rfl⟩
  · have hgone : ∀ stored ∈ session.rowsOf name,
        table.integerKey stored ≠ table.integerKey row := fun stored hstored hkey ↦
      ((Session.mem_of_delete_iff hdelete).mp hstored).2 ⟨hname.symm, hkey⟩
    refine ⟨hacts, hnotes, ?_, ?_⟩
    · refine hcovers.of_clear hplan htable hkind rfl (Session.within_of_delete hdelete)
        (fun other hother ↦ ?_) hgone
      exact Session.rowsOf_of_delete_of_ne hdelete (hname.symm ▸ hother)
    · exact hclear.clears_of_clear hplan hvalid htable hclears rfl
        (Session.within_of_delete hdelete) hgone
  · have hgone := (Session.delete_eq_error hdelete).2
    rw [hname] at hgone
    exact ⟨hacts, hnotes,
      hcovers.of_clear hplan htable hkind rfl (Session.Within.refl _) (fun _ _ ↦ rfl) hgone,
      hclear.clears_of_clear hplan hvalid htable hclears rfl (Session.Within.refl _) hgone⟩

/-- A row whose delete began is noted then, where its number is its key. -/
theorem mem_visited_of_row (hplan : plan.Coherent) (hdirect : plan.Direct)
    (hvalid : state.Valid plan) (htable : plan.table? name = some table)
    (hrelated : ∃ entry, entry ∈ plan.relationsOf name) (hkey : table.keyColumns = ["id"])
    {id : Int} (hid : row.integer? "id" = some id)
    (hrun : Run plan depth (.row name row) state stop last) (hfuel : stop ≠ some .exhausted) :
    (table.storage, [id]) ∈ last.scope.visited := by
  have hwhole := Table.wholeKey?_of_id hkey hid
  rcases hrun.row_cases hplan hdirect hvalid htable hrelated hfuel with
    ⟨hnoted, -, rfl⟩ | ⟨-, shallow, middle, hclear, hend⟩
  · exact (Scope.noted_iff_of_id hkey hid).mp hnoted
  · have hmiddle : (table.storage, [id]) ∈ middle.scope.visited :=
      hclear.visited_subset (Scope.mem_visited_add.mpr (Or.inr ⟨_, hwhole, rfl⟩))
    rcases hend with ⟨-, session, -, rfl⟩ | ⟨fault, -, -, rfl⟩ <;> exact hmiddle

end Run

/-- The rows with a number of a table with directions are noted, where the number is their key. -/
def CascadeState.Visits (plan : Plan) (state : CascadeState) (name : String) (id : Int) : Prop :=
  ∃ table, plan.table? name = some table ∧ (∃ entry, entry ∈ plan.relationsOf name) ∧
    (table.storage, [id]) ∈ state.scope.visited

theorem CascadeState.Visits.mono {plan : Plan} {state last : CascadeState} {name : String}
    {id : Int} (hvisits : state.Visits plan name id)
    (hvisited : state.scope.visited ⊆ last.scope.visited) : last.Visits plan name id := by
  obtain ⟨table, htable, hrelated, hmember⟩ := hvisits
  exact ⟨table, htable, hrelated, hvisited hmember⟩

/-! ### The rows that must go -/

namespace Schema

/-- The rows that must go with some rows of a session: a row that goes takes with it the rows that
it owns over the link rows of the session. -/
inductive Doomed (schema : Schema) (session : Session) (root : String → Int → Prop) :
    String → Int → Prop where
  | root {name : String} {id : Int} (hroot : root name id) : Doomed schema session root name id
  | owned {source target entity : String} {near far : Int} {link row : Row}
      (hsource : Doomed schema session root source near)
      (howns : schema.graph.owns source target = true)
      (hentity : schema.graph.linkEntity? source target = some entity)
      (hlink : link ∈ session.rowsOf entity)
      (hnear : link.integer? (Name.key (Name.lower source)) = some near)
      (hfar : link.integer? (Name.key (Name.lower target)) = some far)
      (hrow : row ∈ session.rowsOf target) (hid : row.integer? "id" = some far) :
      Doomed schema session root target far

/-- Whether a row is one of those that must go, or a link row one of whose keys refers to such a
row. -/
def Falls (schema : Schema) (session : Session) (root : String → Int → Prop) (name : String)
    (row : Row) : Prop :=
  (∃ id, row.integer? "id" = some id ∧ schema.Doomed session root name id) ∨
    ∃ table left right, schema.table? name = some table ∧ table.kind = .link left right ∧
      ∃ side ∈ [left, right], ∃ id, row.integer? (Name.key (Name.lower side)) = some id ∧
        schema.Doomed session root side id

end Schema

namespace Accepted

variable {schema : Schema} {plan : Plan} {session : Session} {root : String → Int → Prop}

theorem closed_doomed (haccepted : Accepted schema plan) :
    plan.Closed session (schema.Doomed session root) := by
  intro entry hentry howns link hlink near far hnear hfar hdoomed row hrow hid
  exact .owned hdoomed (haccepted.owns_iff.mpr ⟨entry, hentry, rfl, rfl, howns⟩)
    (haccepted.linkEntity?_iff.mpr ⟨entry, hentry, rfl, rfl, rfl⟩) hlink hnear hfar hrow hid

theorem falls_of_falls (haccepted : Accepted schema plan) {name : String} {row : Row}
    (hfalls : plan.Falls (schema.Doomed session root) name row) :
    schema.Falls session root name row := by
  rcases hfalls with hdoomed | ⟨entry, hentry, rfl, id, hid, hdoomed⟩
  · exact Or.inl hdoomed
  · obtain ⟨table, htable, hkind, -⟩ := (haccepted.coherent.resolves hentry).link
    rw [haccepted.table?_eq] at htable
    rcases hkind with hkind | hkind
    · exact Or.inr ⟨table, _, _, htable, hkind, entry.managing, List.mem_cons_self, id, hid,
        hdoomed⟩
    · exact Or.inr ⟨table, _, _, htable, hkind, entry.managing,
        List.mem_cons_of_mem _ List.mem_cons_self, id, hid, hdoomed⟩

/-- The rows that must go are noted in the end. Assumes: progress was made from a state with an
empty scope, and the rows to delete are noted. -/
theorem mem_visited_of_doomed (haccepted : Accepted schema plan) (hkeyed : plan.IdKeyed)
    {last : CascadeState} (hprogress : plan.Progress { session := session } last)
    (hroots : ∀ name id, root name id → last.Visits plan name id)
    {name : String} {id : Int} (hdoomed : schema.Doomed session root name id) :
    last.Visits plan name id := by
  have hplan := haccepted.coherent
  induction hdoomed with
  | root hroot => exact hroots _ _ hroot
  | @owned source target entity near far link row hsource howns hentity hlink hnear hfar hrow hid
      ih =>
    obtain ⟨sourceTable, hsourceTable, hrelated, hvisited⟩ := ih
    obtain ⟨entry, hentry, rfl, rfl, hentryOwns⟩ := haccepted.owns_iff.mp howns
    obtain ⟨twin, htwin, hmanaging, hdeleted, rfl⟩ := haccepted.linkEntity?_iff.mp hentity
    obtain rfl := hplan.unique htwin hentry hmanaging hdeleted
    obtain ⟨back, hback⟩ := hplan.exists_mem_relationsOf_deleted hentry
    obtain ⟨table, htable, -⟩ := hplan.exists_deleted hentry
    refine ⟨table, htable, ⟨back, hback⟩, ?_⟩
    have hkey := hkeyed htable ⟨back, hback⟩
    -- the owner has no link rows left, so the link row went, and the row it leads to was seen
    have hunlinked := (hprogress.clears hsourceTable (hkeyed hsourceTable hrelated)
      List.not_mem_nil hvisited).2
    have hgone : link ∉ last.session.rowsOf twin.link := fun hleft ↦
      hunlinked ⟨twin, Plan.mem_relationsOf_iff.mpr ⟨hentry, rfl⟩, link, hleft, hnear⟩
    have hseen := (hprogress.covers hentry hentryOwns link hlink hgone far hfar).resolve_left
      not_false
    by_cases hleft : row ∈ last.session.rowsOf twin.deleted
    · have hmember : row ∈ last.session.targets twin.deleted far :=
        Session.mem_targets_iff.mpr ⟨hleft, hid⟩
      refine (hseen htable hkey).resolve_left fun hnone ↦ ?_
      rw [hnone] at hmember
      exact List.not_mem_nil hmember
    · have htracked := hkeyed.tracked hplan htable hback
      exact (Scope.noted_iff_of_id hkey hid).mp
        (hprogress.notes.removed htable htracked row hrow hleft).2

/-- Deletes in one scope take out exactly what must go. -/
theorem mem_iff_not_falls (haccepted : Accepted schema plan) (hkeyed : plan.IdKeyed)
    {last : CascadeState} (hprogress : plan.Progress { session := session } last)
    (hexplains : plan.Explains (schema.Doomed session root) { session := session } last)
    (hroots : ∀ name id, root name id → last.Visits plan name id)
    {name : String} {row : Row} (hrow : row ∈ session.rowsOf name) :
    row ∈ last.session.rowsOf name ↔ ¬ schema.Falls session root name row := by
  constructor
  · rintro hleft (⟨id, hid, hdoomed⟩ | ⟨table, left, right, htable, hkind, side, hside, id, hid,
      hdoomed⟩)
    · obtain ⟨table, htable, hrelated, hvisited⟩ :=
        haccepted.mem_visited_of_doomed hkeyed hprogress hroots hdoomed
      exact (hprogress.clears htable (hkeyed htable hrelated) List.not_mem_nil hvisited).1 row hleft
        hid
    · obtain ⟨sideTable, hsideTable, hrelated, hvisited⟩ :=
        haccepted.mem_visited_of_doomed hkeyed hprogress hroots hdoomed
      obtain ⟨entry, hentry, rfl⟩ := haccepted.exists_entry_of_side htable hkind hside
      refine (hprogress.clears hsideTable (hkeyed hsideTable hrelated) List.not_mem_nil hvisited).2
        ⟨entry, hentry, row, hleft, ?_⟩
      rw [RelationDelete.nearColumn, (Plan.mem_relationsOf_iff.mp hentry).2]
      exact hid
  · intro hstays
    by_contra hgone
    exact hstays (haccepted.falls_of_falls (hexplains row hrow hgone))

open Classical in
/-- What is left after deletes in one scope: the rows that need not go, in their order. -/
theorem rowsOf_eq_filter (haccepted : Accepted schema plan) (hkeyed : plan.IdKeyed)
    {last : CascadeState} (hprogress : plan.Progress { session := session } last)
    (hexplains : plan.Explains (schema.Doomed session root) { session := session } last)
    (hroots : ∀ name id, root name id → last.Visits plan name id)
    (name : String) : last.session.rowsOf name =
      (session.rowsOf name).filter fun row ↦ ¬ schema.Falls session root name row := by
  refine hprogress.acts.within.rowsOf_eq fun row hrow ↦ ?_
  rw [decide_eq_true_iff]
  exact haccepted.mem_iff_not_falls hkeyed hprogress hexplains hroots hrow

/-- What an accepted schema says about keys, said of its plan. -/
theorem idKeyed (haccepted : Accepted schema plan)
    (hkeys : ∀ name table, schema.table? name = some table → schema.Related name →
      table.keyColumns = ["id"]) : plan.IdKeyed := fun name table htable hrelated ↦
  hkeys name table (haccepted.table?_eq name ▸ htable) (haccepted.related_iff.mpr hrelated)

/-- How a delete ends, where the number of a row is its key: it reports what it did if a row with the
number is stored, and otherwise that this row is missing. -/
theorem outcome_of_delete (haccepted : Accepted schema plan) (hkeyed : plan.IdKeyed)
    (hstores : plan.Stores session) {name : String} {table : Table} {row : Row} {id : Int}
    (htable : plan.table? name = some table) (hrelated : ∃ entry, entry ∈ plan.relationsOf name)
    (hfits : row.Fits table) (hid : row.integer? "id" = some id)
    {outcome : Except CascadeFault (Option Deleted)} {last : CascadeState}
    (hanswer : (plan.delete name row).runOn { session := session } = (outcome, last)) :
    ((∃ deleted, outcome = .ok (some deleted)) ↔
        ∃ stored ∈ session.rowsOf name, stored.integer? "id" = some id) ∧
      ((¬ ∃ stored ∈ session.rowsOf name, stored.integer? "id" = some id) →
        outcome = .error (.missing ⟨table.storage, [id]⟩)) := by
  have hplan := haccepted.coherent
  have hdirect := hkeyed.direct hplan
  have hvalid := hstores.valid
  have hkey := hkeyed htable hrelated
  obtain ⟨hrun, hfuel⟩ := hplan.run_delete hvalid htable hfits hanswer
  have hnew : ¬ ({} : Scope).Noted table row := fun ⟨_, _, hmember⟩ ↦ List.not_mem_nil hmember
  by_cases hfound : ∃ stored ∈ session.rowsOf name, stored.integer? "id" = some id
  · obtain ⟨stored, hstored, hnumber⟩ := hfound
    have hsame : table.integerKey stored = table.integerKey row := by
      rw [Table.integerKey_of_id hkey hnumber, Table.integerKey_of_id hkey hid]
    have hdone := hrun.stop_eq_none hplan hdirect hvalid htable hrelated
      (Or.inl ⟨stored, hstored, hsame⟩) hfuel
    cases outcome with
    | error fault => cases hdone
    | ok result =>
      obtain ⟨deleted, rfl⟩ := Cascade.exists_deleted_of_deleteRow htable hnew hrelated hanswer
      exact ⟨⟨fun _ ↦ ⟨stored, hstored, hnumber⟩, fun _ ↦ ⟨deleted, rfl⟩⟩,
        fun habsent ↦ absurd ⟨stored, hstored, hnumber⟩ habsent⟩
  · have habsent : ∀ stored ∈ session.rowsOf name,
        table.integerKey stored ≠ table.integerKey row := by
      intro stored hstored hsame
      obtain ⟨-, -, hmember⟩ := hplan.of_mem_relationsOf htable hrelated.choose_spec
      refine hfound ⟨stored, hstored, ?_⟩
      rw [← hid]
      exact (hstores htable stored hstored).integer?_eq_of_integerKey_eq (hplan.shape htable) hfits
        hsame hmember
    have hmissing :=
      hrun.stop_eq_missing hplan hdirect hvalid htable hrelated habsent hnew hfuel
    rw [Table.integerKey_of_id hkey hid] at hmissing
    cases outcome with
    | ok result => cases hmissing
    | error fault =>
      cases hmissing
      refine ⟨⟨?_, fun hstored ↦ absurd hstored hfound⟩, fun _ ↦ rfl⟩
      rintro ⟨deleted, hok⟩
      cases hok

open Classical in
/-- A delete takes out exactly what must go. Assumes: an accepted schema in which `id` is the only
key column of every table that takes part in a relation, a session of rows that fit their tables,
and a row of such a table. With an empty scope, the delete leaves the rows of every table in their
order, less the rows that must go with the row and the link rows that refer to one of them. It
reports what it did if a row with the number is stored, and otherwise that this row is missing. -/
theorem rowsOf_delete_eq_filter (haccepted : Accepted schema plan)
    (hkeys : ∀ name table, schema.table? name = some table → schema.Related name →
      table.keyColumns = ["id"])
    (hstores : plan.Stores session) {name : String} {table : Table} {row : Row} {id : Int}
    (htable : schema.table? name = some table) (hrelated : schema.Related name)
    (hfits : row.Fits table) (hid : row.integer? "id" = some id) :
    ∃ outcome last, (plan.delete name row).runOn { session := session } = (outcome, last) ∧
      (∀ other, last.session.rowsOf other = (session.rowsOf other).filter fun stored ↦
        ¬ schema.Falls session (fun source number ↦ source = name ∧ number = id) other stored) ∧
      ((∃ deleted, outcome = .ok (some deleted)) ↔
        ∃ stored ∈ session.rowsOf name, stored.integer? "id" = some id) ∧
      ((¬ ∃ stored ∈ session.rowsOf name, stored.integer? "id" = some id) →
        outcome = .error (.missing ⟨table.storage, [id]⟩)) := by
  have hplan := haccepted.coherent
  have hkeyed := haccepted.idKeyed hkeys
  have hdirect := hkeyed.direct hplan
  have hentries := haccepted.related_iff.mp hrelated
  have hvalid := hstores.valid
  rcases hanswer : (plan.delete name row).runOn { session := session } with ⟨outcome, last⟩
  have hget : plan.table? name = some table := haccepted.table?_eq name ▸ htable
  obtain ⟨hrun, hfuel⟩ := hplan.run_delete hvalid hget hfits hanswer
  have hprogress := hrun.progress hplan hdirect hvalid hget hentries hfuel
  refine ⟨outcome, last, rfl, ?_,
    haccepted.outcome_of_delete hkeyed hstores hget hentries hfits hid hanswer⟩
  refine haccepted.rowsOf_eq_filter hkeyed hprogress ?_ ?_
  · refine hrun.explains hplan haccepted.closed_doomed hvalid (Session.Within.refl _)
      ⟨hentries, fun number hnumber ↦ .root ⟨rfl, ?_⟩⟩
    exact Option.some.inj (hnumber.symm.trans hid)
  · rintro source number ⟨rfl, rfl⟩
    exact ⟨table, hget, hentries, hrun.mem_visited_of_row hplan hdirect hvalid hget hentries
      (hkeyed hget hentries) hid hfuel⟩

open Classical in
/-- An author is deleted with two books and the other author. -/
theorem rowsOf_delete_eq_filter_sample :
    Sample.plan.Stores Sample.session ∧ Sample.schema.Related "Author" ∧
      ∃ (table : Table) (outcome : _) (last : _),
        (Sample.plan.delete "Author" (Sample.author 1)).runOn { session := Sample.session } =
          (outcome, last) ∧
        (∀ other, last.session.rowsOf other = (Sample.session.rowsOf other).filter fun stored ↦
          ¬ Sample.schema.Falls Sample.session (fun source number ↦ source = "Author" ∧ number = 1)
            other stored) ∧
        ((∃ deleted, outcome = .ok (some deleted)) ↔
          ∃ stored ∈ Sample.session.rowsOf "Author", stored.integer? "id" = some 1) ∧
        ((¬ ∃ stored ∈ Sample.session.rowsOf "Author", stored.integer? "id" = some 1) →
          outcome = .error (.missing ⟨table.storage, [1]⟩)) := by
  have hstores : Sample.plan.Stores Sample.session := by decide +kernel
  have hrelated : Sample.schema.Related "Author" := by decide +kernel
  obtain ⟨table, htable, hfits⟩ := Sample.exists_author
  exact ⟨hstores, hrelated, table, Sample.accepted.rowsOf_delete_eq_filter Sample.keyed hstores
    htable hrelated hfits (by decide)⟩

end Accepted

/-! ### Deletes in any order -/

/-- A row of a table that takes part in a relation, where the session has a row with its number. -/
def Schema.Deletable (schema : Schema) (session : Session) (call : String × Row) : Prop :=
  ∃ table, schema.table? call.1 = some table ∧ schema.Related call.1 ∧ call.2.Fits table ∧
    ∃ stored ∈ session.rowsOf call.1, stored.integer? "id" = call.2.integer? "id"

instance (schema : Schema) (session : Session) (call : String × Row) :
    Decidable (schema.Deletable session call) :=
  decidable_of_iff (∃ table ∈ schema.table? call.1, schema.Related call.1 ∧ call.2.Fits table ∧
    ∃ stored ∈ session.rowsOf call.1, stored.integer? "id" = call.2.integer? "id") Iff.rfl

/-- The rows that some calls ask for. -/
def rootsOf (calls : List (String × Row)) (name : String) (id : Int) : Prop :=
  ∃ call ∈ calls, call.1 = name ∧ call.2.integer? "id" = some id

/-- The calls one after the other, in one scope. -/
def Plan.deleteAll (plan : Plan) (calls : List (String × Row)) : Cascade (List (Option Deleted)) :=
  calls.mapM fun call ↦ plan.delete call.1 call.2

namespace Accepted

variable {schema : Schema} {plan : Plan} {session : Session}

/-- One more delete in a scope succeeds and makes progress. Assumes: the row was stored at the
start. -/
theorem exists_delete (haccepted : Accepted schema plan) (hkeyed : plan.IdKeyed)
    {doomed : String → Int → Prop} (hclosed : plan.Closed session doomed) {state : CascadeState}
    (hvalid : state.Valid plan) (hprogress : plan.Progress { session := session } state)
    {call : String × Row}
    (hcall : schema.Deletable session call)
    (hdoomed : ∀ id, call.2.integer? "id" = some id → doomed call.1 id) :
    ∃ result last, (plan.delete call.1 call.2).runOn state = (.ok result, last) ∧
      last.Valid plan ∧ plan.Progress state last ∧ plan.Explains doomed state last ∧
      ∀ id, call.2.integer? "id" = some id → last.Visits plan call.1 id := by
  have hplan := haccepted.coherent
  have hdirect := hkeyed.direct hplan
  obtain ⟨table, htable, hrelated, hfits, stored, hstored, hnumber⟩ := hcall
  rw [← haccepted.table?_eq] at htable
  obtain ⟨entry, hentry⟩ := haccepted.related_iff.mp hrelated
  have hkey := hkeyed htable ⟨entry, hentry⟩
  obtain ⟨id, hid⟩ := hfits.exists_id (hplan.shape htable)
    (hplan.of_mem_relationsOf htable hentry).2.1
  rw [hid] at hnumber
  rcases hanswer : (plan.delete call.1 call.2).runOn state with ⟨outcome, last⟩
  obtain ⟨hrun, hfuel⟩ := hplan.run_delete hvalid htable hfits hanswer
  -- the stored row is still there, or it was noted when it went
  have hfound : (∃ other ∈ state.session.rowsOf call.1,
      table.integerKey other = table.integerKey call.2) ∨ state.scope.Noted table call.2 := by
    by_cases hleft : stored ∈ state.session.rowsOf call.1
    · refine Or.inl ⟨stored, hleft, ?_⟩
      rw [Table.integerKey_of_id hkey hnumber, Table.integerKey_of_id hkey hid]
    · have htracked := hkeyed.tracked hplan htable hentry
      have hnoted := (hprogress.notes.removed htable htracked stored hstored hleft).2
      rw [Scope.noted_iff_of_id hkey hnumber] at hnoted
      exact Or.inr ((Scope.noted_iff_of_id hkey hid).mpr hnoted)
  have hdone := hrun.stop_eq_none hplan hdirect hvalid htable ⟨entry, hentry⟩ hfound hfuel
  cases outcome with
  | error fault => cases hdone
  | ok result =>
    refine ⟨result, last, rfl, hrun.valid hplan hvalid,
      hrun.progress hplan hdirect hvalid htable ⟨entry, hentry⟩ hfuel, ?_, ?_⟩
    · exact hrun.explains hplan hclosed hvalid hprogress.acts.within ⟨⟨entry, hentry⟩, hdoomed⟩
    · intro number hown
      exact ⟨table, htable, ⟨entry, hentry⟩,
        hrun.mem_visited_of_row hplan hdirect hvalid htable ⟨entry, hentry⟩ hkey hown hfuel⟩

/-- Deletes in one scope succeed and make progress. -/
theorem exists_deleteAll (haccepted : Accepted schema plan) (hkeyed : plan.IdKeyed)
    {doomed : String → Int → Prop} (hclosed : plan.Closed session doomed)
    {calls : List (String × Row)} : ∀ {state : CascadeState},
    state.Valid plan → plan.Progress { session := session } state →
    plan.Explains doomed { session := session } state →
    (∀ call ∈ calls, schema.Deletable session call) →
    (∀ name id, rootsOf calls name id → doomed name id) →
      ∃ results last, (plan.deleteAll calls).runOn state = (.ok results, last) ∧
        plan.Progress { session := session } last ∧ plan.Progress state last ∧
        plan.Explains doomed { session := session } last ∧
        ∀ name id, rootsOf calls name id → last.Visits plan name id := by
  induction calls with
  | nil =>
    intro state _ hprogress hexplains _ _
    refine ⟨[], state, rfl, hprogress, Plan.Progress.refl plan state, hexplains, ?_⟩
    rintro name id ⟨call, hcall, -⟩
    exact absurd hcall List.not_mem_nil
  | cons call rest ih =>
    intro state hvalid hprogress hexplains hcalls hroots
    obtain ⟨result, middle, hfirst, hmiddle, hstep, hexplained, hnoted⟩ :=
      haccepted.exists_delete hkeyed hclosed hvalid hprogress
        (hcalls call List.mem_cons_self) fun id hid ↦
          hroots call.1 id ⟨call, List.mem_cons_self, rfl, hid⟩
    obtain ⟨results, last, hrest, hlast, hmore, hexplainsLast, hnotedRest⟩ :=
      ih hmiddle (hprogress.trans hstep) (hexplains.trans hexplained)
        (fun other hother ↦ hcalls other (List.mem_cons_of_mem call hother))
        fun name id ⟨other, hother, hroot⟩ ↦
          hroots name id ⟨other, List.mem_cons_of_mem call hother, hroot⟩
    refine ⟨result :: results, last, ?_, hlast, hstep.trans hmore, hexplainsLast, ?_⟩
    · unfold Plan.deleteAll at hrest ⊢
      rw [List.mapM_cons, Cascade.runOn_bind, hfirst]
      dsimp only
      rw [Cascade.runOn_bind, hrest]
      rfl
    · rintro name id ⟨other, hother, hname, hid⟩
      rcases List.mem_cons.mp hother with rfl | hother
      · subst hname
        exact (hnoted id hid).mono hmore.notes.visited
      · exact hnotedRest name id ⟨other, hother, hname, hid⟩

/-- Deletes in one scope succeed in any order, and leave the same rows in the same order. Assumes:
an accepted schema in which `id` is the only key column of every table that takes part in a
relation, a session of rows that fit their tables, and rows of such tables whose numbers are
stored. -/
theorem rowsOf_deletes_eq_of_perm (haccepted : Accepted schema plan)
    (hkeys : ∀ name table, schema.table? name = some table → schema.Related name →
      table.keyColumns = ["id"])
    (hstores : plan.Stores session) {calls others : List (String × Row)}
    (hcalls : ∀ call ∈ calls, schema.Deletable session call) (hperm : calls.Perm others) :
    ∃ results last otherResults otherLast,
      (plan.deleteAll calls).runOn { session := session } = (.ok results, last) ∧
      (plan.deleteAll others).runOn { session := session } = (.ok otherResults, otherLast) ∧
      ∀ name, last.session.rowsOf name = otherLast.session.rowsOf name := by
  have hkeyed := haccepted.idKeyed hkeys
  have hroots : rootsOf others = rootsOf calls := by
    ext name id
    exact exists_congr fun call ↦ and_congr_left fun _ ↦ hperm.symm.mem_iff
  have hstart := Plan.Progress.refl plan { session := session }
  have hothers : ∀ call ∈ others, schema.Deletable session call := fun call hcall ↦
    hcalls call (hperm.mem_iff.mpr hcall)
  obtain ⟨results, last, hrun, hprogress, -, hexplains, hnoted⟩ :=
    haccepted.exists_deleteAll hkeyed haccepted.closed_doomed hstores.valid hstart
      (.of_rowsOf_eq rfl) hcalls fun name id hroot ↦ Schema.Doomed.root hroot
  obtain ⟨otherResults, otherLast, hotherRun, hotherProgress, -, hotherExplains, hotherNoted⟩ :=
    haccepted.exists_deleteAll hkeyed haccepted.closed_doomed hstores.valid hstart
      (.of_rowsOf_eq rfl) hothers fun name id hroot ↦ Schema.Doomed.root (hroots ▸ hroot)
  refine ⟨results, last, otherResults, otherLast, hrun, hotherRun, fun name ↦ ?_⟩
  rw [haccepted.rowsOf_eq_filter hkeyed hprogress hexplains hnoted,
    haccepted.rowsOf_eq_filter hkeyed hotherProgress hotherExplains (hroots ▸ hotherNoted)]

/-- An author and a book that goes with the author are deleted in both orders. -/
theorem rowsOf_deletes_eq_of_perm_sample :
    ∃ results last otherResults otherLast,
      (Sample.plan.deleteAll [("Author", Sample.author 1), ("Book", Sample.book 2)]).runOn
        { session := Sample.session } = (.ok results, last) ∧
      (Sample.plan.deleteAll [("Book", Sample.book 2), ("Author", Sample.author 1)]).runOn
        { session := Sample.session } = (.ok otherResults, otherLast) ∧
      ∀ name, last.session.rowsOf name = otherLast.session.rowsOf name := by
  have hstores : Sample.plan.Stores Sample.session := by decide +kernel
  have hcalls : ∀ call ∈ [("Author", Sample.author 1), ("Book", Sample.book 2)],
      Sample.schema.Deletable Sample.session call := by decide +kernel
  exact Sample.accepted.rowsOf_deletes_eq_of_perm Sample.keyed hstores hcalls (.swap _ _ _)

end Accepted

end SchemaCompiler
