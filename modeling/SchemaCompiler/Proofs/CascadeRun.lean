import SchemaCompiler.Proofs.StoreShape

/-!
# Runs of a delete

A delete is a recursion over three kinds of tasks: a row to delete, the directions of a row that are
still to be cleared, and the link rows of a direction that were listed and are still to be removed
(`Task`). `Run` is the relation between the state before and after a task, with the fault if it
stopped. Each rule is one way in which a task goes on; the names of accessors and columns that the
procedures look up are resolved in it, so a listing is the list of the stored link rows
(`RelationDelete.linksOf`) and the row that a link row leads to is the first stored row with its
number (`Plan.Looks`).

Every delete of a coherent plan is such a run (`Cascade.run_deleteRow`). What holds of all runs is
proved by induction over the rules.
-/

set_option autoImplicit false
set_option relaxedAutoImplicit false

namespace SchemaCompiler

namespace CascadeState

/-- Logs an operation. -/
def log (state : CascadeState) (operation : Operation) : CascadeState :=
  { state with session := state.session.note operation }

/-- Notes a row. -/
def add (state : CascadeState) (table : Table) (row : Row) : CascadeState :=
  { state with scope := state.scope.add table row }

end CascadeState

/-- A part of a delete. -/
inductive Task where
  /-- Delete a row of a table. -/
  | row (name : String) (row : Row)
  /-- Clear directions of a row of a table. -/
  | relations (name : String) (row : Row) (entries : List RelationDelete)
  /-- Remove listed link rows of a direction, all of which refer to one row. -/
  | links (entry : RelationDelete) (id : Int) (links : List Row)

/-- The row that a link row leads to, if the managing side of the direction owns the other one: the
first stored row with its number. Only then the session is asked for it. -/
inductive Plan.Looks (plan : Plan) (entry : RelationDelete) (link : Row) (state : CascadeState) :
    Option Row → CascadeState → Prop where
  | unowned (hfree : ¬ entry.Owns) : plan.Looks entry link state none state
  | owned {table : Table} {far : Int} (howns : entry.Owns)
      (htable : plan.table? entry.deleted = some table)
      (hfar : link.integer? entry.farColumn = some far) :
      plan.Looks entry link state (state.session.targets entry.deleted far).head?
        (state.log (.select table.storage "id" far))

/-- A link row of a direction that refers to a number on the managing side. -/
structure Plan.Refers (plan : Plan) (entry : RelationDelete) (id : Int) (link : Row) : Prop where
  entry_mem : entry ∈ plan.relationDeletes
  near : link.integer? entry.nearColumn = some id
  fits : ∀ {table : Table}, plan.table? entry.link = some table → link.Fits table

theorem Plan.Refers.exists_far {plan : Plan} (hplan : plan.Coherent) {entry : RelationDelete}
    {id : Int} {link : Row} (hrefers : plan.Refers entry id link) :
    ∃ far, link.integer? entry.farColumn = some far := by
  obtain ⟨table, htable, hlink⟩ := hplan.exists_link hrefers.entry_mem
  rw [← Option.isSome_iff_exists]
  exact (hrefers.fits htable).isSome_of_tracked (hplan.shape htable) hlink.tracked
    (hlink.mem_key.mpr (Or.inr rfl))

/-- How a task goes, at most `depth` rows deep: the state before it, the fault if it stops, and the
state after it. -/
inductive Run (plan : Plan) :
    Nat → Task → CascadeState → Option CascadeFault → CascadeState → Prop where
  /-- There is no depth left. -/
  | exhausted {name : String} {row : Row} {state : CascadeState} :
      Run plan 0 (.row name row) state (some .exhausted) state
  /-- A noted row is left alone. -/
  | noted {depth : Nat} {name : String} {row : Row} {state : CascadeState} {table : Table}
      (htable : plan.table? name = some table) (hfits : row.Fits table)
      (hnoted : state.scope.Noted table row) : Run plan (depth + 1) (.row name row) state none state
  /-- A direction of the row cannot be cleared. -/
  | stopped {depth : Nat} {name : String} {row : Row} {state last : CascadeState} {table : Table}
      {fault : CascadeFault} (htable : plan.table? name = some table) (hfits : row.Fits table)
      (hnew : ¬ state.scope.Noted table row)
      (hclear : Run plan depth (.relations name row (plan.relationsOf name)) (state.add table row)
        (some fault) last) : Run plan (depth + 1) (.row name row) state (some fault) last
  /-- All directions are cleared, but the row is not stored. -/
  | missing {depth : Nat} {name : String} {row : Row} {state last : CascadeState} {table : Table}
      {fault : MissingRow} (htable : plan.table? name = some table) (hfits : row.Fits table)
      (hnew : ¬ state.scope.Noted table row)
      (hclear : Run plan depth (.relations name row (plan.relationsOf name)) (state.add table row)
        none last) (hdelete : last.session.delete table row = .error fault) :
      Run plan (depth + 1) (.row name row) state (some (.missing fault)) last
  /-- All directions are cleared, and the row is removed. -/
  | deleted {depth : Nat} {name : String} {row : Row} {state last : CascadeState} {table : Table}
      {session : Session} (htable : plan.table? name = some table) (hfits : row.Fits table)
      (hnew : ¬ state.scope.Noted table row)
      (hclear : Run plan depth (.relations name row (plan.relationsOf name)) (state.add table row)
        none last) (hdelete : last.session.delete table row = .ok session) :
      Run plan (depth + 1) (.row name row) state none { last with session := session }
  /-- No direction is left. -/
  | cleared {depth : Nat} {name : String} {row : Row} {state : CascadeState} :
      Run plan depth (.relations name row []) state none state
  /-- A listed link row of the first direction cannot be removed. -/
  | blocked {depth : Nat} {name : String} {row : Row} {state last : CascadeState}
      {entry : RelationDelete} {rest : List RelationDelete} {id : Int} {table : Table}
      {fault : CascadeFault} (hentry : entry ∈ plan.relationsOf name)
      (hid : row.integer? "id" = some id) (htable : plan.table? entry.link = some table)
      (hlinks : Run plan depth (.links entry id (entry.linksOf state.session id))
        (state.log (.select table.storage entry.nearColumn id)) (some fault) last) :
      Run plan depth (.relations name row (entry :: rest)) state (some fault) last
  /-- The first direction is cleared, and the others follow. -/
  | next {depth : Nat} {name : String} {row : Row} {state middle last : CascadeState}
      {entry : RelationDelete} {rest : List RelationDelete} {id : Int} {table : Table}
      {stop : Option CascadeFault} (hentry : entry ∈ plan.relationsOf name)
      (hid : row.integer? "id" = some id) (htable : plan.table? entry.link = some table)
      (hlinks : Run plan depth (.links entry id (entry.linksOf state.session id))
        (state.log (.select table.storage entry.nearColumn id)) none middle)
      (hrest : Run plan depth (.relations name row rest) middle stop last) :
      Run plan depth (.relations name row (entry :: rest)) state stop last
  /-- No link row is left. -/
  | removed {depth : Nat} {entry : RelationDelete} {id : Int} {state : CascadeState} :
      Run plan depth (.links entry id []) state none state
  /-- The first link row cannot be removed. -/
  | stuck {depth : Nat} {entry : RelationDelete} {id : Int} {link : Row} {rest : List Row}
      {state asked last : CascadeState} {target : Option Row} {fault : CascadeFault}
      (hrefers : plan.Refers entry id link) (hlooks : plan.Looks entry link state target asked)
      (hlink : Run plan depth (.row entry.link link) asked (some fault) last) :
      Run plan depth (.links entry id (link :: rest)) state (some fault) last
  /-- The first link row is removed, but the row it led to cannot be deleted. -/
  | failed {depth : Nat} {entry : RelationDelete} {id : Int} {link target : Row} {rest : List Row}
      {state asked middle last : CascadeState} {fault : CascadeFault}
      (hrefers : plan.Refers entry id link)
      (hlooks : plan.Looks entry link state (some target) asked)
      (hlink : Run plan depth (.row entry.link link) asked none middle)
      (htarget : Run plan depth (.row entry.deleted target) middle (some fault) last) :
      Run plan depth (.links entry id (link :: rest)) state (some fault) last
  /-- The first link row is removed and leads to no row to delete, and the others follow. -/
  | cut {depth : Nat} {entry : RelationDelete} {id : Int} {link : Row} {rest : List Row}
      {state asked middle last : CascadeState} {stop : Option CascadeFault}
      (hrefers : plan.Refers entry id link) (hlooks : plan.Looks entry link state none asked)
      (hlink : Run plan depth (.row entry.link link) asked none middle)
      (hrest : Run plan depth (.links entry id rest) middle stop last) :
      Run plan depth (.links entry id (link :: rest)) state stop last
  /-- The first link row is removed and the row it led to is deleted, and the others follow. -/
  | followed {depth : Nat} {entry : RelationDelete} {id : Int} {link target : Row}
      {rest : List Row} {state asked middle after last : CascadeState} {stop : Option CascadeFault}
      (hrefers : plan.Refers entry id link)
      (hlooks : plan.Looks entry link state (some target) asked)
      (hlink : Run plan depth (.row entry.link link) asked none middle)
      (htarget : Run plan depth (.row entry.deleted target) middle none after)
      (hrest : Run plan depth (.links entry id rest) after stop last) :
      Run plan depth (.links entry id (link :: rest)) state stop last

/-! ### What every run keeps -/

theorem Plan.Looks.rowsOf_eq {plan : Plan} {entry : RelationDelete} {link : Row}
    {state asked : CascadeState} {target : Option Row}
    (hlooks : plan.Looks entry link state target asked) :
    asked.session.rowsOf = state.session.rowsOf := by
  cases hlooks <;> rfl

theorem Plan.Looks.scope_eq {plan : Plan} {entry : RelationDelete} {link : Row}
    {state asked : CascadeState} {target : Option Row}
    (hlooks : plan.Looks entry link state target asked) : asked.scope = state.scope := by
  cases hlooks <;> rfl

/-- A link row that leads to a row is one of a direction with ownership. -/
theorem Plan.Looks.of_some {plan : Plan} {entry : RelationDelete} {link target : Row}
    {state asked : CascadeState} (hlooks : plan.Looks entry link state (some target) asked) :
    entry.Owns ∧ ∃ far, link.integer? entry.farColumn = some far ∧
      (state.session.targets entry.deleted far).head? = some target := by
  generalize htarget : some target = found at hlooks ⊢
  cases hlooks with
  | unowned => cases htarget
  | owned howns _ hfar => exact ⟨howns, _, hfar, rfl⟩

/-- A link row of a direction with ownership that leads to no row has a number that no stored row
has. -/
theorem Plan.Looks.of_none {plan : Plan} {entry : RelationDelete} {link : Row}
    {state asked : CascadeState} (hlooks : plan.Looks entry link state none asked)
    (howns : entry.Owns) : ∃ far, link.integer? entry.farColumn = some far ∧
      (state.session.targets entry.deleted far).head? = none := by
  generalize (none : Option Row) = found at hlooks ⊢
  cases hlooks with
  | unowned hfree => exact absurd howns hfree
  | owned _ _ hfar => exact ⟨_, hfar, rfl⟩

theorem Plan.Looks.within {plan : Plan} {entry : RelationDelete} {link : Row}
    {state asked : CascadeState} {target : Option Row}
    (hlooks : plan.Looks entry link state target asked) : asked.session.Within state.session := by
  intro name
  rw [hlooks.rowsOf_eq]
  exact Session.Within.refl state.session name

theorem Plan.Stores.looks {plan : Plan} {entry : RelationDelete} {link : Row}
    {state asked : CascadeState} {target : Option Row} (hstores : plan.Stores state.session)
    (hlooks : plan.Looks entry link state target asked) : plan.Stores asked.session :=
  hstores.within hlooks.within

namespace Run

variable {plan : Plan} {depth : Nat} {task : Task} {state last : CascadeState}
  {stop : Option CascadeFault}

/-- A run only takes rows out. -/
theorem within (hrun : Run plan depth task state stop last) :
    last.session.Within state.session := by
  induction hrun with
  | exhausted | noted | cleared | removed => exact Session.Within.refl _
  | stopped _ _ _ _ ih => exact ih
  | missing _ _ _ _ _ ih => exact ih
  | deleted _ _ _ _ hdelete ih => exact ih.trans (Session.within_of_delete hdelete)
  | blocked _ _ _ _ ih => exact ih
  | next _ _ _ _ _ ihlinks ihrest => exact ihlinks.trans ihrest
  | stuck _ hlooks _ ih => exact hlooks.within.trans ih
  | failed _ hlooks _ _ ihlink ihtarget =>
    exact (hlooks.within.trans ihlink).trans ihtarget
  | cut _ hlooks _ _ ihlink ihrest =>
    exact (hlooks.within.trans ihlink).trans ihrest
  | followed _ hlooks _ _ _ ihlink ihtarget ihrest =>
    exact ((hlooks.within.trans ihlink).trans ihtarget).trans
      ihrest

/-- What is noted stays noted. -/
theorem visited_subset (hrun : Run plan depth task state stop last) :
    state.scope.visited ⊆ last.scope.visited := by
  induction hrun with
  | exhausted | noted | cleared | removed => exact List.Subset.refl _
  | stopped _ _ _ _ ih => exact List.Subset.trans (Scope.visited_subset_add _ _ _) ih
  | missing _ _ _ _ _ ih => exact List.Subset.trans (Scope.visited_subset_add _ _ _) ih
  | deleted _ _ _ _ _ ih => exact List.Subset.trans (Scope.visited_subset_add _ _ _) ih
  | blocked _ _ _ _ ih => exact ih
  | next _ _ _ _ _ ihlinks ihrest => exact List.Subset.trans ihlinks ihrest
  | stuck _ hlooks _ ih => exact hlooks.scope_eq ▸ ih
  | failed _ hlooks _ _ ihlink ihtarget => exact hlooks.scope_eq ▸ List.Subset.trans ihlink ihtarget
  | cut _ hlooks _ _ ihlink ihrest => exact hlooks.scope_eq ▸ List.Subset.trans ihlink ihrest
  | followed _ hlooks _ _ _ ihlink ihtarget ihrest =>
    exact hlooks.scope_eq ▸ List.Subset.trans (List.Subset.trans ihlink ihtarget) ihrest

end Run

/-! ### Deletes are runs -/

namespace Cascade

variable {Result Item : Type}

/-- The outcome of a part of a delete and the state after it. -/
def runOn (part : Cascade Result) (state : CascadeState) :
    Except CascadeFault Result × CascadeState := part.run.run state

/-- The fault at which a part stopped. -/
def stop? : Except CascadeFault Result → Option CascadeFault
  | .ok _ => none
  | .error fault => some fault

theorem runOn_bind (part : Cascade Item) (next : Item → Cascade Result) (state : CascadeState) :
    runOn (part >>= next) state =
      match runOn part state with
      | (.ok item, middle) => runOn (next item) middle
      | (.error fault, middle) => (.error fault, middle) := by
  unfold runOn
  rw [ExceptT.run_bind, StateT.run_bind]
  generalize part.run.run state = answer
  rcases answer with ⟨_ | _, _⟩ <;> rfl

/-- Two parts one after the other: the first one stops, or the second one goes on from where the
first one ended. -/
theorem bind_cases {part : Cascade Item} {next : Item → Cascade Result}
    {state last : CascadeState} {outcome : Except CascadeFault Result}
    (hrun : runOn (part >>= next) state = (outcome, last)) :
    (∃ fault, outcome = .error fault ∧ runOn part state = (.error fault, last)) ∨
      ∃ item middle, runOn part state = (.ok item, middle) ∧
        runOn (next item) middle = (outcome, last) := by
  rw [runOn_bind] at hrun
  rcases hpart : runOn part state with ⟨fault | item, middle⟩
  · rw [hpart] at hrun
    cases hrun
    exact Or.inl ⟨fault, rfl, rfl⟩
  · rw [hpart] at hrun
    exact Or.inr ⟨item, middle, rfl, hrun⟩

/-- Two parts that succeed one after the other. -/
theorem exists_of_bind_ok {part : Cascade Item} {next : Item → Cascade Result}
    {state last : CascadeState} {result : Result}
    (hrun : runOn (part >>= next) state = (.ok result, last)) :
    ∃ item middle, runOn part state = (.ok item, middle) ∧
      runOn (next item) middle = (.ok result, last) := by
  rcases bind_cases hrun with ⟨fault, hfault, -⟩ | hboth
  · cases hfault
  · exact hboth

/-- Two parts of which one stops. -/
theorem bind_error_cases {part : Cascade Item} {next : Item → Cascade Result}
    {state last : CascadeState} {fault : CascadeFault}
    (hrun : runOn (part >>= next) state = (.error fault, last)) :
    runOn part state = (.error fault, last) ∨
      ∃ item middle, runOn part state = (.ok item, middle) ∧
        runOn (next item) middle = (.error fault, last) := by
  rcases bind_cases hrun with ⟨stop, hstop, hpart⟩ | hboth
  · cases hstop
    exact Or.inl hpart
  · exact Or.inr hboth

theorem runOn_discard (part : Cascade Result) (state : CascadeState) :
    runOn (discard part) state =
      match runOn part state with
      | (.ok _, middle) => (.ok ⟨⟩, middle)
      | (.error fault, middle) => (.error fault, middle) := by
  unfold discard
  rw [map_const, Function.comp_apply, map_eq_pure_bind, runOn_bind]
  rfl

theorem runOn_remove (table : Table) (row : Row) (state : CascadeState) :
    runOn (remove table row) state =
      match state.session.delete table row with
      | .ok session => (.ok (), { state with session := session })
      | .error fault => (.error (.missing fault), state) := by
  unfold remove
  rw [runOn_bind]
  change runOn (match state.session.delete table row with
    | .ok session => set { state with session := session }
    | .error fault => throw (.missing fault)) state = _
  cases state.session.delete table row <;> rfl

theorem runOn_select (table : Table) (column : String) (value : Int) (state : CascadeState) :
    runOn (select table column value) state =
      (.ok ((state.session.rowsOf table.name).filter fun row ↦ row.integer? column == some value),
        state.log (.select table.storage column value)) := rfl

theorem runOn_visit_of_noted {table : Table} {row : Row} {state : CascadeState}
    (hnoted : state.scope.Noted table row) :
    runOn (visit table row) state = (.ok false, state) := by
  change (Except.ok (state.scope.visit table row).1,
    { state with scope := (state.scope.visit table row).2 }) = _
  rw [Scope.visit_of_noted hnoted]

theorem runOn_visit_of_not_noted {table : Table} {row : Row} {state : CascadeState}
    (hnew : ¬ state.scope.Noted table row) :
    runOn (visit table row) state = (.ok true, state.add table row) := by
  change (Except.ok (state.scope.visit table row).1,
    { state with scope := (state.scope.visit table row).2 }) = _
  rw [Scope.visit_of_not_noted hnew]
  rfl

end Cascade

theorem Plan.exists_tablePlan {plan : Plan} {name : String} {table : Table}
    (htable : plan.table? name = some table) :
    ∃ found, plan.tables.get? name = some found ∧ found.table = table :=
  Option.map_eq_some_iff.mp htable

namespace Cascade

variable {Item : Type} {plan : Plan} {depth : Nat}
  {delete : String → Row → Cascade (Option Deleted)}

/-- Whether a procedure deletes rows as runs of a depth do. -/
def Deletes (plan : Plan) (depth : Nat) (delete : String → Row → Cascade (Option Deleted)) : Prop :=
  ∀ ⦃name : String⦄ ⦃table : Table⦄ ⦃row : Row⦄ ⦃state last : CascadeState⦄
    ⦃outcome : Except CascadeFault (Option Deleted)⦄, plan.table? name = some table →
    row.Fits table → plan.Stores state.session →
    runOn (delete name row) state = (outcome, last) →
      Run plan depth (.row name row) state (stop? outcome) last

theorem looks_followLink (hplan : plan.Coherent) {entry : RelationDelete} {accessor : Accessor}
    (haccessor : entry.owned.bind (accessor? plan entry.link) = some accessor) {id : Int}
    {link : Row} (hrefers : plan.Refers entry id link) (state : CascadeState) :
    ∃ target asked, runOn (followLink plan accessor link) state = (.ok target, asked) ∧
      plan.Looks entry link state target asked := by
  obtain ⟨name, howned, hname⟩ := Option.bind_eq_some_iff.mp haccessor
  obtain ⟨linkTable, hlinkTable, -, hleads⟩ := (hplan.resolves hrefers.entry_mem).link
  obtain ⟨inverse, hget⟩ := hleads name howned
  obtain ⟨table, htable, -⟩ := hplan.exists_deleted hrefers.entry_mem
  obtain ⟨far, hfar⟩ := hrefers.exists_far hplan
  obtain ⟨linkPlan, hlinkPlan, rfl⟩ := Plan.exists_tablePlan hlinkTable
  obtain ⟨found, hfound, rfl⟩ := Plan.exists_tablePlan htable
  have heq : accessor = ⟨entry.deleted, false, entry.farColumn, inverse⟩ := by
    rw [accessor?, hlinkPlan] at hname
    exact Option.some.inj (hname.symm.trans hget)
  have howns : entry.Owns := by
    unfold RelationDelete.Owns
    rw [howned]
    rfl
  refine ⟨_, _, ?_, Plan.Looks.owned howns htable hfar⟩
  subst heq
  unfold followLink
  dsimp only
  rw [hfound, hfar]
  dsimp only
  rw [runOn_bind, runOn_select, hplan.name_eq htable]
  rfl

/-- The collection of a direction lists the stored link rows. -/
theorem exists_listLinks (hplan : plan.Coherent) {entry : RelationDelete}
    (hentry : entry ∈ plan.relationDeletes) {row : Row} {id : Int}
    (hid : row.integer? "id" = some id) :
    ∃ accessor table, accessor? plan entry.managing entry.collection = some accessor ∧
      plan.table? entry.link = some table ∧ ∀ state, runOn (listLinks plan accessor row) state =
        (.ok (entry.linksOf state.session id),
          state.log (.select table.storage entry.nearColumn id)) := by
  obtain ⟨near, inverse, hnear, -, -, hget⟩ := (hplan.resolves hentry).near
  obtain ⟨table, htable, -⟩ := hplan.exists_link hentry
  obtain ⟨nearPlan, hnearPlan, rfl⟩ := Plan.exists_tablePlan hnear
  obtain ⟨found, hfound, rfl⟩ := Plan.exists_tablePlan htable
  refine ⟨⟨entry.link, true, entry.nearColumn, inverse⟩, found.table, ?_, htable, fun state ↦ ?_⟩
  · rw [accessor?, hnearPlan]
    exact hget
  · unfold listLinks
    dsimp only
    rw [hfound, hid]
    dsimp only
    rw [runOn_select, hplan.name_eq htable]
    rfl

/-- Clearing a direction lists the link rows and removes them. -/
theorem runOn_unlinkRow (hplan : plan.Coherent) {name : String} {entry : RelationDelete}
    (hentry : entry ∈ plan.relationsOf name) {row : Row} {id : Int}
    (hid : row.integer? "id" = some id) (state : CascadeState) :
    ∃ table, plan.table? entry.link = some table ∧
      runOn (unlinkRow plan delete row entry) state =
        runOn (unlink plan delete entry (entry.linksOf state.session id))
          (state.log (.select table.storage entry.nearColumn id)) := by
  obtain ⟨hmember, -⟩ := Plan.mem_relationsOf_iff.mp hentry
  obtain ⟨accessor, table, haccessor, htable, hlist⟩ := exists_listLinks hplan hmember hid
  refine ⟨table, htable, ?_⟩
  unfold unlinkRow
  dsimp only
  rw [haccessor]
  dsimp only
  rw [runOn_bind, hlist]

/-- How one of the listed link rows is handled: a stop is a stop of the list, and otherwise the rest
of the list goes on from there. -/
def Handles (plan : Plan) (depth : Nat) (entry : RelationDelete) (id : Int) (link : Row)
    (state : CascadeState) (last : CascadeState) : Option CascadeFault → Prop
  | some fault => ∀ rest, Run plan depth (.links entry id (link :: rest)) state (some fault) last
  | none => ∀ rest stop final, Run plan depth (.links entry id rest) last stop final →
      Run plan depth (.links entry id (link :: rest)) state stop final

/-- Handling the listed link rows in turn is a run. -/
theorem run_mapM {entry : RelationDelete} {id : Int} {step : Row → Cascade Item}
    (hstep : ∀ link state outcome last, plan.Refers entry id link → plan.Stores state.session →
      runOn (step link) state = (outcome, last) →
        Handles plan depth entry id link state last (stop? outcome)) {links : List Row} :
    ∀ {state last : CascadeState} {outcome : Except CascadeFault (List Item)},
    (∀ link ∈ links, plan.Refers entry id link) → plan.Stores state.session →
    runOn (links.mapM step) state = (outcome, last) →
      Run plan depth (.links entry id links) state (stop? outcome) last := by
  induction links with
  | nil =>
    intro state last outcome _ _ hrun
    cases hrun
    exact Run.removed
  | cons link rest ih =>
    intro state last outcome hrefers hstores hrun
    have hlink := hrefers link List.mem_cons_self
    have hothers : ∀ other ∈ rest, plan.Refers entry id other := fun other hother ↦
      hrefers other (List.mem_cons_of_mem link hother)
    rw [List.mapM_cons] at hrun
    rcases bind_cases hrun with ⟨fault, rfl, hfirst⟩ | ⟨item, middle, hfirst, hrest⟩
    · exact hstep _ _ _ _ hlink hstores hfirst rest
    have hhandles := hstep _ _ _ _ hlink hstores hfirst
    have hmiddle := hstores.within (hhandles [] none middle Run.removed).within
    rcases bind_cases hrest with ⟨fault, rfl, hstop⟩ | ⟨items, final, hitems, hpure⟩
    · exact hhandles rest _ _ (ih hothers hmiddle hstop)
    · cases hpure
      exact hhandles rest none _ (ih hothers hmiddle hitems)

theorem forM_eq_mapM (step : Item → Cascade PUnit) (items : List Item) :
    items.forM step = items.mapM step >>= fun _ ↦ pure ⟨⟩ := by
  induction items with
  | nil => simp
  | cons item rest ih =>
    change (step item >>= fun _ ↦ rest.forM step) = _
    rw [ih, List.mapM_cons]
    simp only [bind_assoc, pure_bind]

/-- Removes a link row and deletes the row that it leads to. -/
def cascadeLink (plan : Plan) (delete : String → Row → Cascade (Option Deleted))
    (entry : RelationDelete) (accessor : Accessor) (link : Row) : Cascade LinkOutcome := do
  let target ← followLink plan accessor link
  let linkOutcome ← delete entry.link link
  let targetOutcome ← match target with
    | some row => delete entry.deleted row
    | none => pure none
  return LinkOutcome.pair linkOutcome targetOutcome

/-- The link entity has the accessor that a direction with ownership follows. -/
theorem isSome_accessor?_iff_owns (hplan : plan.Coherent) {entry : RelationDelete}
    (hentry : entry ∈ plan.relationDeletes) :
    (entry.owned.bind (accessor? plan entry.link)).isSome ↔ entry.Owns := by
  unfold RelationDelete.Owns
  cases howned : entry.owned with
  | none => exact Iff.rfl
  | some name =>
    obtain ⟨table, htable, -, hleads⟩ := (hplan.resolves hentry).link
    obtain ⟨inverse, hget⟩ := hleads name howned
    obtain ⟨found, hfound, rfl⟩ := Plan.exists_tablePlan htable
    rw [Option.bind_some, accessor?, hfound, Option.bind_some, hget]
    exact Iff.rfl

/-- Without ownership, the listed link rows are removed. -/
theorem unlink_eq_of_none {entry : RelationDelete}
    (hnone : entry.owned.bind (accessor? plan entry.link) = none) (links : List Row) :
    unlink plan delete entry links =
      links.mapM (fun link ↦ discard (delete entry.link link)) >>= fun _ ↦
        pure (.unlinked entry.lower) := by
  unfold unlink
  rw [hnone]
  dsimp only
  rw [forM_eq_mapM, bind_assoc]
  simp only [pure_bind]

/-- With ownership, the listed link rows are removed with the rows that they lead to. -/
theorem unlink_eq_of_some {entry : RelationDelete} {accessor : Accessor}
    (haccessor : entry.owned.bind (accessor? plan entry.link) = some accessor) (links : List Row) :
    unlink plan delete entry links =
      links.mapM (cascadeLink plan delete entry accessor) >>= fun outcomes ↦
        pure (.cascaded entry.lower outcomes) := by
  unfold unlink
  rw [haccessor]
  rfl

theorem handles_unowned (hplan : plan.Coherent) (hdelete : Deletes plan depth delete)
    {entry : RelationDelete} (hfree : ¬ entry.Owns) {id : Int} {link : Row}
    {state last : CascadeState} {outcome : Except CascadeFault PUnit}
    (hrefers : plan.Refers entry id link) (hstores : plan.Stores state.session)
    (hrun : runOn (discard (delete entry.link link)) state = (outcome, last)) :
    Handles plan depth entry id link state last (stop? outcome) := by
  obtain ⟨table, htable, -⟩ := hplan.exists_link hrefers.entry_mem
  rw [runOn_discard] at hrun
  rcases hlink : runOn (delete entry.link link) state with ⟨fault | done, middle⟩
  · rw [hlink] at hrun
    cases hrun
    have hstop := hdelete htable (hrefers.fits htable) hstores hlink
    exact fun rest ↦ Run.stuck hrefers (.unowned hfree) hstop
  · rw [hlink] at hrun
    cases hrun
    have hcut := hdelete htable (hrefers.fits htable) hstores hlink
    exact fun rest stop final hrest ↦ Run.cut hrefers (.unowned hfree) hcut hrest

/-- The row that a link row leads to fits its table. -/
theorem fits_of_looks {entry : RelationDelete} {link target : Row} {state asked : CascadeState}
    (hstores : plan.Stores state.session)
    (hlooks : plan.Looks entry link state (some target) asked) {table : Table}
    (htable : plan.table? entry.deleted = some table) : target.Fits table := by
  obtain ⟨-, far, -, hfirst⟩ := hlooks.of_some
  exact hstores htable target (Session.mem_targets_iff.mp (List.mem_of_head? hfirst)).1

theorem handles_owned (hplan : plan.Coherent) (hdelete : Deletes plan depth delete)
    {entry : RelationDelete} {accessor : Accessor}
    (haccessor : entry.owned.bind (accessor? plan entry.link) = some accessor) {id : Int}
    {link : Row} {state last : CascadeState} {outcome : Except CascadeFault LinkOutcome}
    (hrefers : plan.Refers entry id link) (hstores : plan.Stores state.session)
    (hrun : runOn (cascadeLink plan delete entry accessor link) state = (outcome, last)) :
    Handles plan depth entry id link state last (stop? outcome) := by
  unfold cascadeLink at hrun
  obtain ⟨table, htable, -⟩ := hplan.exists_link hrefers.entry_mem
  obtain ⟨deleted, hdeleted, -⟩ := hplan.exists_deleted hrefers.entry_mem
  obtain ⟨target, asked, hfollow, hlooks⟩ := looks_followLink hplan haccessor hrefers state
  have hasked := hstores.looks hlooks
  rw [runOn_bind, hfollow] at hrun
  dsimp only at hrun
  rcases bind_cases hrun with ⟨fault, rfl, hfirst⟩ | ⟨linkOutcome, middle, hfirst, hmore⟩
  · have hstop := hdelete htable (hrefers.fits htable) hasked hfirst
    exact fun rest ↦ Run.stuck hrefers hlooks hstop
  have hcut := hdelete htable (hrefers.fits htable) hasked hfirst
  cases target with
  | none =>
    cases hmore
    exact fun rest stop final hrest ↦ Run.cut hrefers hlooks hcut hrest
  | some row =>
    have hfits := fits_of_looks hstores hlooks hdeleted
    have hmiddle := hasked.within hcut.within
    rcases bind_cases hmore with ⟨fault, rfl, hsecond⟩ | ⟨targetOutcome, after, hsecond, hpure⟩
    · have hstop := hdelete hdeleted hfits hmiddle hsecond
      exact fun rest ↦ Run.failed hrefers hlooks hcut hstop
    · cases hpure
      have hdone := hdelete hdeleted hfits hmiddle hsecond
      exact fun rest stop final hrest ↦ Run.followed hrefers hlooks hcut hdone hrest

/-- Removing listed link rows is a run. -/
theorem run_unlink (hplan : plan.Coherent) (hdelete : Deletes plan depth delete)
    {entry : RelationDelete} {id : Int} {links : List Row} {state last : CascadeState}
    {outcome : Except CascadeFault RelationOutcome} (hentry : entry ∈ plan.relationDeletes)
    (hrefers : ∀ link ∈ links, plan.Refers entry id link) (hstores : plan.Stores state.session)
    (hrun : runOn (unlink plan delete entry links) state = (outcome, last)) :
    Run plan depth (.links entry id links) state (stop? outcome) last := by
  cases haccessor : entry.owned.bind (accessor? plan entry.link) with
  | none =>
    have hfree : ¬ entry.Owns := by
      rw [← isSome_accessor?_iff_owns hplan hentry, haccessor]
      exact Bool.false_ne_true
    have hstep : ∀ link state outcome last, plan.Refers entry id link →
        plan.Stores state.session → _ →
          Handles plan depth entry id link state last (stop? outcome) :=
      fun link state outcome last hlink hstored hone ↦
        handles_unowned hplan hdelete hfree hlink hstored hone
    rw [unlink_eq_of_none haccessor] at hrun
    rcases bind_cases hrun with ⟨fault, rfl, hfirst⟩ | ⟨outcomes, middle, hfirst, hpure⟩
    · exact run_mapM hstep hrefers hstores hfirst
    · cases hpure
      exact run_mapM hstep hrefers hstores hfirst
  | some accessor =>
    have hstep : ∀ link state outcome last, plan.Refers entry id link →
        plan.Stores state.session → _ →
          Handles plan depth entry id link state last (stop? outcome) :=
      fun link state outcome last hlink hstored hone ↦
        handles_owned hplan hdelete haccessor hlink hstored hone
    rw [unlink_eq_of_some haccessor] at hrun
    rcases bind_cases hrun with ⟨fault, rfl, hfirst⟩ | ⟨outcomes, middle, hfirst, hpure⟩
    · exact run_mapM hstep hrefers hstores hfirst
    · cases hpure
      exact run_mapM hstep hrefers hstores hfirst

/-- Clearing directions of a row is a run. -/
theorem run_unlinkRow (hplan : plan.Coherent) (hdelete : Deletes plan depth delete)
    {name : String} {row : Row} {id : Int} (hid : row.integer? "id" = some id)
    {entries : List RelationDelete} : ∀ {state last : CascadeState}
    {outcome : Except CascadeFault (List RelationOutcome)},
    (∀ entry ∈ entries, entry ∈ plan.relationsOf name) → plan.Stores state.session →
    runOn (entries.mapM (unlinkRow plan delete row)) state = (outcome, last) →
      Run plan depth (.relations name row entries) state (stop? outcome) last := by
  induction entries with
  | nil =>
    intro state last outcome _ _ hrun
    cases hrun
    exact Run.cleared
  | cons entry rest ih =>
    intro state last outcome hentries hstores hrun
    have hentry := hentries entry List.mem_cons_self
    have hmember := (Plan.mem_relationsOf_iff.mp hentry).1
    obtain ⟨table, htable, hlist⟩ := runOn_unlinkRow hplan hentry hid state
    have hrefers : ∀ link ∈ entry.linksOf state.session id, plan.Refers entry id link := by
      intro link hlink
      obtain ⟨hstored, hnear⟩ := RelationDelete.mem_linksOf_iff.mp hlink
      exact ⟨hmember, hnear, fun hget ↦ hstores hget link hstored⟩
    have hlisted : plan.Stores (state.log (.select table.storage entry.nearColumn id)).session :=
      hstores.within (Session.within_note _ _)
    rw [List.mapM_cons] at hrun
    rcases bind_cases hrun with ⟨fault, rfl, hfirst⟩ | ⟨item, middle, hfirst, hrest⟩
    · rw [hlist] at hfirst
      exact Run.blocked hentry hid htable (run_unlink hplan hdelete hmember hrefers hlisted hfirst)
    · rw [hlist] at hfirst
      have hlinks := run_unlink hplan hdelete hmember hrefers hlisted hfirst
      have hmiddle : plan.Stores middle.session := hstores.within hlinks.within
      have hothers : ∀ other ∈ rest, other ∈ plan.relationsOf name := fun other hother ↦
        hentries other (List.mem_cons_of_mem entry hother)
      rcases bind_cases hrest with ⟨fault, rfl, hstop⟩ | ⟨items, final, hitems, hpure⟩
      · exact Run.next hentry hid htable hlinks (ih hothers hmiddle hstop)
      · cases hpure
        have hothersRun : Run plan depth (.relations name row rest) middle none last :=
          ih hothers hmiddle hitems
        exact Run.next hentry hid htable hlinks hothersRun

/-- After its directions are cleared, a row is removed or found missing. -/
theorem run_remove {name : String} {table : Table} {row : Row} {state middle last : CascadeState}
    {result : Option Deleted} {outcome : Except CascadeFault (Option Deleted)}
    (htable : plan.table? name = some table) (hfits : row.Fits table)
    (hnew : ¬ state.scope.Noted table row)
    (hclear : Run plan depth (.relations name row (plan.relationsOf name)) (state.add table row)
      none middle)
    (hrun : runOn (remove table row >>= fun _ ↦ pure result) middle = (outcome, last)) :
    Run plan (depth + 1) (.row name row) state (stop? outcome) last := by
  rw [runOn_bind, runOn_remove] at hrun
  cases hdelete : middle.session.delete table row with
  | error fault =>
    rw [hdelete] at hrun
    cases hrun
    exact Run.missing htable hfits hnew hclear hdelete
  | ok session =>
    rw [hdelete] at hrun
    cases hrun
    exact Run.deleted htable hfits hnew hclear hdelete

/-- Every delete of a row that fits its table is a run. -/
theorem run_deleteRow (hplan : plan.Coherent) (depth : Nat) :
    Deletes plan depth (deleteRow plan depth) := by
  induction depth with
  | zero =>
    intro name table row state last outcome _ _ _ hrun
    cases hrun
    exact Run.exhausted
  | succ depth ih =>
    intro name table row state last outcome htable hfits hstores hrun
    obtain ⟨found, hfound, rfl⟩ := Plan.exists_tablePlan htable
    rw [deleteRow, hfound] at hrun
    dsimp only at hrun
    by_cases hnoted : state.scope.Noted found.table row
    · rw [runOn_bind, runOn_visit_of_noted hnoted] at hrun
      dsimp only at hrun
      have hdone : (outcome, last) = (.ok none, state) := by
        rw [← hrun]
        split <;> rfl
      cases hdone
      exact Run.noted htable hfits hnoted
    · rw [runOn_bind, runOn_visit_of_not_noted hnoted] at hrun
      dsimp only at hrun
      rw [if_pos rfl, if_pos rfl] at hrun
      split at hrun
      next hempty =>
        have hclear : Run plan depth (.relations name row (plan.relationsOf name))
            (state.add found.table row) none (state.add found.table row) := by
          rw [List.isEmpty_iff.mp hempty]
          exact Run.cleared
        exact run_remove htable hfits hnoted hclear hrun
      next hrelated =>
        have hid : ∃ id, row.integer? "id" = some id := by
          obtain ⟨entry, hentry⟩ := List.exists_mem_of_ne_nil _ (mt List.isEmpty_iff.mpr hrelated)
          obtain ⟨hmember, rfl⟩ := Plan.mem_relationsOf_iff.mp hentry
          obtain ⟨table, hget, -, hinteger⟩ := hplan.exists_managing hmember
          rw [htable] at hget
          cases hget
          exact hfits.exists_id (hplan.shape htable) hinteger
        obtain ⟨id, hid⟩ := hid
        have hadded : plan.Stores (state.add found.table row).session := hstores
        rcases bind_cases hrun with ⟨fault, rfl, hstop⟩ | ⟨outcomes, middle, hclear, hremove⟩
        · exact Run.stopped htable hfits hnoted
            (run_unlinkRow hplan ih hid (fun _ hentry ↦ hentry) hadded hstop)
        · exact run_remove htable hfits hnoted
            (run_unlinkRow hplan ih hid (fun _ hentry ↦ hentry) hadded hclear) hremove

/-- A delete of a new row of a table with directions reports what it did. -/
theorem exists_deleted_of_deleteRow {name : String} {table : Table} {row : Row}
    {state last : CascadeState} {result : Option Deleted}
    (htable : plan.table? name = some table) (hnew : ¬ state.scope.Noted table row)
    (hrelated : ∃ entry, entry ∈ plan.relationsOf name)
    (hrun : runOn (deleteRow plan depth name row) state = (.ok result, last)) :
    ∃ deleted, result = some deleted := by
  cases depth with
  | zero => cases hrun
  | succ depth =>
    obtain ⟨found, hfound, rfl⟩ := Plan.exists_tablePlan htable
    obtain ⟨entry, hentry⟩ := hrelated
    have hsome : ¬ (plan.relationsOf name).isEmpty = true := fun hempty ↦ by
      rw [List.isEmpty_iff.mp hempty] at hentry
      exact List.not_mem_nil hentry
    rw [deleteRow, hfound] at hrun
    dsimp only at hrun
    rw [runOn_bind, runOn_visit_of_not_noted hnew] at hrun
    dsimp only at hrun
    rw [if_neg hsome, if_pos rfl] at hrun
    obtain ⟨outcomes, middle, -, hremove⟩ := exists_of_bind_ok hrun
    obtain ⟨_, final, -, hpure⟩ := exists_of_bind_ok hremove
    cases hpure
    exact ⟨_, rfl⟩

end Cascade

end SchemaCompiler
