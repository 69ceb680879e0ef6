import Mathlib.Logic.Relation
import SchemaCompiler.Proofs.CascadeRun

/-!
# What a run does to the rows

A session logs the operations that it performed, and the rows after a run are those that the logged
operations leave (`Plan.perform`). A run performs deletes only where they are permitted: a row of a
table goes after every link row that refers to it (`Plan.Permits`). So a run is a chain of permitted
operations (`Run.acts`), and what permitted operations keep, a run keeps at every moment
(`Plan.Acts.exists_operations`).

The reason is that a stored link row is never noted (`CascadeState.Settled`): a listed link row that
is noted when its turn comes was removed in the meantime. So when all listed link rows had their
turn none of them is stored, and since runs only take rows out, the row has no link rows left
(`Run.not_linked`).
-/

set_option autoImplicit false
set_option relaxedAutoImplicit false

namespace SchemaCompiler

/-! ### Settled states -/

/-- No stored link row is noted. -/
def CascadeState.Settled (plan : Plan) (state : CascadeState) : Prop :=
  ∀ ⦃name : String⦄ ⦃table : Table⦄, plan.table? name = some table → table.kind ≠ .declared →
    ∀ row ∈ state.session.rowsOf name, ¬ state.scope.Noted table row

namespace CascadeState.Settled

variable {plan : Plan} {state : CascadeState}

theorem of_rowsOf_eq (hsettled : state.Settled plan) {asked : CascadeState}
    (hrows : asked.session.rowsOf = state.session.rowsOf) (hscope : asked.scope = state.scope) :
    asked.Settled plan := by
  intro name table htable hkind row hrow
  rw [hscope]
  rw [hrows] at hrow
  exact hsettled htable hkind row hrow

theorem looks (hsettled : state.Settled plan) {asked : CascadeState} {entry : RelationDelete}
    {link : Row} {target : Option Row} (hlooks : plan.Looks entry link state target asked) :
    asked.Settled plan :=
  hsettled.of_rowsOf_eq hlooks.rowsOf_eq hlooks.scope_eq

/-- Noting a row of a declared table changes nothing for link rows. -/
theorem add_declared (hplan : plan.Coherent) (hsettled : state.Settled plan) {name : String}
    {table : Table} (htable : plan.table? name = some table) (hkind : table.kind = .declared)
    (row : Row) : (state.add table row).Settled plan := by
  intro other otherTable hother hotherKind stored hstored hnoted
  rcases hnoted.of_add with hold | ⟨hstorage, -⟩
  · exact hsettled hother hotherKind stored hstored hold
  · have hname := hplan.storage_eq hother htable hstorage
    rw [hname, htable] at hother
    cases hother
    exact hotherKind hkind

/-- Noting a link row is settled once no stored row has its key. -/
theorem add_link (hplan : plan.Coherent) (hsettled : state.Settled plan)
    (hstores : plan.Stores state.session) {name : String} {table : Table} {row : Row}
    (htable : plan.table? name = some table) (hfits : row.Fits table)
    {session : Session} (hwithin : session.Within state.session)
    (hgone : ∀ stored ∈ session.rowsOf name, table.integerKey stored ≠ table.integerKey row) :
    ({ session := session, scope := state.scope.add table row } : CascadeState).Settled plan := by
  intro other otherTable hother hotherKind stored hstored hnoted
  have hbefore := hwithin.mem hstored
  rcases hnoted.of_add with hold | ⟨hstorage, key, hkey, hadded⟩
  · exact hsettled hother hotherKind stored hbefore hold
  · obtain rfl := hplan.storage_eq hother htable hstorage
    rw [htable] at hother
    cases hother
    have hshape := hplan.shape htable
    refine hgone stored hstored ?_
    rw [(hstores htable stored hbefore).integerKey_eq_of_wholeKey? hshape hkey,
      hfits.integerKey_eq_of_wholeKey? hshape hadded]

end CascadeState.Settled

namespace Run

variable {plan : Plan} {depth : Nat} {task : Task} {state last : CascadeState}
  {stop : Option CascadeFault}

/-- A link entity has no directions to clear. -/
theorem eq_of_link (hplan : plan.Coherent) {name : String} {table : Table} {row : Row}
    (htable : plan.table? name = some table) (hkind : table.kind ≠ .declared)
    (hrun : Run plan depth (.relations name row (plan.relationsOf name)) state stop last) :
    stop = none ∧ last = state := by
  rw [hplan.relationsOf_eq_nil htable hkind] at hrun
  cases hrun
  exact ⟨rfl, rfl⟩

/-- Deleting a link row touches no other table, and takes out only rows with its key. -/
theorem rowsOf_of_link (hplan : plan.Coherent) {name : String} {table : Table} {row : Row}
    (htable : plan.table? name = some table) (hkind : table.kind ≠ .declared)
    (hrun : Run plan depth (.row name row) state stop last) :
    (∀ other, other ≠ name → last.session.rowsOf other = state.session.rowsOf other) ∧
      ∀ stored ∈ state.session.rowsOf name, stored ∉ last.session.rowsOf name →
        table.integerKey stored = table.integerKey row := by
  cases hrun with
  | exhausted | noted =>
    exact ⟨fun _ _ ↦ rfl, fun stored hbefore hafter ↦ absurd hbefore hafter⟩
  | stopped hget _ _ hclear =>
    rw [htable] at hget
    cases hget
    exact absurd (hclear.eq_of_link hplan htable hkind).1 nofun
  | missing hget _ _ hclear =>
    rw [htable] at hget
    cases hget
    obtain ⟨-, rfl⟩ := hclear.eq_of_link hplan htable hkind
    exact ⟨fun _ _ ↦ rfl, fun stored hbefore hafter ↦ absurd hbefore hafter⟩
  | deleted hget _ _ hclear hdelete =>
    rw [htable] at hget
    cases hget
    obtain ⟨-, rfl⟩ := hclear.eq_of_link hplan htable hkind
    have hname := hplan.name_eq htable
    refine ⟨fun other hother ↦ ?_, fun stored hbefore hafter ↦ ?_⟩
    · exact Session.rowsOf_of_delete_of_ne hdelete (hname.symm ▸ hother)
    · by_contra hkey
      exact hafter ((Session.mem_of_delete_iff hdelete).mpr ⟨hbefore, fun hsame ↦ hkey hsame.2⟩)

/-- Runs keep states settled. -/
theorem settled (hplan : plan.Coherent) (hrun : Run plan depth task state stop last)
    (hstores : plan.Stores state.session) (hsettled : state.Settled plan) :
    last.Settled plan := by
  induction hrun with
  | exhausted | noted | cleared | removed => exact hsettled
  | @stopped depth name row state last table fault htable hfits hnew hclear ih =>
    by_cases hkind : table.kind = .declared
    · exact ih hstores (hsettled.add_declared hplan htable hkind row)
    · exact absurd (hclear.eq_of_link hplan htable hkind).1 nofun
  | @missing depth name row state last table fault htable hfits hnew hclear hdelete ih =>
    by_cases hkind : table.kind = .declared
    · exact ih hstores (hsettled.add_declared hplan htable hkind row)
    · obtain ⟨-, rfl⟩ := hclear.eq_of_link hplan htable hkind
      have hgone := (Session.delete_eq_error hdelete).2
      rw [hplan.name_eq htable] at hgone
      exact hsettled.add_link hplan hstores htable hfits (Session.Within.refl _) hgone
  | @deleted depth name row state last table session htable hfits hnew hclear hdelete ih =>
    by_cases hkind : table.kind = .declared
    · have hlast := ih hstores (hsettled.add_declared hplan htable hkind row)
      intro other otherTable hother hotherKind stored hstored
      exact hlast hother hotherKind stored ((Session.within_of_delete hdelete).mem hstored)
    · obtain ⟨-, rfl⟩ := hclear.eq_of_link hplan htable hkind
      refine hsettled.add_link hplan hstores htable hfits (Session.within_of_delete hdelete)
        fun stored hstored hkey ↦ ?_
      exact ((Session.mem_of_delete_iff hdelete).mp hstored).2 ⟨(hplan.name_eq htable).symm, hkey⟩
  | blocked _ _ _ _ ih => exact ih hstores hsettled
  | next _ _ _ hlinks _ ihlinks ihrest =>
    exact ihrest (hstores.within hlinks.within) (ihlinks hstores hsettled)
  | stuck _ hlooks _ ih => exact ih (hstores.looks hlooks) (hsettled.looks hlooks)
  | failed _ hlooks hlink _ ihlink ihtarget =>
    have hasked := hstores.looks hlooks
    exact ihtarget (hasked.within hlink.within) (ihlink hasked (hsettled.looks hlooks))
  | cut _ hlooks hlink _ ihlink ihrest =>
    have hasked := hstores.looks hlooks
    exact ihrest (hasked.within hlink.within) (ihlink hasked (hsettled.looks hlooks))
  | followed _ hlooks hlink htarget _ ihlink ihtarget ihrest =>
    have hasked := hstores.looks hlooks
    have hmiddle := hasked.within hlink.within
    exact ihrest (hmiddle.within htarget.within)
      (ihtarget hmiddle (ihlink hasked (hsettled.looks hlooks)))

end Run

/-- The states that deletes start from: the rows fit their tables, and no stored link row is
noted. -/
structure CascadeState.Valid (plan : Plan) (state : CascadeState) : Prop where
  stores : plan.Stores state.session
  settled : state.Settled plan

theorem CascadeState.Valid.of_rowsOf_eq {plan : Plan} {state asked : CascadeState}
    (hvalid : state.Valid plan) (hrows : asked.session.rowsOf = state.session.rowsOf)
    (hscope : asked.scope = state.scope) : asked.Valid plan :=
  ⟨fun _ _ htable row hrow ↦ hvalid.stores htable row (hrows ▸ hrow),
    hvalid.settled.of_rowsOf_eq hrows hscope⟩

theorem CascadeState.Valid.looks {plan : Plan} {state asked : CascadeState}
    (hvalid : state.Valid plan) {entry : RelationDelete} {link : Row} {target : Option Row}
    (hlooks : plan.Looks entry link state target asked) : asked.Valid plan :=
  hvalid.of_rowsOf_eq hlooks.rowsOf_eq hlooks.scope_eq

theorem CascadeState.Valid.log {plan : Plan} {state : CascadeState} (hvalid : state.Valid plan)
    (operation : Operation) : (state.log operation).Valid plan :=
  ⟨hvalid.stores, hvalid.settled⟩

theorem CascadeState.Valid.add {plan : Plan} (hplan : plan.Coherent) {state : CascadeState}
    (hvalid : state.Valid plan) {name : String} {table : Table}
    (htable : plan.table? name = some table) (hkind : table.kind = .declared) (row : Row) :
    (state.add table row).Valid plan :=
  ⟨hvalid.stores, hvalid.settled.add_declared hplan htable hkind row⟩

/-! ### Cleared directions -/

namespace Run

variable {plan : Plan} {depth : Nat} {task : Task} {state last : CascadeState}
  {stop : Option CascadeFault}

theorem valid (hplan : plan.Coherent) (hrun : Run plan depth task state stop last)
    (hvalid : state.Valid plan) : last.Valid plan :=
  ⟨hvalid.stores.within hrun.within, hrun.settled hplan hvalid.stores hvalid.settled⟩

/-- A tracked row is noted once it was deleted. -/
theorem noted_row (hplan : plan.Coherent) {name : String} {row : Row} {table : Table}
    (hrun : Run plan depth (.row name row) state none last)
    (htable : plan.table? name = some table) (htracked : table.Tracked) :
    last.scope.Noted table row := by
  cases hrun with
  | noted hget hfits hnoted =>
    rw [htable] at hget
    cases hget
    exact hnoted
  | deleted hget hfits hnew hclear hdelete =>
    rw [htable] at hget
    cases hget
    have hkey := hfits.wholeKey?_of_tracked (hplan.shape htable) htracked
    refine ⟨_, hkey, hclear.visited_subset ?_⟩
    exact Scope.mem_visited_add.mpr (Or.inr ⟨_, hkey, rfl⟩)

/-- All listed link rows are noted in the end. -/
theorem noted_links (hplan : plan.Coherent) {entry : RelationDelete} {id : Int} {links : List Row}
    {table : Table} (htable : plan.table? entry.link = some table) (htracked : table.Tracked) :
    ∀ {state last : CascadeState}, Run plan depth (.links entry id links) state none last →
      ∀ link ∈ links, last.scope.Noted table link := by
  induction links with
  | nil =>
    intro state last _ link hlink
    exact absurd hlink List.not_mem_nil
  | cons first rest ih =>
    intro state last hrun link hlink
    cases hrun with
    | cut _ _ hfirst hrest =>
      rcases List.mem_cons.mp hlink with rfl | hlink
      · exact (hfirst.noted_row hplan htable htracked).mono hrest.visited_subset
      · exact ih hrest link hlink
    | followed _ _ hfirst htarget hrest =>
      rcases List.mem_cons.mp hlink with rfl | hlink
      · exact (hfirst.noted_row hplan htable htracked).mono
          (List.Subset.trans htarget.visited_subset hrest.visited_subset)
      · exact ih hrest link hlink

/-- A cleared direction has no link rows. -/
theorem not_linked_of_links (hplan : plan.Coherent) {entry : RelationDelete} {id : Int}
    (hentry : entry ∈ plan.relationDeletes) (hvalid : state.Valid plan)
    (hrun : Run plan depth (.links entry id (entry.linksOf state.session id)) state none last) :
    ¬ entry.Linked last.session id := by
  rintro ⟨link, hlink, hnear⟩
  obtain ⟨table, htable, hshape⟩ := hplan.exists_link hentry
  have hlisted : link ∈ entry.linksOf state.session id :=
    RelationDelete.mem_linksOf_iff.mpr ⟨hrun.within.mem hlink, hnear⟩
  have hnoted := hrun.noted_links hplan htable hshape.tracked link hlisted
  exact (hrun.valid hplan hvalid).settled htable hshape.kind link hlink hnoted

/-- Cleared directions have no link rows, also after the rest of the run. -/
theorem not_linked (hplan : plan.Coherent) {name : String} {row : Row} {id : Int}
    (hid : row.integer? "id" = some id) {entries : List RelationDelete} :
    ∀ {state last : CascadeState}, state.Valid plan →
      Run plan depth (.relations name row entries) state none last →
      ∀ entry ∈ entries, ¬ entry.Linked last.session id := by
  induction entries with
  | nil =>
    intro state last _ _ entry hentry
    exact absurd hentry List.not_mem_nil
  | cons first rest ih =>
    intro state last hvalid hrun entry hentry
    cases hrun with
    | next hfirst hother htable hlinks hrest =>
      rw [hid] at hother
      cases hother
      rcases List.mem_cons.mp hentry with rfl | hentry
      · intro hlinked
        exact hlinks.not_linked_of_links hplan (Plan.mem_relationsOf_iff.mp hfirst).1 (hvalid.log _)
          (hlinked.within hrest.within)
      · exact ih (hlinks.valid hplan (hvalid.log _)) hrest entry hentry

end Run

/-! ### Permitted operations -/

namespace Plan

/-- Whether a row of a table stays when the rows with a key go out of the table of a storage
name. -/
def keeps (plan : Plan) (storage : String) (key : List Int) (name : String) (row : Row) : Bool :=
  match plan.table? name with
  | some table => !(table.storage == storage && table.integerKey row == key)
  | none => true

/-- The session after a logged operation. -/
def perform (plan : Plan) (session : Session) : Operation → Session
  | .select storage column value => session.note (.select storage column value)
  | .delete storage key =>
    { rowsOf := fun name ↦ (session.rowsOf name).filter (plan.keeps storage key name)
      log := session.log ++ [.delete storage key] }

/-- Whether a stored row has a key in the table of a storage name. -/
def Holds (plan : Plan) (session : Session) (storage : String) (key : List Int) : Prop :=
  ∃ name, ∃ row ∈ session.rowsOf name, plan.keeps storage key name row = false

/-- A delete is permitted if some row goes and no link row refers to the rows that go. -/
def Permits (plan : Plan) (session : Session) : Operation → Prop
  | .select .. => True
  | .delete storage key => plan.Holds session storage key ∧
      ∀ ⦃name : String⦄ ⦃table : Table⦄, plan.table? name = some table →
        table.storage = storage → ∀ row ∈ session.rowsOf name, table.integerKey row = key →
          ∀ id, row.integer? "id" = some id → ¬ plan.Linked session name id

/-- A chain of permitted operations. -/
def Acts (plan : Plan) : Session → Session → Prop :=
  Relation.ReflTransGen fun session next ↦
    ∃ operation, plan.Permits session operation ∧ next = plan.perform session operation

theorem keeps_eq_false_iff {plan : Plan} {storage : String} {key : List Int} {name : String}
    {row : Row} : plan.keeps storage key name row = false ↔
      ∃ table, plan.table? name = some table ∧ table.storage = storage ∧
        table.integerKey row = key := by
  unfold keeps
  cases plan.table? name with
  | none => simp
  | some table => simp

/-- A delete that succeeds performs its log entry. -/
theorem perform_of_delete {plan : Plan} (hplan : plan.Coherent) {session next : Session}
    {name : String} {table : Table} {row : Row} (htable : plan.table? name = some table)
    (hdelete : session.delete table row = .ok next) :
    next = plan.perform session (.delete table.storage (table.integerKey row)) := by
  have hlog : next.log = session.log ++ [.delete table.storage (table.integerKey row)] := by
    rw [(Session.delete_eq_ok hdelete).2]
    rfl
  have hrows : next.rowsOf = fun other ↦ (session.rowsOf other).filter
      (plan.keeps table.storage (table.integerKey row) other) := by
    ext1 other
    rw [Session.rowsOf_of_delete hdelete]
    refine List.filter_congr fun stored _ ↦ ?_
    rw [Bool.eq_iff_iff, ← not_iff_not, Bool.not_eq_true, Bool.not_eq_true, keeps_eq_false_iff,
      Bool.not_eq_false', Bool.and_eq_true, beq_iff_eq, beq_iff_eq, hplan.name_eq htable]
    constructor
    · rintro ⟨rfl, hkey⟩
      exact ⟨table, htable, rfl, hkey⟩
    · rintro ⟨otherTable, hother, hstorage, hkey⟩
      obtain rfl := hplan.storage_eq hother htable hstorage
      rw [htable] at hother
      cases hother
      exact ⟨rfl, hkey⟩
  cases next
  cases hlog
  cases hrows
  rfl

theorem within_perform (plan : Plan) (session : Session) (operation : Operation) :
    (plan.perform session operation).Within session := by
  cases operation with
  | select => exact Session.Within.refl session
  | delete storage key => exact fun name ↦ ⟨_, rfl⟩

/-- Asking for rows is always permitted. -/
theorem acts_select (plan : Plan) (state : CascadeState) (storage column : String) (value : Int) :
    plan.Acts state.session (state.log (.select storage column value)).session :=
  .single ⟨.select storage column value, trivial, rfl⟩

theorem Looks.acts {plan : Plan} {entry : RelationDelete} {link : Row} {state asked : CascadeState}
    {target : Option Row} (hlooks : plan.Looks entry link state target asked) :
    plan.Acts state.session asked.session := by
  cases hlooks with
  | unowned => exact .refl
  | owned => exact acts_select plan state _ _ _

namespace Acts

variable {plan : Plan} {first last : Session}

theorem within (hacts : plan.Acts first last) : last.Within first := by
  induction hacts with
  | refl => exact Session.Within.refl first
  | tail _ hstep ih =>
    obtain ⟨operation, -, rfl⟩ := hstep
    exact ih.trans (within_perform plan _ operation)

/-- The operations of a chain are logged, and what permitted operations keep holds after each of
them. -/
theorem exists_operations (hacts : plan.Acts first last) {holds : Session → Prop}
    (hfirst : holds first)
    (hkeep : ∀ session operation, holds session → plan.Permits session operation →
      holds (plan.perform session operation)) :
    ∃ operations, last.log = first.log ++ operations ∧
      last = operations.foldl plan.perform first ∧
      ∀ performed, performed <+: operations → holds (performed.foldl plan.perform first) := by
  induction hacts with
  | refl =>
    refine ⟨[], (List.append_nil _).symm, rfl, fun performed hperformed ↦ ?_⟩
    rw [List.prefix_nil.mp hperformed]
    exact hfirst
  | @tail middle next _ hstep ih =>
    obtain ⟨operations, hlog, hmiddle, hholds⟩ := ih
    obtain ⟨operation, hpermits, rfl⟩ := hstep
    refine ⟨operations ++ [operation], ?_, ?_, fun performed hperformed ↦ ?_⟩
    · rw [← List.append_assoc, ← hlog]
      cases operation <;> rfl
    · rw [List.foldl_append, ← hmiddle]
      rfl
    · rcases List.prefix_concat_iff.mp hperformed with rfl | hbefore
      · rw [List.foldl_append, ← hmiddle]
        refine hkeep middle operation ?_ hpermits
        rw [hmiddle]
        exact hholds operations List.prefix_rfl
      · exact hholds performed hbefore

end Acts

end Plan

namespace Run

variable {plan : Plan} {depth : Nat} {task : Task} {state last : CascadeState}
  {stop : Option CascadeFault}

/-- When all directions of a row are cleared, no link row refers to it. -/
theorem not_linked_of_clear (hplan : plan.Coherent) (hvalid : state.Valid plan) {name : String}
    {table : Table} {row : Row} (htable : plan.table? name = some table)
    (hclear : Run plan depth (.relations name row (plan.relationsOf name)) (state.add table row)
      none last) {id : Int} (hid : row.integer? "id" = some id) :
    ¬ plan.Linked last.session name id := by
  rintro ⟨entry, hentry, hlinked⟩
  have hkind := (hplan.of_mem_relationsOf htable hentry).1
  exact hclear.not_linked hplan hid (hvalid.add hplan htable hkind row) entry hentry hlinked

/-- A row that is stored may go when its directions are cleared. -/
theorem permits_of_clear (hplan : plan.Coherent) (hvalid : state.Valid plan) {name : String}
    {table : Table} {row : Row} (htable : plan.table? name = some table) (hfits : row.Fits table)
    (hclear : Run plan depth (.relations name row (plan.relationsOf name)) (state.add table row)
      none last) {session : Session} (hdelete : last.session.delete table row = .ok session) :
    plan.Permits last.session (.delete table.storage (table.integerKey row)) := by
  obtain ⟨found, hfound, hsame⟩ := (Session.delete_eq_ok hdelete).1
  rw [hplan.name_eq htable] at hfound
  refine ⟨⟨name, found, hfound, Plan.keeps_eq_false_iff.mpr ⟨table, htable, rfl, hsame⟩⟩, ?_⟩
  intro other otherTable hother hstorage stored hstored hkey id hid hlinked
  obtain rfl := hplan.storage_eq hother htable hstorage
  rw [htable] at hother
  cases hother
  refine hclear.not_linked_of_clear hplan hvalid htable ?_ hlinked
  obtain ⟨entry, hentry, -⟩ := hlinked
  have hstoredFits := hvalid.stores htable stored (hclear.within.mem hstored)
  rw [← hid]
  exact hfits.integer?_eq_of_integerKey_eq (hplan.shape htable) hstoredFits hkey.symm
    (hplan.of_mem_relationsOf htable hentry).2.2

/-- Removing a row whose directions are cleared is a permitted operation. -/
theorem acts_of_delete (hplan : plan.Coherent) (hvalid : state.Valid plan) {name : String}
    {table : Table} {row : Row} (htable : plan.table? name = some table) (hfits : row.Fits table)
    (hclear : Run plan depth (.relations name row (plan.relationsOf name)) (state.add table row)
      none last) {session : Session} (hdelete : last.session.delete table row = .ok session) :
    plan.Acts last.session session :=
  .single ⟨_, hclear.permits_of_clear hplan hvalid htable hfits hdelete,
    Plan.perform_of_delete hplan htable hdelete⟩

/-- A run is a chain of permitted operations. -/
theorem acts (hplan : plan.Coherent) (hrun : Run plan depth task state stop last)
    (hvalid : state.Valid plan) : plan.Acts state.session last.session := by
  -- clearing the directions of a link row does nothing, and those of a declared row start settled
  have hcleared : ∀ {depth name row table stop} {state last : CascadeState},
      plan.table? name = some table → state.Valid plan →
      Run plan depth (.relations name row (plan.relationsOf name)) (state.add table row) stop last →
      ((state.add table row).Valid plan → plan.Acts (state.add table row).session last.session) →
      plan.Acts state.session last.session := by
    intro depth name row table stop state last htable hvalid hclear hacts
    by_cases hkind : table.kind = .declared
    · exact hacts (hvalid.add hplan htable hkind row)
    · obtain ⟨-, rfl⟩ := hclear.eq_of_link hplan htable hkind
      exact .refl
  induction hrun with
  | exhausted | noted | cleared | removed => exact .refl
  | stopped htable _ _ hclear ih => exact hcleared htable hvalid hclear ih
  | missing htable _ _ hclear _ ih => exact hcleared htable hvalid hclear ih
  | deleted htable hfits _ hclear hdelete ih =>
    exact (hcleared htable hvalid hclear ih).trans
      (hclear.acts_of_delete hplan hvalid htable hfits hdelete)
  | blocked _ _ _ _ ih => exact (plan.acts_select _ _ _ _).trans (ih (hvalid.log _))
  | next _ _ _ hlinks _ ihlinks ihrest =>
    have hlisted := (plan.acts_select _ _ _ _).trans (ihlinks (hvalid.log _))
    exact hlisted.trans (ihrest (hlinks.valid hplan (hvalid.log _)))
  | stuck _ hlooks _ ih => exact hlooks.acts.trans (ih (hvalid.looks hlooks))
  | failed _ hlooks hlink _ ihlink ihtarget =>
    have hasked := hvalid.looks hlooks
    exact (hlooks.acts.trans (ihlink hasked)).trans (ihtarget (hlink.valid hplan hasked))
  | cut _ hlooks hlink _ ihlink ihrest =>
    have hasked := hvalid.looks hlooks
    exact (hlooks.acts.trans (ihlink hasked)).trans (ihrest (hlink.valid hplan hasked))
  | followed _ hlooks hlink htarget _ ihlink ihtarget ihrest =>
    have hasked := hvalid.looks hlooks
    have hmiddle := hlink.valid hplan hasked
    exact ((hlooks.acts.trans (ihlink hasked)).trans (ihtarget hmiddle)).trans
      (ihrest (htarget.valid hplan hmiddle))

end Run

end SchemaCompiler
