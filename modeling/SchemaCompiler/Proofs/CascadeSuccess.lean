import SchemaCompiler.Proofs.CascadeActs

/-!
# Runs that find their rows

A run stops with a missing row if a row that it set out to delete was removed by a delete that it
led to. A tracked row is noted when its delete begins, and only rows that were not noted go after
that (`Run.notes`). The rows of other tables are not noted, and for them the order of the
directions matters: a delete of a row can only be led back to the row over link rows of a direction
that is not yet cleared (`Plan.Reenters`).

`Plan.Safe` says that deletes which start at a table are not led to certain rows, because the
directions over which they would arrive are cleared. With it, a run from a stored row in a plan
where no untracked table is reentered finds all of its rows (`Run.not_missing`).
-/

set_option autoImplicit false
set_option relaxedAutoImplicit false

namespace SchemaCompiler

/-! ### Noted rows stay -/

/-- Rows of one key of a tracked table are noted together. -/
theorem Scope.Noted.of_integerKey_eq {plan : Plan} (hplan : plan.Coherent) {scope : Scope}
    {name : String} {table : Table} {row other : Row} (htable : plan.table? name = some table)
    (htracked : table.Tracked) (hrow : row.Fits table) (hother : other.Fits table)
    (hkey : table.integerKey row = table.integerKey other) (hnoted : scope.Noted table row) :
    scope.Noted table other := by
  obtain ⟨key, hwhole, hmember⟩ := hnoted
  refine ⟨key, ?_, hmember⟩
  have hshape := hplan.shape htable
  rw [hother.wholeKey?_of_tracked hshape htracked, ← hkey, ← hwhole,
    hrow.wholeKey?_of_tracked hshape htracked]

/-- Every tracked row that went between two states was noted between them. -/
structure Plan.Notes (plan : Plan) (state last : CascadeState) : Prop where
  visited : state.scope.visited ⊆ last.scope.visited
  removed : ∀ ⦃name : String⦄ ⦃table : Table⦄, plan.table? name = some table → table.Tracked →
    ∀ row ∈ state.session.rowsOf name, row ∉ last.session.rowsOf name →
      ¬ state.scope.Noted table row ∧ last.scope.Noted table row

namespace Plan.Notes

variable {plan : Plan} {state middle last : CascadeState}

theorem of_rowsOf_eq (hrows : last.session.rowsOf = state.session.rowsOf)
    (hscope : last.scope = state.scope) : plan.Notes state last := by
  refine ⟨?_, fun name table _ _ row hbefore hafter ↦ ?_⟩
  · rw [hscope]
    exact List.Subset.refl _
  · rw [hrows] at hafter
    exact absurd hbefore hafter

theorem trans (hfirst : plan.Notes state middle) (hsecond : plan.Notes middle last) :
    plan.Notes state last := by
  refine ⟨List.Subset.trans hfirst.visited hsecond.visited,
    fun name table htable htracked row hbefore hafter ↦ ?_⟩
  by_cases hmiddle : row ∈ middle.session.rowsOf name
  · obtain ⟨hnew, hnoted⟩ := hsecond.removed htable htracked row hmiddle hafter
    exact ⟨fun hold ↦ hnew (hold.mono hfirst.visited), hnoted⟩
  · obtain ⟨hnew, hnoted⟩ := hfirst.removed htable htracked row hbefore hmiddle
    exact ⟨hnew, hnoted.mono hsecond.visited⟩

theorem log (state : CascadeState) (operation : Operation) :
    plan.Notes state (state.log operation) := of_rowsOf_eq rfl rfl

theorem looks {entry : RelationDelete} {link : Row} {target : Option Row}
    (hlooks : plan.Looks entry link state target last) : plan.Notes state last :=
  of_rowsOf_eq hlooks.rowsOf_eq hlooks.scope_eq

end Plan.Notes

namespace Run

variable {plan : Plan} {depth : Nat} {task : Task} {state last : CascadeState}
  {stop : Option CascadeFault}

/-- A run notes the tracked rows that it removes. -/
theorem notes (hplan : plan.Coherent) (hrun : Run plan depth task state stop last)
    (hstores : plan.Stores state.session) : plan.Notes state last := by
  have hadd : ∀ (state : CascadeState) (table : Table) (row : Row),
      plan.Notes state (state.add table row) := fun state table row ↦
    ⟨Scope.visited_subset_add _ _ _, fun _ _ _ _ _ hbefore hafter ↦ absurd hbefore hafter⟩
  induction hrun with
  | exhausted | noted | cleared | removed => exact .of_rowsOf_eq rfl rfl
  | stopped _ _ _ _ ih => exact (hadd _ _ _).trans (ih hstores)
  | missing _ _ _ _ _ ih => exact (hadd _ _ _).trans (ih hstores)
  | @deleted depth name row state last table session htable hfits hnew hclear hdelete ih =>
    have hcleared := (hadd _ _ _).trans (ih hstores)
    refine ⟨hcleared.visited, fun other otherTable hother htracked stored hbefore hafter ↦ ?_⟩
    by_cases hlast : stored ∈ last.session.rowsOf other
    · have hgone : other = name ∧ table.integerKey stored = table.integerKey row := by
        by_contra hkept
        rw [← hplan.name_eq htable] at hkept
        exact hafter ((Session.mem_of_delete_iff hdelete).mpr ⟨hlast, hkept⟩)
      obtain ⟨rfl, hkey⟩ := hgone
      rw [htable] at hother
      cases hother
      have hstored := hstores htable stored hbefore
      refine ⟨fun hnoted ↦ hnew (hnoted.of_integerKey_eq hplan htable htracked hstored hfits hkey),
        ?_⟩
      have hwhole := hfits.wholeKey?_of_tracked (hplan.shape htable) htracked
      have hnoted : last.scope.Noted table row :=
        ⟨_, hwhole, (ih hstores).visited (Scope.mem_visited_add.mpr (Or.inr ⟨_, hwhole, rfl⟩))⟩
      exact hnoted.of_integerKey_eq hplan htable htracked hfits hstored hkey.symm
    · exact hcleared.removed hother htracked stored hbefore hlast
  | blocked _ _ _ _ ih => exact (Plan.Notes.log _ _).trans (ih hstores)
  | next _ _ _ hlinks _ ihlinks ihrest =>
    exact ((Plan.Notes.log _ _).trans (ihlinks hstores)).trans
      (ihrest (hstores.within hlinks.within))
  | stuck _ hlooks _ ih => exact (Plan.Notes.looks hlooks).trans (ih (hstores.looks hlooks))
  | failed _ hlooks hlink _ ihlink ihtarget =>
    have hasked := hstores.looks hlooks
    exact ((Plan.Notes.looks hlooks).trans (ihlink hasked)).trans
      (ihtarget (hasked.within hlink.within))
  | cut _ hlooks hlink _ ihlink ihrest =>
    have hasked := hstores.looks hlooks
    exact ((Plan.Notes.looks hlooks).trans (ihlink hasked)).trans
      (ihrest (hasked.within hlink.within))
  | followed _ hlooks hlink htarget _ ihlink ihtarget ihrest =>
    have hasked := hstores.looks hlooks
    have hmiddle := hasked.within hlink.within
    exact (((Plan.Notes.looks hlooks).trans (ihlink hasked)).trans (ihtarget hmiddle)).trans
      (ihrest (hmiddle.within htarget.within))

end Run

/-! ### Tables that deletes are led back to -/

namespace Plan

/-- Deletes of rows of one table lead to rows of another one. -/
def Owned (plan : Plan) (source target : String) : Prop :=
  ∃ entry ∈ plan.relationDeletes, entry.managing = source ∧ entry.deleted = target ∧ entry.Owns

/-- Deletes of rows of one table lead to rows of another one in some steps. -/
def Reach (plan : Plan) : String → String → Prop := Relation.ReflTransGen plan.Owned

/-- A delete of a row of a table can be led back to the row: over a direction with ownership it
leads to a table from which it comes back over a direction that is not cleared before this one. -/
def Reenters (plan : Plan) (name : String) : Prop :=
  ∃ before entry after, plan.relationsOf name = before ++ entry :: after ∧ entry.Owns ∧
    ∃ other ∈ plan.relationsOf name, other ∉ before ∧ plan.Reach entry.deleted other.deleted ∧
      plan.Owned other.deleted name

/-- No untracked table is reentered. -/
def Direct (plan : Plan) : Prop :=
  ∀ ⦃name : String⦄ ⦃table : Table⦄, plan.table? name = some table → ¬ table.Tracked →
    ¬ plan.Reenters name

/-- Deletes that start at a table are not led to certain rows: the directions over which they would
arrive are cleared. -/
def Safe (plan : Plan) (busy : String → Int → Prop) (start : String) (session : Session) : Prop :=
  ∀ ⦃name : String⦄ ⦃id : Int⦄, busy name id → ∀ entry ∈ plan.relationsOf name,
    plan.Reach start entry.deleted → plan.Owned entry.deleted name → ¬ entry.Linked session id

theorem Safe.within {plan : Plan} {busy : String → Int → Prop} {start : String}
    {later earlier : Session} (hsafe : plan.Safe busy start earlier)
    (hwithin : later.Within earlier) : plan.Safe busy start later :=
  fun _ _ hbusy entry hentry hreach howned hlinked ↦
    hsafe hbusy entry hentry hreach howned (hlinked.within hwithin)

end Plan

/-- What keeps a task from missing rows. The rows that are busy are those of untracked tables whose
deletes have begun. A row to delete is stored and not busy, and no busy row is in reach; the
directions of a row before those to clear are cleared; and listed link rows are stored unless they
are noted. -/
def Task.Secure (plan : Plan) (busy : String → Int → Prop) (state : CascadeState) : Task → Prop
  | .row name own => ∀ ⦃table : Table⦄, plan.table? name = some table →
      (∃ entry, entry ∈ plan.relationsOf name) ∧
      (∃ stored ∈ state.session.rowsOf name, table.integerKey stored = table.integerKey own) ∧
      (∀ id, own.integer? "id" = some id → ¬ busy name id) ∧ plan.Safe busy name state.session
  | .relations name own entries => ∀ ⦃id : Int⦄, own.integer? "id" = some id →
      (∃ cleared, plan.relationsOf name = cleared ++ entries ∧
        ∀ entry ∈ cleared, ¬ entry.Linked state.session id) ∧
      (busy name id → ∀ table, plan.table? name = some table → ¬ table.Tracked) ∧
      plan.Safe (fun other number ↦ busy other number ∧ ¬ (other = name ∧ number = id)) name
        state.session
  | .links entry _ listed => ∀ ⦃table : Table⦄, plan.table? entry.link = some table →
      (∀ link ∈ listed, link ∈ state.session.rowsOf entry.link ∨ state.scope.Noted table link) ∧
      (entry.Owns → plan.Safe busy entry.deleted state.session ∧
        ∀ link ∈ listed, ∀ far, link.integer? entry.farColumn = some far →
          ¬ busy entry.deleted far)

/-- The busy rows stay. -/
def Plan.Spares (busy : String → Int → Prop) (state last : CascadeState) : Prop :=
  ∀ ⦃name : String⦄ ⦃id : Int⦄, busy name id → ∀ row ∈ state.session.rowsOf name,
    row.integer? "id" = some id → row ∈ last.session.rowsOf name

theorem Plan.Spares.trans {busy : String → Int → Prop} {state middle last : CascadeState}
    (hfirst : Plan.Spares busy state middle) (hsecond : Plan.Spares busy middle last) :
    Plan.Spares busy state last := fun _ _ hbusy row hrow hid ↦
  hsecond hbusy row (hfirst hbusy row hrow hid) hid

namespace Run

variable {plan : Plan} {depth : Nat} {task : Task} {state asked middle after last : CascadeState}
  {stop : Option CascadeFault} {busy : String → Int → Prop} {entry : RelationDelete} {id : Int}
  {link target : Row} {rest : List Row}

/-- A link row that is stored or noted is found. -/
theorem link_not_missing (hplan : plan.Coherent) {name : String} {table : Table} {row : Row}
    (htable : plan.table? name = some table) (hkind : table.kind ≠ .declared)
    (hfound : row ∈ state.session.rowsOf name ∨ state.scope.Noted table row)
    (hrun : Run plan depth (.row name row) state stop last) (fault : MissingRow) :
    stop ≠ some (.missing fault) := by
  rintro rfl
  cases hrun with
  | stopped hget _ _ hclear =>
    rw [htable] at hget
    cases hget
    exact absurd (hclear.eq_of_link hplan htable hkind).1 nofun
  | missing hget _ hnew hclear hdelete =>
    rw [htable] at hget
    cases hget
    obtain ⟨-, rfl⟩ := hclear.eq_of_link hplan htable hkind
    have hgone := (Session.delete_eq_error hdelete).2 row
    rw [hplan.name_eq htable] at hgone
    exact hgone (hfound.resolve_right hnew) rfl

/-- Deleting a link row spares the rows of all declared tables. -/
theorem spares_of_link (hplan : plan.Coherent) (hentry : entry ∈ plan.relationDeletes)
    (hbusy : ∀ name id, busy name id → ∃ other, other ∈ plan.relationsOf name)
    {found : Option Row} (hlooks : plan.Looks entry link state found asked)
    (hlink : Run plan depth (.row entry.link link) asked stop middle) :
    Plan.Spares busy state middle := by
  intro name number hnumber row hrow _
  obtain ⟨table, htable, hshape⟩ := hplan.exists_link hentry
  obtain ⟨other, hother⟩ := hbusy name number hnumber
  obtain ⟨hotherMember, rfl⟩ := Plan.mem_relationsOf_iff.mp hother
  have hapart := (hplan.link_ne_managing hentry hotherMember).symm
  rw [(hlink.rowsOf_of_link hplan htable hshape.kind).1 _ hapart, hlooks.rowsOf_eq]
  exact hrow

/-- The rest of the listed link rows is secure. -/
theorem secure_rest (hplan : plan.Coherent) (hentry : entry ∈ plan.relationDeletes)
    (hsecure : (Task.links entry id (link :: rest)).Secure plan busy state)
    (hnotes : plan.Notes state middle) (hwithin : middle.session.Within state.session) :
    (Task.links entry id rest).Secure plan busy middle := by
  intro table htable
  obtain ⟨other, hother, hshape⟩ := hplan.exists_link hentry
  rw [htable] at hother
  cases hother
  obtain ⟨hfound, howned⟩ := hsecure htable
  refine ⟨fun listed hlisted ↦ ?_, fun howns ↦ ⟨(howned howns).1.within hwithin, ?_⟩⟩
  · by_cases hstored : listed ∈ middle.session.rowsOf entry.link
    · exact Or.inl hstored
    · rcases hfound listed (List.mem_cons_of_mem link hlisted) with hbefore | hnoted
      · exact Or.inr (hnotes.removed htable hshape.tracked listed hbefore hstored).2
      · exact Or.inr (hnoted.mono hnotes.visited)
  · exact fun listed hlisted ↦ (howned howns).2 listed (List.mem_cons_of_mem link hlisted)

/-- The row that a link row leads to is still the first one with its number when the link row is
gone. -/
theorem head?_of_looks (hplan : plan.Coherent) (hrefers : plan.Refers entry id link)
    (hlooks : plan.Looks entry link state (some target) asked)
    (hlink : Run plan depth (.row entry.link link) asked stop middle) :
    ∃ far, link.integer? entry.farColumn = some far ∧
      (middle.session.targets entry.deleted far).head? = some target := by
  obtain ⟨-, far, hfar, hfirst⟩ := hlooks.of_some
  obtain ⟨table, htable, hshape⟩ := hplan.exists_link hrefers.entry_mem
  obtain ⟨deleted, hdeleted, hkind, -⟩ := hplan.exists_deleted hrefers.entry_mem
  have hapart := (hplan.link_ne_of_declared hrefers.entry_mem hdeleted hkind).symm
  have hrows := (hlink.rowsOf_of_link hplan htable hshape.kind).1 entry.deleted hapart
  refine ⟨far, hfar, ?_⟩
  rw [Session.targets, hrows, hlooks.rowsOf_eq]
  exact hfirst

/-- The row that a removed link row leads to is secure. -/
theorem secure_target (hplan : plan.Coherent) (hrefers : plan.Refers entry id link)
    (hsecure : (Task.links entry id (link :: rest)).Secure plan busy state)
    (hlooks : plan.Looks entry link state (some target) asked)
    (hlink : Run plan depth (.row entry.link link) asked none middle) :
    (Task.row entry.deleted target).Secure plan busy middle := by
  intro table htable
  obtain ⟨linkTable, hlinkTable, -⟩ := hplan.exists_link hrefers.entry_mem
  obtain ⟨howns, -⟩ := hlooks.of_some
  obtain ⟨hsafe, hfree⟩ := (hsecure hlinkTable).2 howns
  obtain ⟨far, hfar, hfirst⟩ := head?_of_looks hplan hrefers hlooks hlink
  obtain ⟨hstored, hid⟩ := Session.mem_targets_iff.mp (List.mem_of_head? hfirst)
  refine ⟨hplan.exists_mem_relationsOf_deleted hrefers.entry_mem, ⟨target, hstored, rfl⟩,
    fun number hnumber ↦ ?_, hsafe.within ?_⟩
  · rw [hid] at hnumber
    cases hnumber
    exact hfree link List.mem_cons_self far hfar
  · exact hlooks.within.trans hlink.within

/-- The listed link rows of the first direction are secure. -/
theorem secure_links (hplan : plan.Coherent) (hdirect : plan.Direct) {name : String} {row : Row}
    {entries : List RelationDelete} (hentry : entry ∈ plan.relationsOf name)
    (hid : row.integer? "id" = some id)
    (hsecure : (Task.relations name row (entry :: entries)).Secure plan busy state)
    (operation : Operation) :
    (Task.links entry id (entry.linksOf state.session id)).Secure plan busy
      (state.log operation) := by
  intro table htable
  obtain ⟨⟨cleared, hsplit, hunlinked⟩, huntracked, hsafe⟩ := hsecure hid
  obtain ⟨hmember, hmanaging⟩ := Plan.mem_relationsOf_iff.mp hentry
  refine ⟨fun link hlink ↦ Or.inl (RelationDelete.mem_linksOf_iff.mp hlink).1, fun howns ↦ ?_⟩
  have hstep : plan.Owned name entry.deleted := ⟨entry, hmember, hmanaging, rfl, howns⟩
  refine ⟨fun other number hbusy direction hdirection hreach howned hlinked ↦ ?_,
    fun link hlink far hfar hbusy ↦ ?_⟩
  · by_cases hown : other = name ∧ number = id
    -- the row itself is untracked, so the deletes come back over a cleared direction only
    · obtain ⟨rfl, rfl⟩ := hown
      obtain ⟨own, hget, -⟩ := hplan.exists_managing hmember
      rw [hmanaging] at hget
      exact hdirect hget (huntracked hbusy own hget) ⟨cleared, entry, entries, hsplit, howns,
        direction, hdirection, fun hbefore ↦ hunlinked direction hbefore hlinked, hreach, howned⟩
    · exact hsafe ⟨hbusy, hown⟩ direction hdirection (.head hstep hreach) howned hlinked
  · obtain ⟨back, hback, hbackManaging, hbackDeleted, hbackLink⟩ := hplan.back hmember
    have hapart : ¬ (entry.deleted = name ∧ far = id) := fun hsame ↦
      hplan.managing_ne_deleted hmember (hmanaging.trans hsame.1.symm)
    refine hsafe ⟨hbusy, hapart⟩ back (Plan.mem_relationsOf_iff.mpr ⟨hback, hbackManaging⟩) ?_ ?_ ?_
    · rw [hbackDeleted, hmanaging]
      exact .refl
    · rw [hbackDeleted, hmanaging]
      exact hstep
    · refine ⟨link, ?_, ?_⟩
      · rw [hbackLink]
        exact (RelationDelete.mem_linksOf_iff.mp hlink).1
      · rw [RelationDelete.nearColumn, hbackManaging]
        exact hfar

/-- The directions after the first one are secure when it is cleared. -/
theorem secure_next {name : String} {row : Row} {entries : List RelationDelete}
    (hid : row.integer? "id" = some id)
    (hsecure : (Task.relations name row (entry :: entries)).Secure plan busy state)
    (hwithin : middle.session.Within state.session) (hfree : ¬ entry.Linked middle.session id) :
    (Task.relations name row entries).Secure plan busy middle := by
  intro number hnumber
  rw [hid] at hnumber
  cases hnumber
  obtain ⟨⟨cleared, hsplit, hunlinked⟩, huntracked, hsafe⟩ := hsecure hid
  refine ⟨⟨cleared ++ [entry], ?_, fun other hother ↦ ?_⟩, huntracked, hsafe.within hwithin⟩
  · rw [hsplit, List.append_assoc]
    rfl
  · rcases List.mem_append.mp hother with hbefore | hlast
    · exact fun hlinked ↦ hunlinked other hbefore (hlinked.within hwithin)
    · rw [List.mem_singleton.mp hlast]
      exact hfree

end Run

/-- The busy rows while the directions of a row are cleared: the row is one of them if its table is
untracked. -/
def Plan.busyWith (plan : Plan) (busy : String → Int → Prop) (name : String) (row : Row)
    (other : String) (number : Int) : Prop :=
  busy other number ∨ (other = name ∧ row.integer? "id" = some number ∧
    ∀ table, plan.table? name = some table → ¬ table.Tracked)

namespace Run

variable {plan : Plan} {depth : Nat} {task : Task} {state last : CascadeState}
  {stop : Option CascadeFault} {busy : String → Int → Prop}

/-- The directions of a row are secure at first, if the row is not busy and no busy row is in
reach. -/
theorem secure_clear {name : String} {row : Row} {table : Table}
    (hfree : ∀ id, row.integer? "id" = some id → ¬ busy name id)
    (hsafe : plan.Safe busy name state.session) :
    (Task.relations name row (plan.relationsOf name)).Secure plan (plan.busyWith busy name row)
      (state.add table row) := by
  intro id hid
  refine ⟨⟨[], rfl, fun _ hnone ↦ absurd hnone List.not_mem_nil⟩, ?_, ?_⟩
  · rintro (hbusy | ⟨-, -, huntracked⟩)
    · exact absurd hbusy (hfree id hid)
    · exact huntracked
  · rintro other number ⟨hbusy | ⟨hname, hnumber, -⟩, hapart⟩
    · exact hsafe hbusy
    · rw [hid] at hnumber
      exact absurd ⟨hname, (Option.some.inj hnumber).symm⟩ hapart

/-- A secure row is still found when its directions are cleared. -/
theorem exists_after_clear (hplan : plan.Coherent) {name : String} {row : Row} {table : Table}
    (htable : plan.table? name = some table) (hfits : row.Fits table)
    (hstores : plan.Stores state.session) (hsecure : (Task.row name row).Secure plan busy state)
    (hclear : Run plan depth (.relations name row (plan.relationsOf name)) (state.add table row)
      stop last)
    (hspares : Plan.Spares (plan.busyWith busy name row) (state.add table row) last) :
    ∃ stored ∈ last.session.rowsOf name, table.integerKey stored = table.integerKey row := by
  obtain ⟨⟨entry, hentry⟩, ⟨stored, hstored, hkey⟩, -⟩ := hsecure htable
  have hshape := hplan.shape htable
  have hstoredFits := hstores htable stored hstored
  refine ⟨stored, ?_, hkey⟩
  by_cases htracked : table.Tracked
  · by_contra hgone
    have hwhole := hfits.wholeKey?_of_tracked hshape htracked
    have hnoted : (state.add table row).scope.Noted table row :=
      ⟨_, hwhole, Scope.mem_visited_add.mpr (Or.inr ⟨_, hwhole, rfl⟩)⟩
    exact ((hclear.notes hplan hstores).removed htable htracked stored hstored hgone).1
      (hnoted.of_integerKey_eq hplan htable htracked hfits hstoredFits hkey.symm)
  · obtain ⟨-, hinteger, hid⟩ := hplan.of_mem_relationsOf htable hentry
    obtain ⟨id, hown⟩ := hfits.exists_id hshape hinteger
    have hsame := hstoredFits.integer?_eq_of_integerKey_eq hshape hfits hkey hid
    refine hspares (Or.inr ⟨rfl, hown, fun other hother ↦ ?_⟩) stored hstored (hsame.trans hown)
    rw [htable] at hother
    cases hother
    exact htracked

/-- Busy rows are rows of tables with directions. -/
theorem busyWith_related {name : String} {row : Row}
    (hbusy : ∀ name id, busy name id → ∃ other, other ∈ plan.relationsOf name)
    (hrelated : ∃ entry, entry ∈ plan.relationsOf name) (other : String) (number : Int)
    (hother : plan.busyWith busy name row other number) :
    ∃ entry, entry ∈ plan.relationsOf other := by
  rcases hother with hother | ⟨rfl, -⟩
  · exact hbusy other number hother
  · exact hrelated

/-- A secure run misses no row and spares the busy ones. Assumes: a plan in which no untracked table
is reentered. -/
theorem not_missing (hplan : plan.Coherent) (hdirect : plan.Direct)
    (hrun : Run plan depth task state stop last) (hvalid : state.Valid plan)
    (hbusy : ∀ name id, busy name id → ∃ entry, entry ∈ plan.relationsOf name)
    (hsecure : task.Secure plan busy state) :
    (∀ fault, stop ≠ some (.missing fault)) ∧ Plan.Spares busy state last := by
  induction hrun generalizing busy with
  | exhausted | noted | cleared | removed => exact ⟨nofun, fun _ _ _ _ hrow _ ↦ hrow⟩
  | @stopped depth name row state last table fault htable hfits hnew hclear ih =>
    obtain ⟨hrelated, -, hfree, hsafe⟩ := hsecure htable
    have hkind := (hplan.of_mem_relationsOf htable hrelated.choose_spec).1
    obtain ⟨hfound, hspares⟩ := ih (hvalid.add hplan htable hkind row)
      (busyWith_related hbusy hrelated) (secure_clear hfree hsafe)
    exact ⟨hfound, fun _ _ hother ↦ hspares (Or.inl hother)⟩
  | @missing depth name row state last table fault htable hfits hnew hclear hdelete ih =>
    obtain ⟨hrelated, -, hfree, hsafe⟩ := hsecure htable
    have hkind := (hplan.of_mem_relationsOf htable hrelated.choose_spec).1
    obtain ⟨-, hspares⟩ := ih (hvalid.add hplan htable hkind row)
      (busyWith_related hbusy hrelated) (secure_clear hfree hsafe)
    obtain ⟨stored, hstored, hkey⟩ :=
      hclear.exists_after_clear hplan htable hfits hvalid.stores hsecure hspares
    rw [← hplan.name_eq htable] at hstored
    exact absurd hkey ((Session.delete_eq_error hdelete).2 stored hstored)
  | @deleted depth name row state last table session htable hfits hnew hclear hdelete ih =>
    obtain ⟨hrelated, -, hfree, hsafe⟩ := hsecure htable
    obtain ⟨hkind, -, hid⟩ := hplan.of_mem_relationsOf htable hrelated.choose_spec
    obtain ⟨-, hspares⟩ := ih (hvalid.add hplan htable hkind row)
      (busyWith_related hbusy hrelated) (secure_clear hfree hsafe)
    refine ⟨nofun, fun other number hother stored hstored hnumber ↦ ?_⟩
    have hlast := hspares (Or.inl hother) stored hstored hnumber
    refine (Session.mem_of_delete_iff hdelete).mpr ⟨hlast, fun hgone ↦ ?_⟩
    obtain ⟨hname, hkey⟩ := hgone
    rw [hplan.name_eq htable] at hname
    subst hname
    refine hfree number ?_ hother
    rw [← hnumber]
    exact hfits.integer?_eq_of_integerKey_eq (hplan.shape htable)
      (hvalid.stores htable stored hstored) hkey.symm hid
  | blocked hentry hid _ _ ih =>
    exact ih (hvalid.log _) hbusy (secure_links hplan hdirect hentry hid hsecure _)
  | next hentry hid _ hlinks _ ihlinks ihrest =>
    obtain ⟨-, hspares⟩ :=
      ihlinks (hvalid.log _) hbusy (secure_links hplan hdirect hentry hid hsecure _)
    have hfree :=
      hlinks.not_linked_of_links hplan (Plan.mem_relationsOf_iff.mp hentry).1 (hvalid.log _)
    obtain ⟨hfound, hsparesRest⟩ := ihrest (hlinks.valid hplan (hvalid.log _)) hbusy
      (secure_next hid hsecure hlinks.within hfree)
    exact ⟨hfound, hspares.trans hsparesRest⟩
  | stuck hrefers hlooks hlink _ =>
    obtain ⟨table, htable, hshape⟩ := hplan.exists_link hrefers.entry_mem
    refine ⟨?_, spares_of_link hplan hrefers.entry_mem hbusy hlooks hlink⟩
    refine hlink.link_not_missing hplan htable hshape.kind ?_
    rw [hlooks.rowsOf_eq, hlooks.scope_eq]
    exact (hsecure htable).1 _ List.mem_cons_self
  | failed hrefers hlooks hlink _ _ ihtarget =>
    obtain ⟨hfound, hspares⟩ := ihtarget (hlink.valid hplan (hvalid.looks hlooks)) hbusy
      (secure_target hplan hrefers hsecure hlooks hlink)
    exact ⟨hfound, (spares_of_link hplan hrefers.entry_mem hbusy hlooks hlink).trans hspares⟩
  | cut hrefers hlooks hlink _ _ ihrest =>
    have hasked := hvalid.looks hlooks
    have hnotes := (Plan.Notes.looks hlooks).trans (hlink.notes hplan hasked.stores)
    have hwithin := hlooks.within.trans hlink.within
    obtain ⟨hfound, hspares⟩ := ihrest (hlink.valid hplan hasked) hbusy
      (secure_rest hplan hrefers.entry_mem hsecure hnotes hwithin)
    exact ⟨hfound, (spares_of_link hplan hrefers.entry_mem hbusy hlooks hlink).trans hspares⟩
  | followed hrefers hlooks hlink htarget _ _ ihtarget ihrest =>
    have hasked := hvalid.looks hlooks
    have hmiddle := hlink.valid hplan hasked
    have hnotes := ((Plan.Notes.looks hlooks).trans (hlink.notes hplan hasked.stores)).trans
      (htarget.notes hplan hmiddle.stores)
    have hwithin := (hlooks.within.trans hlink.within).trans htarget.within
    obtain ⟨-, hsparesTarget⟩ := ihtarget hmiddle hbusy
      (secure_target hplan hrefers hsecure hlooks hlink)
    obtain ⟨hfound, hspares⟩ := ihrest (htarget.valid hplan hmiddle) hbusy
      (secure_rest hplan hrefers.entry_mem hsecure hnotes hwithin)
    exact ⟨hfound, ((spares_of_link hplan hrefers.entry_mem hbusy hlooks hlink).trans
      hsparesTarget).trans hspares⟩

end Run

/-! ### How deletes end -/

namespace Run

variable {plan : Plan} {depth : Nat} {state last : CascadeState} {stop : Option CascadeFault}
  {name : String} {table : Table} {row : Row}

/-- How a delete ends: the row is noted; or its directions are cleared, and it is removed or found
missing. Assumes: no untracked table is reentered, and the run is not cut off. -/
theorem row_cases (hplan : plan.Coherent) (hdirect : plan.Direct) (hvalid : state.Valid plan)
    (htable : plan.table? name = some table) (hrelated : ∃ entry, entry ∈ plan.relationsOf name)
    (hrun : Run plan depth (.row name row) state stop last) (hfuel : stop ≠ some .exhausted) :
    (state.scope.Noted table row ∧ stop = none ∧ last = state) ∨
      (¬ state.scope.Noted table row ∧ ∃ shallow middle,
        Run plan shallow (.relations name row (plan.relationsOf name)) (state.add table row) none
          middle ∧
        ((stop = none ∧ ∃ session, middle.session.delete table row = .ok session ∧
            last = { middle with session := session }) ∨
          ∃ fault, stop = some (.missing fault) ∧ middle.session.delete table row = .error fault ∧
            last = middle)) := by
  cases hrun with
  | exhausted => exact absurd rfl hfuel
  | noted hget _ hnoted =>
    rw [htable] at hget
    cases hget
    exact Or.inl ⟨hnoted, rfl, rfl⟩
  | @stopped shallow _ _ _ _ _ fault hget hfits hnew hclear =>
    rw [htable] at hget
    cases hget
    have hkind := (hplan.of_mem_relationsOf htable hrelated.choose_spec).1
    have hsecure : (Task.relations name row (plan.relationsOf name)).Secure plan
        (plan.busyWith (fun _ _ ↦ False) name row) (state.add table row) :=
      secure_clear (fun _ _ ↦ not_false) fun _ _ hbusy ↦ hbusy.elim
    obtain ⟨hfound, -⟩ := hclear.not_missing hplan hdirect (hvalid.add hplan htable hkind row)
      (busyWith_related (fun _ _ hbusy ↦ hbusy.elim) hrelated) hsecure
    cases fault with
    | exhausted => exact absurd rfl hfuel
    | missing fault => exact absurd rfl (hfound fault)
  | missing hget _ hnew hclear hdelete =>
    rw [htable] at hget
    cases hget
    exact Or.inr ⟨hnew, _, _, hclear, Or.inr ⟨_, rfl, hdelete, rfl⟩⟩
  | deleted hget _ hnew hclear hdelete =>
    rw [htable] at hget
    cases hget
    exact Or.inr ⟨hnew, _, _, hclear, Or.inl ⟨rfl, _, hdelete, rfl⟩⟩

/-- A delete of a row that is stored or noted succeeds. -/
theorem stop_eq_none (hplan : plan.Coherent) (hdirect : plan.Direct) (hvalid : state.Valid plan)
    (htable : plan.table? name = some table) (hrelated : ∃ entry, entry ∈ plan.relationsOf name)
    (hfound : (∃ stored ∈ state.session.rowsOf name,
      table.integerKey stored = table.integerKey row) ∨ state.scope.Noted table row)
    (hrun : Run plan depth (.row name row) state stop last) (hfuel : stop ≠ some .exhausted) :
    stop = none := by
  rcases hrun.row_cases hplan hdirect hvalid htable hrelated hfuel with
    ⟨-, hnone, -⟩ | ⟨hnew, -, -, -, ⟨hnone, -⟩ | ⟨fault, hmissing, -⟩⟩
  · exact hnone
  · exact hnone
  · have hsecure : (Task.row name row).Secure plan (fun _ _ ↦ False) state := by
      intro other hother
      rw [htable] at hother
      cases hother
      exact ⟨hrelated, hfound.resolve_right hnew, fun _ _ ↦ not_false, fun _ _ hbusy ↦ hbusy.elim⟩
    exact absurd hmissing
      ((hrun.not_missing hplan hdirect hvalid (fun _ _ hbusy ↦ hbusy.elim) hsecure).1 fault)

/-- A delete of a row that is neither stored nor noted ends with the fault that it is missing. -/
theorem stop_eq_missing (hplan : plan.Coherent) (hdirect : plan.Direct) (hvalid : state.Valid plan)
    (htable : plan.table? name = some table) (hrelated : ∃ entry, entry ∈ plan.relationsOf name)
    (habsent : ∀ stored ∈ state.session.rowsOf name,
      table.integerKey stored ≠ table.integerKey row)
    (hnew : ¬ state.scope.Noted table row)
    (hrun : Run plan depth (.row name row) state stop last) (hfuel : stop ≠ some .exhausted) :
    stop = some (.missing ⟨table.storage, table.integerKey row⟩) := by
  rcases hrun.row_cases hplan hdirect hvalid htable hrelated hfuel with
    ⟨hnoted, -⟩ | ⟨-, _, middle, hclear, ⟨-, session, hdelete, -⟩ | ⟨fault, hmissing, hdelete, -⟩⟩
  · exact absurd hnoted hnew
  · obtain ⟨stored, hstored, hkey⟩ := (Session.delete_eq_ok hdelete).1
    rw [hplan.name_eq htable] at hstored
    exact absurd hkey (habsent stored (hclear.within.mem hstored))
  · rw [hmissing, (Session.delete_eq_error hdelete).1]

end Run

end SchemaCompiler
