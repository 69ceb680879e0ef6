import SchemaCompiler.Proofs.CascadeActs

/-!
# Removed link rows lead to rows that were seen

Over a direction with ownership a run removes a link row and then deletes the row that the link row
leads to. Afterwards the row is gone or noted, and it stays so, since runs only take rows out and
scopes only grow. Where the number of a row is its whole key, this can be said of the number
(`CascadeState.Seen`).

A listed link row may be removed by another delete before its turn comes. It is a link row of the
row whose link rows are being removed then, or it leads to a row that was seen. `Plan.Covers` says
so of all link rows that went, and every part of a run keeps it (`Run.covers`).
-/

set_option autoImplicit false
set_option relaxedAutoImplicit false

namespace SchemaCompiler

/-! ### Keys that are numbers -/

namespace Table

theorem integerKey_of_id {table : Table} (hkey : table.keyColumns = ["id"]) {row : Row} {id : Int}
    (hid : row.integer? "id" = some id) : table.integerKey row = [id] := by
  simp [integerKey, hkey, hid]

theorem wholeKey?_of_id {table : Table} (hkey : table.keyColumns = ["id"]) {row : Row} {id : Int}
    (hid : row.integer? "id" = some id) : table.wholeKey? row = some [id] := by
  simp [wholeKey?, hkey, hid]

end Table

theorem Scope.noted_iff_of_id {scope : Scope} {table : Table} (hkey : table.keyColumns = ["id"])
    {row : Row} {id : Int} (hid : row.integer? "id" = some id) :
    scope.Noted table row ↔ (table.storage, [id]) ∈ scope.visited := by
  simp [Noted, Table.wholeKey?_of_id hkey hid]

/-! ### Rows that were seen -/

/-- No row with a number is stored, or the number is noted. Tables with further key columns are left
out, since the number alone is not noted for them. -/
def CascadeState.Seen (plan : Plan) (state : CascadeState) (name : String) (id : Int) : Prop :=
  ∀ ⦃table : Table⦄, plan.table? name = some table → table.keyColumns = ["id"] →
    state.session.targets name id = [] ∨ (table.storage, [id]) ∈ state.scope.visited

namespace CascadeState.Seen

variable {plan : Plan} {state last : CascadeState} {name : String} {id : Int} {table : Table}
  {row : Row}

theorem of_noted (htable : plan.table? name = some table) (hid : row.integer? "id" = some id)
    (hnoted : state.scope.Noted table row) : state.Seen plan name id := by
  intro other hother hkey
  rw [htable] at hother
  cases hother
  exact Or.inr ((Scope.noted_iff_of_id hkey hid).mp hnoted)

/-- Once a row with a number is gone, the number was seen. -/
theorem of_gone (htable : plan.table? name = some table) (hid : row.integer? "id" = some id)
    (hgone : ∀ stored ∈ state.session.rowsOf name,
      table.integerKey stored ≠ table.integerKey row) : state.Seen plan name id := by
  intro other hother hkey
  rw [htable] at hother
  cases hother
  refine Or.inl (List.eq_nil_iff_forall_not_mem.mpr fun stored hmember ↦ ?_)
  obtain ⟨hstored, hnumber⟩ := Session.mem_targets_iff.mp hmember
  refine hgone stored hstored ?_
  rw [Table.integerKey_of_id hkey hnumber, Table.integerKey_of_id hkey hid]

/-- What was seen stays seen. -/
theorem mono (hseen : state.Seen plan name id) (hwithin : last.session.Within state.session)
    (hvisited : state.scope.visited ⊆ last.scope.visited) : last.Seen plan name id := by
  intro table htable hkey
  refine (hseen htable hkey).imp (fun hnone ↦ ?_) fun hmember ↦ hvisited hmember
  refine List.eq_nil_iff_forall_not_mem.mpr fun row hrow ↦ ?_
  obtain ⟨hstored, hid⟩ := Session.mem_targets_iff.mp hrow
  have hbefore : row ∈ state.session.targets name id :=
    Session.mem_targets_iff.mpr ⟨hwithin.mem hstored, hid⟩
  rw [hnone] at hbefore
  exact List.not_mem_nil hbefore

end CascadeState.Seen

/-- Every link row that went leads to a row that was seen, save for those at one end of it. -/
def Plan.Covers (plan : Plan) (state last : CascadeState) (spared : String → Int → Prop) : Prop :=
  ∀ ⦃entry : RelationDelete⦄, entry ∈ plan.relationDeletes → entry.Owns →
    ∀ link ∈ state.session.rowsOf entry.link, link ∉ last.session.rowsOf entry.link →
      ∀ far, link.integer? entry.farColumn = some far →
        spared entry.deleted far ∨ last.Seen plan entry.deleted far

namespace Plan.Covers

variable {plan : Plan} {state middle last : CascadeState} {spared : String → Int → Prop}

theorem of_rowsOf_eq (hrows : last.session.rowsOf = state.session.rowsOf) :
    plan.Covers state last spared := by
  intro entry _ _ link hbefore hafter
  rw [hrows] at hafter
  exact absurd hbefore hafter

theorem trans (hfirst : plan.Covers state middle spared) (hsecond : plan.Covers middle last spared)
    (hwithin : last.session.Within middle.session)
    (hvisited : middle.scope.visited ⊆ last.scope.visited) : plan.Covers state last spared := by
  intro entry hentry howns link hbefore hafter far hfar
  by_cases hmiddle : link ∈ middle.session.rowsOf entry.link
  · exact hsecond hentry howns link hmiddle hafter far hfar
  · exact (hfirst hentry howns link hbefore hmiddle far hfar).imp_right fun hseen ↦
      hseen.mono hwithin hvisited

/-- When the directions of a row are cleared and no row has its key any more, all link rows that
went are covered. -/
theorem of_clear {name : String} {row : Row} {table : Table}
    (hcovers : plan.Covers (state.add table row) middle fun other number ↦
      other = name ∧ row.integer? "id" = some number)
    (hplan : plan.Coherent) (htable : plan.table? name = some table)
    (hkind : table.kind = .declared) (hscope : last.scope = middle.scope)
    (hwithin : last.session.Within middle.session)
    (helse : ∀ other, other ≠ name → last.session.rowsOf other = middle.session.rowsOf other)
    (hgone : ∀ stored ∈ last.session.rowsOf name,
      table.integerKey stored ≠ table.integerKey row) :
    plan.Covers state last fun _ _ ↦ False := by
  intro entry hentry howns link hbefore hafter far hfar
  rw [helse entry.link (hplan.link_ne_of_declared hentry htable hkind)] at hafter
  right
  rcases hcovers hentry howns link hbefore hafter far hfar with ⟨rfl, hown⟩ | hseen
  · exact CascadeState.Seen.of_gone htable hown hgone
  · refine hseen.mono hwithin ?_
    rw [hscope]
    exact List.Subset.refl _

end Plan.Covers

/-! ### Single link rows -/

namespace Run

variable {plan : Plan} {depth : Nat} {state asked middle after last : CascadeState}
  {stop : Option CascadeFault} {entry : RelationDelete} {id : Int} {link target : Row}

/-- The link rows that go with a link row lead to the same two rows. -/
theorem ends_of_link (hplan : plan.Coherent) {other : RelationDelete}
    (hrefers : plan.Refers entry id link) (hstores : plan.Stores state.session)
    (hrun : Run plan depth (.row entry.link link) state stop last)
    (hother : other ∈ plan.relationDeletes) {stored : Row}
    (hbefore : stored ∈ state.session.rowsOf other.link)
    (hafter : stored ∉ last.session.rowsOf other.link) {far : Int}
    (hfar : stored.integer? other.farColumn = some far) :
    (other = entry ∧ link.integer? entry.farColumn = some far) ∨
      (other.deleted = entry.managing ∧ far = id) := by
  obtain ⟨table, htable, hshape⟩ := hplan.exists_link hrefers.entry_mem
  obtain ⟨helse, hkeys⟩ := hrun.rowsOf_of_link hplan htable hshape.kind
  have hlink : other.link = entry.link := by
    by_contra hne
    rw [helse other.link hne] at hafter
    exact hafter hbefore
  rw [hlink] at hbefore hafter
  have hagree : ∀ column ∈ table.keyColumns, stored.integer? column = link.integer? column :=
    fun column hcolumn ↦ (hstores htable stored hbefore).integer?_eq_of_integerKey_eq
      (hplan.shape htable) (hrefers.fits htable) (hkeys stored hbefore hafter) hcolumn
  rcases hplan.eq_or_back_of_link_eq hrefers.entry_mem hother hlink with rfl | ⟨-, hback⟩
  · rw [hagree _ (hshape.mem_key.mpr (Or.inr rfl))] at hfar
    exact Or.inl ⟨rfl, hfar⟩
  · have hcolumn : other.farColumn = entry.nearColumn := by
      rw [RelationDelete.farColumn, hback, RelationDelete.nearColumn]
    rw [hcolumn, hagree _ (hshape.mem_key.mpr (Or.inl rfl)), hrefers.near] at hfar
    exact Or.inr ⟨hback, (Option.some.inj hfar).symm⟩

/-- A row that was deleted was seen. -/
theorem seen_of_row (hplan : plan.Coherent) {name : String} {row : Row}
    (hid : row.integer? "id" = some id) (hrun : Run plan depth (.row name row) state none last) :
    last.Seen plan name id := by
  cases hrun with
  | noted htable _ hnoted => exact CascadeState.Seen.of_noted htable hid hnoted
  | deleted htable _ _ _ hdelete =>
    refine CascadeState.Seen.of_gone htable hid fun stored hstored hkey ↦ ?_
    exact ((Session.mem_of_delete_iff hdelete).mp hstored).2 ⟨(hplan.name_eq htable).symm, hkey⟩

/-- A removed link row is covered once the row that it leads to was seen. -/
theorem covers_of_link (hplan : plan.Coherent) (hstores : plan.Stores state.session)
    (hrefers : plan.Refers entry id link) {found : Option Row}
    (hlooks : plan.Looks entry link state found asked)
    (hlink : Run plan depth (.row entry.link link) asked none middle)
    (hcovers : plan.Covers middle after fun _ _ ↦ False)
    (hseen : entry.Owns → ∀ far, link.integer? entry.farColumn = some far →
      after.Seen plan entry.deleted far) :
    plan.Covers state after fun other number ↦ other = entry.managing ∧ number = id := by
  intro other hother howns stored hbefore hafter far hfar
  by_cases hstored : stored ∈ middle.session.rowsOf other.link
  · exact Or.inr ((hcovers hother howns stored hstored hafter far hfar).resolve_left not_false)
  · rw [← hlooks.rowsOf_eq] at hbefore
    rcases hlink.ends_of_link hplan hrefers (hstores.looks hlooks) hother hbefore hstored hfar with
      ⟨rfl, hend⟩ | hend
    · exact Or.inr (hseen howns far hend)
    · exact Or.inl hend

/-- A removed link row that leads to no row is covered. -/
theorem covers_cut (hplan : plan.Coherent) (hstores : plan.Stores state.session)
    (hrefers : plan.Refers entry id link) (hlooks : plan.Looks entry link state none asked)
    (hlink : Run plan depth (.row entry.link link) asked none middle) :
    plan.Covers state middle fun other number ↦ other = entry.managing ∧ number = id := by
  refine covers_of_link hplan hstores hrefers hlooks hlink (.of_rowsOf_eq rfl)
    fun howns far hfar ↦ ?_
  obtain ⟨number, hnumber, hnone⟩ := hlooks.of_none howns
  rw [hfar] at hnumber
  cases hnumber
  have hseen : state.Seen plan entry.deleted far :=
    fun _ _ _ ↦ Or.inl (List.head?_eq_none_iff.mp hnone)
  refine hseen.mono (hlooks.within.trans hlink.within) ?_
  rw [← hlooks.scope_eq]
  exact hlink.visited_subset

/-- A removed link row that leads to a row which is deleted then is covered. -/
theorem covers_followed (hplan : plan.Coherent) (hstores : plan.Stores state.session)
    (hrefers : plan.Refers entry id link) (hlooks : plan.Looks entry link state (some target) asked)
    (hlink : Run plan depth (.row entry.link link) asked none middle)
    (htarget : Run plan depth (.row entry.deleted target) middle none after)
    (hcovers : plan.Covers middle after fun _ _ ↦ False) :
    plan.Covers state after fun other number ↦ other = entry.managing ∧ number = id := by
  refine covers_of_link hplan hstores hrefers hlooks hlink hcovers fun _ far hfar ↦ ?_
  obtain ⟨-, number, hnumber, hfirst⟩ := hlooks.of_some
  rw [hfar] at hnumber
  cases hnumber
  exact htarget.seen_of_row hplan (Session.mem_targets_iff.mp (List.mem_of_head? hfirst)).2

end Run

/-! ### Whole runs -/

/-- What a task that is not stopped covers. -/
def Task.Covered (plan : Plan) (state last : CascadeState) : Task → Prop
  | .row name _ => (∀ table, plan.table? name = some table → table.kind = .declared) →
      plan.Covers state last fun _ _ ↦ False
  | .relations name own _ =>
      plan.Covers state last fun other number ↦ other = name ∧ own.integer? "id" = some number
  | .links entry id _ =>
      plan.Covers state last fun other number ↦ other = entry.managing ∧ number = id

namespace Run

variable {plan : Plan} {depth : Nat} {task : Task} {state middle last : CascadeState}
  {stop : Option CascadeFault}

/-- A run that is not stopped covers the link rows that it removed. -/
theorem covers (hplan : plan.Coherent) (hrun : Run plan depth task state stop last)
    (hstores : plan.Stores state.session) (hstop : stop = none) : task.Covered plan state last := by
  induction hrun with
  | exhausted | stopped | missing | blocked | stuck | failed => cases hstop
  | noted => exact fun _ ↦ Plan.Covers.of_rowsOf_eq rfl
  | cleared | removed =>
    unfold Task.Covered
    exact Plan.Covers.of_rowsOf_eq rfl
  | @deleted depth name row state last table session htable hfits hnew hclear hdelete ih =>
    intro hdeclared
    have hkind := hdeclared table htable
    have hname := hplan.name_eq htable
    refine Plan.Covers.of_clear (ih hstores rfl) hplan htable hkind rfl
      (Session.within_of_delete hdelete) (fun other hother ↦ ?_) fun stored hstored hkey ↦ ?_
    · exact Session.rowsOf_of_delete_of_ne hdelete (hname.symm ▸ hother)
    · exact ((Session.mem_of_delete_iff hdelete).mp hstored).2 ⟨hname.symm, hkey⟩
  | @next depth name row state middle last entry rest id table stop hentry hid _ hlinks hrest
      ihlinks ihrest =>
    have hfirst : plan.Covers state middle fun other number ↦
        other = name ∧ row.integer? "id" = some number := by
      intro other hother howns link hbefore hafter far hfar
      rcases ihlinks hstores rfl hother howns link hbefore hafter far hfar with ⟨hname, rfl⟩ | hseen
      · exact Or.inl ⟨hname.trans (Plan.mem_relationsOf_iff.mp hentry).2, hid⟩
      · exact Or.inr hseen
    exact hfirst.trans (ihrest (hstores.within hlinks.within) hstop) hrest.within
      hrest.visited_subset
  | cut hrefers hlooks hlink hrest _ ihrest =>
    have hmiddle := (hstores.looks hlooks).within hlink.within
    exact (covers_cut hplan hstores hrefers hlooks hlink).trans (ihrest hmiddle hstop) hrest.within
      hrest.visited_subset
  | followed hrefers hlooks hlink htarget hrest _ ihtarget ihrest =>
    have hmiddle := (hstores.looks hlooks).within hlink.within
    have hcovers := ihtarget hmiddle rfl (hplan.declared_deleted hrefers.entry_mem)
    exact (covers_followed hplan hstores hrefers hlooks hlink htarget hcovers).trans
      (ihrest (hmiddle.within htarget.within) hstop) hrest.within hrest.visited_subset

end Run

end SchemaCompiler
