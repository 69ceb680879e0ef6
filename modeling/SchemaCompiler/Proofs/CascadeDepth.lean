import SchemaCompiler.Proofs.CascadeActs

/-!
# How deep deletes go

The delete of a row calls itself for the link rows of the row, and over a direction with ownership
also for the rows that they lead to. The calls for link rows call nothing, so the depth runs out
only along calls for rows at the other end of a link row (`Cascade.EntersWithin`).

The rows of an untracked table are never noted, so the noted rows do not bound how deep the calls
go: a row may be entered again while it is being deleted. The stored link rows do. A call lists link
rows that are stored, and enters the row at the other end of one of them when that link row is gone,
whether it was removed then or earlier in the same call. So each call is entered with fewer stored
link rows than the call around it (`Cascade.EntersWithin.valid_and_linkRows_lt`).

A call that runs out of depth enters one that does (`Cascade.exists_entered`), and so a depth above
the number of link rows is enough (`Cascade.not_exhausted_of_linkRows`).
-/

set_option autoImplicit false
set_option relaxedAutoImplicit false

namespace SchemaCompiler

/-! ### Link rows -/

/-- The number of rows of some tables. -/
def Session.count (session : Session) : List TablePlan → Nat
  | [] => 0
  | entry :: rest => (session.rows entry.table).length + session.count rest

theorem Session.Within.length_le {later earlier : Session} (hwithin : later.Within earlier)
    (table : Table) : (later.rows table).length ≤ (earlier.rows table).length := by
  obtain ⟨kept, hkept⟩ := hwithin table.name
  rw [Session.rows, Session.rows, hkept]
  exact List.length_filter_le kept _

theorem Session.Within.count_le {later earlier : Session} (hwithin : later.Within earlier)
    (entries : List TablePlan) : later.count entries ≤ earlier.count entries := by
  induction entries with
  | nil => exact Nat.le_refl 0
  | cons entry rest ih =>
    have hfirst := hwithin.length_le entry.table
    show (later.rows entry.table).length + later.count rest ≤
      (earlier.rows entry.table).length + earlier.count rest
    omega

theorem Session.Within.count_lt {later earlier : Session} (hwithin : later.Within earlier)
    {entries : List TablePlan} {entry : TablePlan} (hentry : entry ∈ entries)
    (hless : (later.rows entry.table).length < (earlier.rows entry.table).length) :
    later.count entries < earlier.count entries := by
  induction entries with
  | nil => exact absurd hentry List.not_mem_nil
  | cons first rest ih =>
    show (later.rows first.table).length + later.count rest <
      (earlier.rows first.table).length + earlier.count rest
    rcases List.mem_cons.mp hentry with rfl | hentry
    · have hrest := hwithin.count_le rest
      omega
    · have hfirst := hwithin.length_le first.table
      have hrest := ih hentry
      omega

namespace Plan

/-- The number of stored rows. -/
def size (plan : Plan) (session : Session) : Nat := session.count plan.tables.values

theorem depth_eq (plan : Plan) (session : Session) :
    plan.depth session = 2 * (plan.size session + 2) := by
  unfold depth size
  congr 1
  induction plan.tables.values with
  | nil => rfl
  | cons entry rest ih => rw [List.foldr_cons, ih, Session.count, Nat.add_assoc]

/-- A session that lost a row of one of some tables holds fewer rows of them. -/
theorem count_lt_of_removed {plan : Plan} (hplan : plan.Coherent) {later earlier : Session}
    (hwithin : later.Within earlier) {entries : List TablePlan} {name : String} {entry : TablePlan}
    (hget : plan.tables.get? name = some entry) (hentry : entry ∈ entries) {row : Row}
    (hbefore : row ∈ earlier.rowsOf name) (hafter : row ∉ later.rowsOf name) :
    later.count entries < earlier.count entries := by
  have htable : plan.table? name = some entry.table := by rw [table?, hget, Option.map_some]
  refine hwithin.count_lt hentry ?_
  obtain ⟨kept, hkept⟩ := hwithin name
  rw [Session.rows, Session.rows, hplan.name_eq htable, hkept]
  refine List.length_filter_lt_length_iff_exists.mpr ⟨row, hbefore, fun hkeep ↦ hafter ?_⟩
  rw [hkept]
  exact List.mem_filter.mpr ⟨hbefore, hkeep⟩

/-- The link entities. -/
def linkEntities (plan : Plan) : List TablePlan :=
  plan.tables.values.filter fun entry ↦ entry.table.isLink

/-- The number of stored link rows. -/
def linkRows (plan : Plan) (session : Session) : Nat := session.count plan.linkEntities

theorem linkRows_le_size (plan : Plan) (session : Session) :
    plan.linkRows session ≤ plan.size session := by
  unfold linkRows linkEntities size
  induction plan.tables.values with
  | nil => exact Nat.le_refl 0
  | cons entry rest ih =>
    rw [List.filter_cons]
    split
    · exact Nat.add_le_add_left ih _
    · exact Nat.le_add_left_of_le ih

/-- The depth of a delete is above the number of link rows. -/
theorem linkRows_add_two_le_depth (plan : Plan) (session : Session) :
    plan.linkRows session + 2 ≤ plan.depth session := by
  have hsize := plan.linkRows_le_size session
  rw [depth_eq]
  omega

/-- A session that lost a link row holds fewer link rows. -/
theorem linkRows_lt_of_removed {plan : Plan} (hplan : plan.Coherent) {later earlier : Session}
    (hwithin : later.Within earlier) {name : String} {table : Table}
    (htable : plan.table? name = some table) (hkind : table.kind ≠ .declared) {row : Row}
    (hbefore : row ∈ earlier.rowsOf name) (hafter : row ∉ later.rowsOf name) :
    plan.linkRows later < plan.linkRows earlier := by
  obtain ⟨found, hget, rfl⟩ := exists_tablePlan htable
  refine count_lt_of_removed hplan hwithin hget ?_ hbefore hafter
  exact List.mem_filter.mpr ⟨OrderedMap.mem_values_iff.mpr ⟨name, hget⟩,
    Table.isLink_iff_kind_ne.mpr hkind⟩

end Plan

/-! ### Calls -/

/-- A call of the procedure that deletes a row of a table. -/
structure Call where
  name : String
  row : Row
  state : CascadeState

/-- A call for a row that fits its table, in a state that deletes may start from. -/
structure Call.Valid (plan : Plan) (call : Call) : Prop where
  state : call.state.Valid plan
  fits : ∃ table, plan.table? call.name = some table ∧ call.row.Fits table

namespace Cascade

/-- A call comes to a link row. The row of the call is new, the directions before that of the link
row are cleared, the link rows of the direction are listed, and those before the link row are
removed. -/
inductive ComesTo (plan : Plan) (depth : Nat) (call : Call) :
    RelationDelete → Row → CascadeState → Prop where
  | intro {found : TablePlan} {noted cleared listed begun : CascadeState} {entry : RelationDelete}
      {before after : List RelationDelete} {outcomes : List RelationOutcome}
      {collection : Accessor} {link : Row} {done rest : List Row} {outcome : RelationOutcome}
      (hfound : plan.tables.get? call.name = some found)
      (hvisit : (visit found.table call.row).runOn call.state = (.ok true, noted))
      (hsplit : plan.relationsOf call.name = before ++ entry :: after)
      (hclear : (before.mapM (unlinkRow plan (deleteRow plan depth) call.row)).runOn noted =
        (.ok outcomes, cleared))
      (hcollection : accessor? plan entry.managing entry.collection = some collection)
      (hlist : (listLinks plan collection call.row).runOn cleared =
        (.ok (done ++ link :: rest), listed))
      (hdone : (Cascade.unlink plan (deleteRow plan depth) entry done).runOn listed =
        (.ok outcome, begun)) :
      ComesTo plan depth call entry link begun

/-- A call enters the call for the row that a link row leads to. The row is looked up before the
link row is deleted, and entered after it. -/
inductive EntersWithin (plan : Plan) (depth : Nat) (outer : Call) : Call → Prop where
  | intro {entry : RelationDelete} {link target : Row} {begun asked middle : CascadeState}
      {accessor : Accessor} {linkOutcome : Option Deleted}
      (hcomes : ComesTo plan depth outer entry link begun)
      (haccessor : entry.owned.bind (accessor? plan entry.link) = some accessor)
      (hfollow : (followLink plan accessor link).runOn begun = (.ok (some target), asked))
      (hlink : (deleteRow plan depth entry.link link).runOn asked = (.ok linkOutcome, middle)) :
      EntersWithin plan depth outer ⟨entry.deleted, target, middle⟩

end Cascade

/-! ### Link rows are used up -/

namespace Cascade

variable {plan : Plan} {depth : Nat} {call outer inner : Call} {entry : RelationDelete} {link : Row}
  {begun : CascadeState}

/-- A new row is noted. -/
theorem eq_add_of_visit {table : Table} {row : Row} {state noted : CascadeState}
    (hvisit : (visit table row).runOn state = (.ok true, noted)) :
    noted = state.add table row := by
  by_cases hold : state.scope.Noted table row
  · rw [runOn_visit_of_noted hold] at hvisit
    cases hvisit
  · rw [runOn_visit_of_not_noted hold] at hvisit
    exact (Prod.mk.inj hvisit).2.symm

/-- The link row that a call comes to was stored when the call began. -/
theorem ComesTo.stored (hplan : plan.Coherent) (hvalid : call.Valid plan)
    (hcomes : ComesTo plan depth call entry link begun) :
    link ∈ call.state.session.rowsOf entry.link ∧ begun.Valid plan ∧
      begun.session.Within call.state.session ∧ ∃ id, plan.Refers entry id link := by
  obtain @⟨found, noted, cleared, listed, begun, entry, before, after, outcomes, collection, link,
    done, rest, outcome, hfound, hvisit, hsplit, hclear, hcollection, hlist, hdone⟩ := hcomes
  obtain ⟨table, htable, hfits⟩ := hvalid.fits
  obtain rfl : found.table = table := by
    rw [Plan.table?, hfound] at htable
    exact Option.some.inj htable
  have hentries : ∀ other ∈ before ++ entry :: after, other ∈ plan.relationsOf call.name := by
    intro other hother
    rw [hsplit]
    exact hother
  have hentry := hentries entry (List.mem_append_right _ List.mem_cons_self)
  have hmember := (Plan.mem_relationsOf_iff.mp hentry).1
  obtain ⟨hkind, hinteger, -⟩ := hplan.of_mem_relationsOf htable hentry
  obtain ⟨id, hid⟩ := hfits.exists_id (hplan.shape htable) hinteger
  obtain rfl := eq_add_of_visit hvisit
  have hnoted := hvalid.state.add hplan htable hkind call.row
  have hclearRun := run_unlinkRow hplan (run_deleteRow hplan depth) hid
    (fun other hother ↦ hentries other (List.mem_append_left _ hother)) hnoted.stores hclear
  have hclearedValid := hclearRun.valid hplan hnoted
  obtain ⟨accessor, linkTable, haccessor, -, hlisting⟩ := exists_listLinks hplan hmember hid
  rw [hcollection] at haccessor
  cases haccessor
  rw [hlisting] at hlist
  obtain ⟨hlinks, rfl⟩ := Prod.mk.inj hlist
  have hlisted : ∀ other ∈ done ++ link :: rest,
      other ∈ cleared.session.rowsOf entry.link ∧ plan.Refers entry id other := by
    intro other hother
    rw [← Except.ok.inj hlinks] at hother
    obtain ⟨hstored, hnear⟩ := RelationDelete.mem_linksOf_iff.mp hother
    exact ⟨hstored, hmember, hnear, fun hget ↦ hclearedValid.stores hget other hstored⟩
  have hlink := hlisted link (List.mem_append_right _ List.mem_cons_self)
  have hdoneRun := run_unlink hplan (run_deleteRow hplan depth) hmember
    (fun other hother ↦ (hlisted other (List.mem_append_left _ hother)).2)
    (hclearedValid.log _).stores hdone
  have hwithin : cleared.session.Within call.state.session := hclearRun.within
  exact ⟨hwithin.mem hlink.1, hdoneRun.valid hplan (hclearedValid.log _),
    hwithin.trans hdoneRun.within, id, hlink.2⟩

/-- The row that is entered fits its table, and the link row that led to it is gone. -/
theorem EntersWithin.valid_and_linkRows_lt (hplan : plan.Coherent) (hvalid : outer.Valid plan)
    (henters : EntersWithin plan depth outer inner) :
    inner.Valid plan ∧ plan.linkRows inner.state.session < plan.linkRows outer.state.session := by
  obtain @⟨entry, link, target, begun, asked, middle, accessor, linkOutcome, hcomes, haccessor,
    hfollow, hlink⟩ := henters
  obtain ⟨hstored, hbegun, hwithin, id, hrefers⟩ := hcomes.stored hplan hvalid
  obtain ⟨found, state, hfound, hlooks⟩ := looks_followLink hplan haccessor hrefers begun
  rw [hfollow] at hfound
  cases hfound
  obtain ⟨linkTable, hlinkTable, hshape⟩ := hplan.exists_link hrefers.entry_mem
  obtain ⟨table, htable, -⟩ := hplan.exists_deleted hrefers.entry_mem
  have hasked := hbegun.looks hlooks
  have hrun := run_deleteRow hplan depth hlinkTable (hrefers.fits hlinkTable) hasked.stores hlink
  have hmiddle := hrun.valid hplan hasked
  refine ⟨⟨hmiddle, table, htable, fits_of_looks hbegun.stores hlooks htable⟩, ?_⟩
  -- the link row is noted now, whoever removed it, and no stored link row is noted
  have hgone : link ∉ middle.session.rowsOf entry.link := fun hkept ↦
    hmiddle.settled hlinkTable hshape.kind link hkept
      (hrun.noted_row hplan hlinkTable hshape.tracked)
  exact Plan.linkRows_lt_of_removed hplan ((hwithin.trans hlooks.within).trans hrun.within)
    hlinkTable hshape.kind hstored hgone

/-! ### Where the depth runs out -/

variable {Item Result : Type} {state last : CascadeState}

/-- A sequence of parts stops at one of them, and those before it are done. -/
theorem exists_stopped_of_mapM {step : Item → Cascade Result} {fault : CascadeFault}
    {items : List Item} : ∀ {state : CascadeState},
    (items.mapM step).runOn state = (.error fault, last) →
      ∃ before item after outcomes middle, items = before ++ item :: after ∧
        (before.mapM step).runOn state = (.ok outcomes, middle) ∧
        (step item).runOn middle = (.error fault, last) := by
  induction items with
  | nil =>
    intro state hrun
    cases hrun
  | cons first rest ih =>
    intro state hrun
    rw [List.mapM_cons] at hrun
    rcases bind_error_cases hrun with hfirst | ⟨outcome, middle, hfirst, hrest⟩
    · exact ⟨[], first, rest, [], state, rfl, rfl, hfirst⟩
    rcases bind_error_cases hrest with hothers | ⟨outcomes, final, -, hpure⟩
    · obtain ⟨before, item, after, outcomes, reached, rfl, hbefore, hitem⟩ := ih hothers
      refine ⟨first :: before, item, after, outcome :: outcomes, reached, rfl, ?_, hitem⟩
      rw [List.mapM_cons, runOn_bind, hfirst]
      dsimp only
      rw [runOn_bind, hbefore]
      rfl
    · cases hpure

/-- Removing listed link rows stops at one of them, or at the row that it leads to, and those before
it are done. -/
theorem exists_stopped_of_unlink {delete : String → Row → Cascade (Option Deleted)}
    {fault : CascadeFault} {links : List Row}
    (hrun : (Cascade.unlink plan delete entry links).runOn state = (.error fault, last)) :
    ∃ done link rest begun outcome, links = done ++ link :: rest ∧
      (Cascade.unlink plan delete entry done).runOn state = (.ok outcome, begun) ∧
      ((delete entry.link link).runOn begun = (.error fault, last) ∨
        ∃ accessor, entry.owned.bind (accessor? plan entry.link) = some accessor ∧
          (cascadeLink plan delete entry accessor link).runOn begun = (.error fault, last)) := by
  cases haccessor : entry.owned.bind (accessor? plan entry.link) with
  | none =>
    rw [unlink_eq_of_none haccessor] at hrun
    rcases bind_error_cases hrun with hremove | ⟨outcomes, middle, -, hpure⟩
    · obtain ⟨done, link, rest, outcomes, begun, hlinks, hdone, hlink⟩ :=
        exists_stopped_of_mapM hremove
      refine ⟨done, link, rest, begun, .unlinked entry.lower, hlinks, ?_, Or.inl ?_⟩
      · rw [unlink_eq_of_none haccessor, runOn_bind, hdone]
        rfl
      · rw [runOn_discard] at hlink
        split at hlink
        next => cases hlink
        next hstopped =>
          cases hlink
          exact hstopped
    · cases hpure
  | some accessor =>
    rw [unlink_eq_of_some haccessor] at hrun
    rcases bind_error_cases hrun with hremove | ⟨outcomes, middle, -, hpure⟩
    · obtain ⟨done, link, rest, outcomes, begun, hlinks, hdone, hlink⟩ :=
        exists_stopped_of_mapM hremove
      refine ⟨done, link, rest, begun, .cascaded entry.lower outcomes, hlinks, ?_,
        Or.inr ⟨accessor, rfl, hlink⟩⟩
      rw [unlink_eq_of_some haccessor, runOn_bind, hdone]
      rfl
    · cases hpure

/-- The delete of a link row calls nothing: how deep it may go does not matter. -/
theorem deleteRow_eq_of_link (hplan : plan.Coherent) {name : String} {table : Table}
    (htable : plan.table? name = some table) (hkind : table.kind ≠ .declared) (depth : Nat) :
    deleteRow plan (depth + 1) name = deleteRow plan 1 name := by
  obtain ⟨found, hfound, rfl⟩ := Plan.exists_tablePlan htable
  funext row
  rw [deleteRow, deleteRow, hfound, hplan.relationsOf_eq_nil htable hkind]
  rfl

/-- The delete of a link row does not run out of depth. -/
theorem not_exhausted_of_link (hplan : plan.Coherent) {name : String} {table : Table} {row : Row}
    (htable : plan.table? name = some table) (hkind : table.kind ≠ .declared)
    (hfits : row.Fits table) (hstores : plan.Stores state.session) :
    (deleteRow plan (depth + 1) name row).runOn state ≠ (.error .exhausted, last) := by
  intro hanswer
  have hrun : Run plan (depth + 1) (.row name row) state (some .exhausted) last :=
    run_deleteRow hplan (depth + 1) htable hfits hstores hanswer
  cases hrun with
  | stopped hget _ _ hclear =>
    rw [htable] at hget
    cases hget
    exact absurd (hclear.eq_of_link hplan htable hkind).1 nofun

/-- Removing listed link rows runs out of depth only at a row that one of them leads to. -/
theorem exists_entered_of_unlink (hplan : plan.Coherent) (hvalid : call.Valid plan)
    {links : List Row}
    (hcomes : ∀ done link rest begun outcome, links = done ++ link :: rest →
      (Cascade.unlink plan (deleteRow plan (depth + 1)) entry done).runOn state =
        (.ok outcome, begun) → ComesTo plan (depth + 1) call entry link begun)
    (hrun : (Cascade.unlink plan (deleteRow plan (depth + 1)) entry links).runOn state =
      (.error .exhausted, last)) :
    ∃ inner, EntersWithin plan (depth + 1) call inner ∧
      (deleteRow plan (depth + 1) inner.name inner.row).runOn inner.state =
        (.error .exhausted, last) := by
  obtain ⟨done, link, rest, begun, outcome, hlinks, hdone, hstopped⟩ :=
    exists_stopped_of_unlink hrun
  have hreached := hcomes done link rest begun outcome hlinks hdone
  obtain ⟨-, hbegun, -, id, hrefers⟩ := hreached.stored hplan hvalid
  obtain ⟨table, htable, hshape⟩ := hplan.exists_link hrefers.entry_mem
  have hlinkDone : ∀ {asked : CascadeState}, asked.Valid plan →
      (deleteRow plan (depth + 1) entry.link link).runOn asked ≠ (.error .exhausted, last) :=
    fun hasked ↦
      not_exhausted_of_link hplan htable hshape.kind (hrefers.fits htable) hasked.stores
  rcases hstopped with hlink | ⟨accessor, haccessor, hlink⟩
  · exact absurd hlink (hlinkDone hbegun)
  · obtain ⟨target, asked, hfollow, hlooks⟩ := looks_followLink hplan haccessor hrefers begun
    unfold cascadeLink at hlink
    rw [runOn_bind, hfollow] at hlink
    dsimp only at hlink
    rcases bind_error_cases hlink with hfirst | ⟨linkOutcome, middle, hfirst, hmore⟩
    · exact absurd hfirst (hlinkDone (hbegun.looks hlooks))
    · cases target with
      | none => cases hmore
      | some row =>
        rcases bind_error_cases hmore with hsecond | ⟨targetOutcome, after, -, hpure⟩
        · exact ⟨⟨entry.deleted, row, middle⟩, .intro hreached haccessor hfollow hfirst, hsecond⟩
        · cases hpure

/-- A call that runs out of depth enters a call that does. -/
theorem exists_entered (hplan : plan.Coherent) (hvalid : call.Valid plan)
    (hrun : (deleteRow plan (depth + 2) call.name call.row).runOn call.state =
      (.error .exhausted, last)) :
    ∃ inner, EntersWithin plan (depth + 1) call inner ∧
      (deleteRow plan (depth + 1) inner.name inner.row).runOn inner.state =
        (.error .exhausted, last) := by
  obtain ⟨table, htable, hfits⟩ := hvalid.fits
  obtain ⟨found, hfound, rfl⟩ := Plan.exists_tablePlan htable
  rw [deleteRow, hfound] at hrun
  dsimp only at hrun
  by_cases hnoted : call.state.scope.Noted found.table call.row
  · rw [runOn_bind, runOn_visit_of_noted hnoted] at hrun
    dsimp only at hrun
    split at hrun <;> cases hrun
  · have hvisit := runOn_visit_of_not_noted hnoted
    rw [runOn_bind, hvisit] at hrun
    dsimp only at hrun
    rw [if_pos rfl, if_pos rfl] at hrun
    -- removing the row itself stops at a missing row only
    have hremove : ∀ {result : Option Deleted} {middle : CascadeState},
        (remove found.table call.row >>= fun _ ↦ pure result).runOn middle ≠
          (.error .exhausted, last) := by
      intro result middle hstopped
      rw [runOn_bind, runOn_remove] at hstopped
      cases hdelete : middle.session.delete found.table call.row <;>
        rw [hdelete] at hstopped <;> cases hstopped
    split at hrun
    next => exact absurd hrun hremove
    next =>
      rcases bind_error_cases hrun with hclear | ⟨outcomes, middle, -, hlast⟩
      · obtain ⟨before, entry, after, outcomes, cleared, hsplit, hbefore, hentry⟩ :=
          exists_stopped_of_mapM hclear
        have hmember : entry ∈ plan.relationsOf call.name := by
          rw [hsplit]
          exact List.mem_append_right _ List.mem_cons_self
        obtain ⟨hdirection, -⟩ := Plan.mem_relationsOf_iff.mp hmember
        obtain ⟨-, hinteger, -⟩ := hplan.of_mem_relationsOf htable hmember
        obtain ⟨id, hid⟩ := hfits.exists_id (hplan.shape htable) hinteger
        obtain ⟨collection, linkTable, hcollection, -, hlisting⟩ :=
          exists_listLinks hplan hdirection hid
        unfold unlinkRow at hentry
        rw [hcollection] at hentry
        dsimp only at hentry
        rw [runOn_bind, hlisting] at hentry
        refine exists_entered_of_unlink hplan hvalid
          (fun done link rest begun outcome hlinks hdone ↦ ?_) hentry
        have hlist := hlisting cleared
        rw [hlinks] at hlist
        exact .intro hfound hvisit hsplit hbefore hcollection hlist hdone
      · exact absurd hlast hremove

/-- A call does not run out of depth if it may go deeper than there are link rows. -/
theorem not_exhausted_of_linkRows (hplan : plan.Coherent) : ∀ (depth : Nat) {call : Call},
    call.Valid plan → plan.linkRows call.state.session + 2 ≤ depth →
      ((deleteRow plan depth call.name call.row).runOn call.state).1 ≠ .error .exhausted := by
  intro depth
  induction depth with
  | zero =>
    intro call _ hdepth
    omega
  | succ depth ih =>
    intro call hvalid hdepth hexhausted
    obtain ⟨less, rfl⟩ : ∃ less, depth = less + 1 := ⟨depth - 1, by omega⟩
    obtain ⟨inner, henters, hinner⟩ := exists_entered hplan hvalid (Prod.ext hexhausted rfl)
    obtain ⟨hinnerValid, hless⟩ := henters.valid_and_linkRows_lt hplan hvalid
    refine ih hinnerValid (by omega) ?_
    rw [hinner]

end Cascade

/-- A delete has enough depth. -/
theorem Plan.Coherent.delete_not_exhausted {plan : Plan} (hplan : plan.Coherent) {call : Call}
    (hvalid : call.Valid plan) :
    ((plan.delete call.name call.row).runOn call.state).1 ≠ .error .exhausted :=
  Cascade.not_exhausted_of_linkRows hplan _ hvalid (plan.linkRows_add_two_le_depth _)

end SchemaCompiler
