import SchemaCompiler.Proofs.Acceptance
import SchemaCompiler.Proofs.CascadeSuccess

/-!
# Deletes that are led back to their row

If a table is reentered (`Plan.Reenters`), directions with ownership lead from the table around to
itself (`Plan.Circuit`). Rows and link rows along such a circuit make a session (`Plan.around`): the
row of each place is linked with the row of the next one, and the last row with the first one. A
delete of the first row follows the link rows from place to place (`Plan.Ready.step`). Rows of an
untracked table are not noted, so the delete comes back to the first row, finds its link rows gone
and removes it; when all nested deletes have ended, the row is missing (`Plan.Circuit.stop_ne_none`).

The circuit has at least three places, since over two of them the link row there would also be the
link row back. A shorter circuit is passed twice (`Plan.Reenters.exists_circuit`).
-/

set_option autoImplicit false
set_option relaxedAutoImplicit false

namespace SchemaCompiler

/-! ### Circuits -/

/-- The place after a place of a circuit; after the last one comes the first one. -/
def follow (length place : Nat) : Nat := if place + 1 = length then 0 else place + 1

theorem follow_lt {length place : Nat} (hplace : place < length) :
    follow length place < length := by
  unfold follow
  split_ifs <;> omega

namespace Plan

/-- Directions with ownership that lead around, each from the table where the one before it ends. -/
structure Circuit (plan : Plan) (length : Nat) (path : Nat → RelationDelete) : Prop where
  long : 3 ≤ length
  mem : ∀ place < length, path place ∈ plan.relationDeletes
  owns : ∀ place < length, (path place).Owns
  meets : ∀ place < length, (path place).deleted = (path (follow length place)).managing

/-- The row of a table with given numbers in its integer columns. -/
def filled (plan : Plan) (name : String) (number : String → Int) : Row :=
  match plan.table? name with
  | some table => Row.filled table number
  | none => ⟨[]⟩

/-- The row at a place of a circuit has the place as its number. -/
def placed (plan : Plan) (path : Nat → RelationDelete) (place : Nat) : Row :=
  plan.filled (path place).managing fun _ ↦ place

/-- The link row from a place of a circuit to the next one. -/
def linking (plan : Plan) (length : Nat) (path : Nat → RelationDelete) (place : Nat) : Row :=
  plan.filled (path place).link fun column ↦
    if column = (path place).nearColumn then place else follow length place

/-- The session with the rows and link rows of a circuit, in the order of the places. -/
def around (plan : Plan) (length : Nat) (path : Nat → RelationDelete) : Session where
  rowsOf name :=
    ((List.range length).filter fun place ↦ (path place).managing = name).map (plan.placed path) ++
      ((List.range length).filter fun place ↦ (path place).link = name).map
        (plan.linking length path)

variable {plan : Plan} {length : Nat} {path : Nat → RelationDelete}

theorem mem_around_iff {name : String} {row : Row} :
    row ∈ (plan.around length path).rowsOf name ↔
      (∃ place < length, (path place).managing = name ∧ row = plan.placed path place) ∨
        ∃ place < length, (path place).link = name ∧ row = plan.linking length path place := by
  simp only [around, List.mem_append, List.mem_map, List.mem_filter, List.mem_range,
    decide_eq_true_eq, and_assoc, eq_comm (a := row)]

theorem filled_eq {name : String} {table : Table} (htable : plan.table? name = some table)
    (number : String → Int) : plan.filled name number = Row.filled table number := by
  unfold filled
  rw [htable]

namespace Circuit

theorem fits_placed (hplan : plan.Coherent) {place : Nat} {table : Table}
    (htable : plan.table? (path place).managing = some table) :
    (plan.placed path place).Fits table := by
  rw [placed, filled_eq htable]
  exact Row.fits_filled (hplan.shape htable)

theorem fits_linking (hplan : plan.Coherent) {place : Nat} {table : Table}
    (htable : plan.table? (path place).link = some table) :
    (plan.linking length path place).Fits table := by
  rw [linking, filled_eq htable]
  exact Row.fits_filled (hplan.shape htable)

/-- The rows of a circuit fit their tables. -/
theorem stores (hplan : plan.Coherent) : plan.Stores (plan.around length path) := by
  intro name table htable row hrow
  rcases mem_around_iff.mp hrow with ⟨place, -, rfl, rfl⟩ | ⟨place, -, rfl, rfl⟩
  · exact fits_placed hplan htable
  · exact fits_linking hplan htable

variable (hcircuit : plan.Circuit length path) (hplan : plan.Coherent)

include hcircuit hplan

theorem integer?_placed {place : Nat} (hplace : place < length) :
    (plan.placed path place).integer? "id" = some (place : Int) := by
  obtain ⟨table, htable, -, hid⟩ := hplan.exists_managing (hcircuit.mem place hplace)
  have hshape := hplan.shape htable
  obtain ⟨column, hcolumn, hname, -, htype, -⟩ := hshape.exists_id hid
  rw [placed, filled_eq htable, ← hname, Row.integer?_filled hshape hcolumn htype]

theorem integer?_linking {place : Nat} (hplace : place < length) :
    (plan.linking length path place).integer? (path place).nearColumn = some (place : Int) ∧
      (plan.linking length path place).integer? (path place).farColumn =
        some (follow length place : Int) := by
  have hmember := hcircuit.mem place hplace
  obtain ⟨table, htable, hlink⟩ := hplan.exists_link hmember
  have hread : ∀ name ∈ table.keyColumns, (plan.linking length path place).integer? name =
      some (if name = (path place).nearColumn then (place : Int) else follow length place) := by
    intro name hname
    obtain ⟨column, hcolumn, hkey, rfl⟩ := Table.mem_keyColumns_iff.mp hname
    rw [linking, filled_eq htable,
      Row.integer?_filled (hplan.shape htable) hcolumn (hlink.tracked column hcolumn hkey)]
  constructor
  · rw [hread _ (hlink.mem_key.mpr (Or.inl rfl)), if_pos rfl]
  · rw [hread _ (hlink.mem_key.mpr (Or.inr rfl)),
      if_neg (hplan.nearColumn_ne_farColumn hmember).symm]

/-- The rows of a table with directions are rows at places. -/
theorem eq_placed {entry : RelationDelete} (hentry : entry ∈ plan.relationDeletes) {row : Row}
    (hrow : row ∈ (plan.around length path).rowsOf entry.managing) :
    ∃ place < length, (path place).managing = entry.managing ∧ row = plan.placed path place := by
  rcases mem_around_iff.mp hrow with hplaced | ⟨place, hplace, hlink, -⟩
  · exact hplaced
  · exact absurd hlink (hplan.link_ne_managing (hcircuit.mem place hplace) hentry)

/-- The number of a row tells its place. -/
theorem eq_placed_of_id {place : Nat} (hplace : place < length) {row : Row}
    (hrow : row ∈ (plan.around length path).rowsOf (path place).managing)
    (hid : row.integer? "id" = some (place : Int)) : row = plan.placed path place := by
  obtain ⟨other, hother, -, rfl⟩ := hcircuit.eq_placed hplan (hcircuit.mem place hplace) hrow
  rw [hcircuit.integer?_placed hplan hother] at hid
  rw [Int.ofNat.inj (Option.some.inj hid)]

/-- The rows of a declared table have different numbers. -/
theorem pairwise_id {name : String} {table : Table} (htable : plan.table? name = some table)
    (hkind : table.kind = .declared) :
    ((plan.around length path).rowsOf name).Pairwise fun first second ↦
      ∀ id, first.integer? "id" = some id → second.integer? "id" ≠ some id := by
  have hlinks : ((List.range length).filter fun place ↦ (path place).link = name) = [] := by
    refine List.filter_eq_nil_iff.mpr fun place hplace hname ↦ ?_
    exact hplan.link_ne_of_declared (hcircuit.mem place (List.mem_range.mp hplace)) htable hkind
      (of_decide_eq_true hname)
  unfold around
  dsimp only
  rw [hlinks, List.map_nil, List.append_nil, List.pairwise_map]
  refine (List.nodup_range.filter _).imp_of_mem fun {first second} hfirst hsecond hne id hid ↦ ?_
  have hfirst := List.mem_range.mp (List.mem_filter.mp hfirst).1
  have hsecond := List.mem_range.mp (List.mem_filter.mp hsecond).1
  rw [hcircuit.integer?_placed hplan hfirst] at hid
  rw [hcircuit.integer?_placed hplan hsecond, ← hid]
  exact fun hsame ↦ hne (Int.ofNat.inj (Option.some.inj hsame)).symm

/-- The keys of the rows of a circuit differ. -/
theorem eq_of_wholeKey?_eq {first second : Nat} (hfirst : first < length)
    (hsecond : second < length) (hname : (path second).managing = (path first).managing)
    {table : Table}
    (htable : plan.table? (path first).managing = some table) {key : List Int}
    (hsecondKey : table.wholeKey? (plan.placed path second) = some key)
    (hfirstKey : table.wholeKey? (plan.placed path first) = some key) : second = first := by
  have hshape := hplan.shape htable
  have hfirstFits : (plan.placed path first).Fits table := fits_placed hplan htable
  have hsecondFits : (plan.placed path second).Fits table := fits_placed hplan (hname.symm ▸ htable)
  have hmember : path first ∈ plan.relationsOf (path first).managing :=
    mem_relationsOf_iff.mpr ⟨hcircuit.mem first hfirst, rfl⟩
  have hid := hsecondFits.integer?_eq_of_integerKey_eq hshape hfirstFits
    ((hsecondFits.integerKey_eq_of_wholeKey? hshape hsecondKey).trans
      (hfirstFits.integerKey_eq_of_wholeKey? hshape hfirstKey).symm)
    (hplan.of_mem_relationsOf htable hmember).2.2
  rw [hcircuit.integer?_placed hplan hsecond, hcircuit.integer?_placed hplan hfirst] at hid
  exact Int.ofNat.inj (Option.some.inj hid)

/-- Noting the row of a place notes no row of another place. -/
theorem not_noted_add {first second : Nat} (hfirst : first < length) (hsecond : second < length)
    (hne : second ≠ first) {table other : Table}
    (htable : plan.table? (path first).managing = some table)
    (hother : plan.table? (path second).managing = some other) {scope : Scope}
    (hnew : ¬ scope.Noted other (plan.placed path second)) :
    ¬ (scope.add table (plan.placed path first)).Noted other (plan.placed path second) := by
  intro hnoted
  rcases hnoted.of_add with hold | ⟨hstorage, key, hsecondKey, hfirstKey⟩
  · exact hnew hold
  · have hname := hplan.storage_eq hother htable hstorage
    rw [hname, htable] at hother
    cases hother
    exact hne (hcircuit.eq_of_wholeKey?_eq hplan hfirst hsecond hname htable hsecondKey hfirstKey)

/-- The link rows of a direction are link rows of places whose direction is this one or its way
back. -/
theorem eq_linking {entry : RelationDelete} (hentry : entry ∈ plan.relationDeletes) {link : Row}
    (hlink : link ∈ (plan.around length path).rowsOf entry.link) :
    ∃ place < length, link = plan.linking length path place ∧ (entry = path place ∨
      (entry.managing = (path place).deleted ∧ entry.deleted = (path place).managing)) := by
  rcases mem_around_iff.mp hlink with ⟨place, hplace, hmanaging, -⟩ | ⟨place, hplace, hsame, rfl⟩
  · exact absurd hmanaging.symm (hplan.link_ne_managing hentry (hcircuit.mem place hplace))
  · exact ⟨place, hplace, rfl,
      hplan.eq_or_back_of_link_eq (hcircuit.mem place hplace) hentry hsame.symm⟩

/-- A link row that refers to the number of a place leads from this place or to it. -/
theorem eq_linking_of_near {entry : RelationDelete} (hentry : entry ∈ plan.relationDeletes)
    {link : Row} (hlink : link ∈ (plan.around length path).rowsOf entry.link) {place : Nat}
    (hnear : link.integer? entry.nearColumn = some (place : Int)) :
    (entry = path place ∧ link = plan.linking length path place) ∨
      ∃ before < length, follow length before = place ∧ entry.deleted = (path before).managing ∧
        entry.link = (path before).link ∧ link = plan.linking length path before := by
  obtain ⟨before, hbefore, rfl, rfl | ⟨hmanaging, hdeleted⟩⟩ :=
    hcircuit.eq_linking hplan hentry hlink
  · rw [(hcircuit.integer?_linking hplan hbefore).1] at hnear
    obtain rfl := Int.ofNat.inj (Option.some.inj hnear)
    exact Or.inl ⟨rfl, rfl⟩
  · have hcolumn : entry.nearColumn = (path before).farColumn := by
      rw [RelationDelete.nearColumn, hmanaging, RelationDelete.farColumn]
    rw [hcolumn, (hcircuit.integer?_linking hplan hbefore).2] at hnear
    refine Or.inr ⟨before, hbefore, Int.ofNat.inj (Option.some.inj hnear), hdeleted, ?_, rfl⟩
    obtain ⟨back, hback, hbackManaging, hbackDeleted, hbackLink⟩ :=
      hplan.back (hcircuit.mem before hbefore)
    rw [← hbackLink, hplan.unique hentry hback (hmanaging.trans hbackManaging.symm)
      (hdeleted.trans hbackDeleted.symm)]

/-- The keys of the link rows of a circuit differ. -/
theorem eq_of_integerKey_eq {first second : Nat} (hfirst : first < length)
    (hsecond : second < length) (hlink : (path second).link = (path first).link) {table : Table}
    (htable : plan.table? (path first).link = some table)
    (hkey : table.integerKey (plan.linking length path second) =
      table.integerKey (plan.linking length path first)) : second = first := by
  have hmember := hcircuit.mem first hfirst
  obtain ⟨found, hfound, hshape⟩ := hplan.exists_link hmember
  rw [htable] at hfound
  cases hfound
  have hagree : ∀ column ∈ table.keyColumns, (plan.linking length path second).integer? column =
      (plan.linking length path first).integer? column := fun column hcolumn ↦
    (fits_linking hplan (hlink.symm ▸ htable)).integer?_eq_of_integerKey_eq (hplan.shape htable)
      (fits_linking hplan htable) hkey hcolumn
  have hnear := hagree _ (hshape.mem_key.mpr (Or.inl rfl))
  have hfar := hagree _ (hshape.mem_key.mpr (Or.inr rfl))
  obtain ⟨hfirstNear, hfirstFar⟩ := hcircuit.integer?_linking hplan hfirst
  obtain ⟨hsecondNear, hsecondFar⟩ := hcircuit.integer?_linking hplan hsecond
  rw [hfirstNear] at hnear
  rw [hfirstFar] at hfar
  rcases hplan.eq_or_back_of_link_eq hmember (hcircuit.mem second hsecond) hlink with
    hsame | ⟨hmanaging, hdeleted⟩
  · rw [← hsame, hsecondNear] at hnear
    exact Int.ofNat.inj (Option.some.inj hnear)
  -- otherwise each of two places is the next one of the other
  · rw [RelationDelete.nearColumn, ← hdeleted] at hnear
    rw [RelationDelete.farColumn, ← hmanaging] at hfar
    have hback := Int.ofNat.inj (Option.some.inj (hsecondFar.symm.trans hnear))
    have hforth := Int.ofNat.inj (Option.some.inj (hsecondNear.symm.trans hfar))
    have hlong := hcircuit.long
    unfold follow at hback hforth
    split_ifs at hback hforth <;> omega

end Circuit

end Plan

/-! ### Runs around a circuit -/

/-- The first member of a list all of whose members are one. -/
theorem head?_eq_some_of_forall {Item : Type} {items : List Item} {item : Item}
    (hmember : item ∈ items) (hall : ∀ other ∈ items, other = item) : items.head? = some item := by
  obtain ⟨first, rest, rfl⟩ := List.exists_cons_of_ne_nil (List.ne_nil_of_mem hmember)
  rw [List.head?_cons, hall first List.mem_cons_self]

namespace Run

variable {plan : Plan} {depth : Nat} {state last : CascadeState} {name : String} {row : Row}

/-- Deleting a link row notes no row of a declared table. -/
theorem not_noted_of_link (hplan : plan.Coherent) {stop : Option CascadeFault} {table : Table}
    (htable : plan.table? name = some table) (hkind : table.kind ≠ .declared)
    (hrun : Run plan depth (.row name row) state stop last) {other : String} {declared : Table}
    (hother : plan.table? other = some declared) (hdeclared : declared.kind = .declared)
    {own : Row} (hnew : ¬ state.scope.Noted declared own) : ¬ last.scope.Noted declared own := by
  have hadd : ¬ (state.scope.add table row).Noted declared own := by
    intro hnoted
    rcases hnoted.of_add with hold | ⟨hstorage, -⟩
    · exact hnew hold
    · obtain rfl := hplan.storage_eq hother htable hstorage
      rw [htable] at hother
      cases hother
      exact hkind hdeclared
  cases hrun with
  | exhausted | noted => exact hnew
  | stopped hget _ _ hclear | missing hget _ _ hclear | deleted hget _ _ hclear =>
    rw [htable] at hget
    cases hget
    obtain ⟨-, rfl⟩ := hclear.eq_of_link hplan htable hkind
    exact hadd

/-- Clearing directions deletes the row that the first link row of a direction leads to. Assumes:
the directions before it have no link rows, the managing side owns the other one, and the row is
stored. -/
theorem exists_followed {entry : RelationDelete} {before after : List RelationDelete} {id far : Int}
    {link target : Row} (hid : row.integer? "id" = some id) (howns : entry.Owns)
    (hfar : link.integer? entry.farColumn = some far) : ∀ {state : CascadeState},
    Run plan depth (.relations name row (before ++ entry :: after)) state none last →
    (∀ other ∈ before, ¬ other.Linked state.session id) →
    (entry.linksOf state.session id).head? = some link →
    (state.session.targets entry.deleted far).head? = some target →
    ∃ asked middle final, asked.session.rowsOf = state.session.rowsOf ∧ asked.scope = state.scope ∧
      Run plan depth (.row entry.link link) asked none middle ∧
      Run plan depth (.row entry.deleted target) middle none final ∧
      last.session.Within final.session := by
  induction before with
  | nil =>
    intro state hrun _ hlink htarget
    rw [List.nil_append] at hrun
    cases hrun with
    | next _ hnumber _ hlinks hrest =>
      rw [hid] at hnumber
      cases hnumber
      obtain ⟨others, hothers⟩ := List.head?_eq_some_iff.mp hlink
      rw [hothers] at hlinks
      cases hlinks with
      | cut _ hlooks _ _ =>
        obtain ⟨number, hnumber, hnone⟩ := hlooks.of_none howns
        rw [hfar] at hnumber
        cases hnumber
        exact absurd (hnone.symm.trans htarget) nofun
      | followed _ hlooks hfirst hsecond hmore =>
        obtain ⟨-, number, hnumber, hfound⟩ := hlooks.of_some
        rw [hfar] at hnumber
        cases hnumber
        obtain rfl := Option.some.inj (hfound.symm.trans htarget)
        exact ⟨_, _, _, hlooks.rowsOf_eq, hlooks.scope_eq, hfirst, hsecond,
          hmore.within.trans hrest.within⟩
  | cons first rest ih =>
    intro state hrun hfree hlink htarget
    rw [List.cons_append] at hrun
    cases hrun with
    | next _ hnumber _ hlinks hrest =>
      rw [hid] at hnumber
      cases hnumber
      have hnone : first.linksOf state.session id = [] :=
        List.eq_nil_iff_forall_not_mem.mpr fun other hother ↦
          hfree first List.mem_cons_self ⟨other, RelationDelete.mem_linksOf_iff.mp hother⟩
      rw [hnone] at hlinks
      cases hlinks
      have hothers : ∀ other ∈ rest, ¬ other.Linked state.session id := fun other hother ↦
        hfree other (List.mem_cons_of_mem first hother)
      have hfollowed := ih hrest hothers hlink htarget
      exact hfollowed

end Run

namespace Plan

/-- The states in which a delete that goes around a circuit comes to a place. The first row and all
from this place on are stored; the delete has not begun with the rows from this place on; and the
link row over which it came is gone. -/
structure Ready (plan : Plan) (length : Nat) (path : Nat → RelationDelete) (place : Nat)
    (state : CascadeState) : Prop where
  valid : state.Valid plan
  within : state.session.Within (plan.around length path)
  rows : ∀ later < length, later = 0 ∨ place ≤ later →
    plan.placed path later ∈ state.session.rowsOf (path later).managing
  unnoted : ∀ later < length, place ≤ later → ∀ ⦃table : Table⦄,
    plan.table? (path later).managing = some table →
      ¬ state.scope.Noted table (plan.placed path later)
  links : ∀ later < length, place ≤ later →
    plan.linking length path later ∈ state.session.rowsOf (path later).link
  cut : ∀ before < length, before + 1 = place →
    plan.linking length path before ∉ state.session.rowsOf (path before).link

namespace Ready

variable {plan : Plan} {length : Nat} {path : Nat → RelationDelete} {place depth : Nat}
  {state asked middle last : CascadeState}

/-- The link row of a place leads to the row of the next one. -/
theorem head?_targets (hplan : plan.Coherent) (hcircuit : plan.Circuit length path)
    (hready : plan.Ready length path place state) (hplace : place < length) :
    (state.session.targets (path place).deleted (follow length place)).head? =
      some (plan.placed path (follow length place)) := by
  have hnext := follow_lt hplace
  rw [hcircuit.meets place hplace]
  refine head?_eq_some_of_forall (Session.mem_targets_iff.mpr
    ⟨hready.rows _ hnext ?_, hcircuit.integer?_placed hplan hnext⟩) fun other hother ↦ ?_
  · unfold follow
    split_ifs <;> omega
  · obtain ⟨hstored, hid⟩ := Session.mem_targets_iff.mp hother
    exact hcircuit.eq_placed_of_id hplan hnext (hready.within.mem hstored) hid

/-- When a delete has begun with the row of a place and removed the link row there, it can come to
the next place. -/
theorem of_link (hplan : plan.Coherent) (hcircuit : plan.Circuit length path)
    (hready : plan.Ready length path place state) (hplace : place < length) {table : Table}
    (htable : plan.table? (path place).managing = some table)
    (hrows : asked.session.rowsOf = state.session.rowsOf)
    (hscope : asked.scope = state.scope.add table (plan.placed path place))
    (hlink : Run plan depth (.row (path place).link (plan.linking length path place)) asked none
      middle) : plan.Ready length path (place + 1) middle := by
  have hmember := hcircuit.mem place hplace
  obtain ⟨linkTable, hlinkTable, hshape⟩ := hplan.exists_link hmember
  obtain ⟨helse, hkeys⟩ := hlink.rowsOf_of_link hplan hlinkTable hshape.kind
  have hkind : table.kind = .declared := by
    obtain ⟨found, hfound, hkind, -⟩ := hplan.exists_managing hmember
    rw [htable] at hfound
    cases hfound
    exact hkind
  have hasked : asked.Valid plan :=
    (hready.valid.add hplan htable hkind (plan.placed path place)).of_rowsOf_eq hrows hscope
  have hmiddle := hlink.valid hplan hasked
  have hwithin : middle.session.Within state.session := by
    intro name
    rw [← hrows]
    exact hlink.within name
  refine ⟨hmiddle, hready.within.trans hwithin, ?_, ?_, ?_, ?_⟩
  · intro later hlater hcase
    rw [helse _ (hplan.link_ne_managing hmember (hcircuit.mem later hlater)).symm, hrows]
    exact hready.rows later hlater (hcase.imp_right Nat.le_of_succ_le)
  · intro later hlater hle laterTable hlaterTable
    obtain ⟨found, hfound, hlaterKind, -⟩ := hplan.exists_managing (hcircuit.mem later hlater)
    rw [hlaterTable] at hfound
    cases hfound
    refine hlink.not_noted_of_link hplan hlinkTable hshape.kind hlaterTable hlaterKind ?_
    rw [hscope]
    exact hcircuit.not_noted_add hplan hplace hlater (by omega) htable hlaterTable
      (hready.unnoted later hlater (Nat.le_of_succ_le hle) hlaterTable)
  · intro later hlater hle
    by_cases hsame : (path later).link = (path place).link
    · have hbefore := hready.links later hlater (Nat.le_of_succ_le hle)
      rw [hsame, ← hrows] at hbefore
      rw [hsame]
      by_contra hafter
      have heq := hcircuit.eq_of_integerKey_eq hplan hplace hlater hsame hlinkTable
        (hkeys _ hbefore hafter)
      omega
    · rw [helse _ hsame, hrows]
      exact hready.links later hlater (Nat.le_of_succ_le hle)
  · intro before hbefore heq hstored
    obtain rfl : before = place := Nat.succ.inj heq
    exact hmiddle.settled hlinkTable hshape.kind _ hstored
      (hlink.noted_row hplan hlinkTable hshape.tracked)

/-- Clearing the directions of the row of a place comes to the next place. Assumes: the directions
before that of the circuit have no link rows, and its link row is listed first. -/
theorem step (hplan : plan.Coherent) (hcircuit : plan.Circuit length path)
    (hready : plan.Ready length path place state) (hplace : place < length) {table : Table}
    (htable : plan.table? (path place).managing = some table) {before after : List RelationDelete}
    (hsplit : plan.relationsOf (path place).managing = before ++ path place :: after)
    (hfree : ∀ other ∈ before, ¬ other.Linked state.session place)
    (hhead : ((path place).linksOf state.session place).head? =
      some (plan.linking length path place))
    (hclear : Run plan depth (.relations (path place).managing (plan.placed path place)
      (plan.relationsOf (path place).managing)) (state.add table (plan.placed path place)) none
        last) :
    ∃ middle final, plan.Ready length path (place + 1) middle ∧
      Run plan depth (.row (path place).deleted (plan.placed path (follow length place))) middle
        none final ∧
      last.session.Within final.session := by
  rw [hsplit] at hclear
  have htargets := hready.head?_targets hplan hcircuit hplace
  obtain ⟨asked, middle, final, hrows, hscope, hlink, htarget, hwithin⟩ :=
    Run.exists_followed (hcircuit.integer?_placed hplan hplace) (hcircuit.owns place hplace)
      (hcircuit.integer?_linking hplan hplace).2 hclear hfree hhead htargets
  exact ⟨middle, final, hready.of_link hplan hcircuit hplace htable hrows hscope hlink, htarget,
    hwithin⟩

/-- After the first place, a link row that refers to the row of a place leads from it. -/
theorem eq_of_linked (hplan : plan.Coherent) (hcircuit : plan.Circuit length path)
    (hready : plan.Ready length path place state) (hpositive : 0 < place) {entry : RelationDelete}
    (hentry : entry ∈ plan.relationDeletes) {link : Row}
    (hlink : link ∈ state.session.rowsOf entry.link)
    (hnear : link.integer? entry.nearColumn = some (place : Int)) :
    entry = path place ∧ link = plan.linking length path place := by
  rcases hcircuit.eq_linking_of_near hplan hentry (hready.within.mem hlink) hnear with
    hsame | ⟨before, hbefore, hfollow, -, hentity, rfl⟩
  · exact hsame
  · have hnext : before + 1 = place := by
      unfold follow at hfollow
      split_ifs at hfollow <;> omega
    rw [hentity] at hlink
    exact absurd hlink (hready.cut before hbefore hnext)

/-- After the first place, the direction of the circuit is the first one with link rows, and its
link row is listed first. -/
theorem exists_split (hplan : plan.Coherent) (hcircuit : plan.Circuit length path)
    (hready : plan.Ready length path place state) (hpositive : 0 < place) (hplace : place < length) :
    ∃ before after, plan.relationsOf (path place).managing = before ++ path place :: after ∧
      (∀ other ∈ before, ¬ other.Linked state.session place) ∧
      ((path place).linksOf state.session place).head? = some (plan.linking length path place) := by
  have hmember := hcircuit.mem place hplace
  obtain ⟨before, after, hsplit, hnew⟩ :=
    List.eq_append_cons_of_mem (mem_relationsOf_iff.mpr ⟨hmember, rfl⟩)
  refine ⟨before, after, hsplit, ?_, ?_⟩
  · rintro other hother ⟨link, hlink, hnear⟩
    have hentry : other ∈ plan.relationsOf (path place).managing := by
      rw [hsplit]
      exact List.mem_append_left _ hother
    obtain ⟨rfl, -⟩ := hready.eq_of_linked hplan hcircuit hpositive
      (mem_relationsOf_iff.mp hentry).1 hlink hnear
    exact hnew hother
  · refine head?_eq_some_of_forall (RelationDelete.mem_linksOf_iff.mpr
      ⟨hready.links _ hplace (Nat.le_refl _), (hcircuit.integer?_linking hplan hplace).1⟩) ?_
    intro link hlink
    obtain ⟨hlisted, hnear⟩ := RelationDelete.mem_linksOf_iff.mp hlink
    exact (hready.eq_of_linked hplan hcircuit hpositive hmember hlisted hnear).2

/-- A delete that comes to a place after the first one removes the first row. Assumes: the first row
is one of an untracked table. -/
theorem not_mem_of_run (hplan : plan.Coherent) (hcircuit : plan.Circuit length path)
    {first : Table} (hfirst : plan.table? (path 0).managing = some first)
    (huntracked : ¬ first.Tracked) (remaining : Nat) : ∀ {place depth : Nat}
    {state last : CascadeState}, place + 1 + remaining = length →
    plan.Ready length path (place + 1) state →
    Run plan depth (.row (path place).deleted (plan.placed path (follow length place))) state none
      last →
    plan.placed path 0 ∉ last.session.rowsOf (path 0).managing := by
  induction remaining with
  | zero =>
    intro place depth state last hlast hready hrun hstored
    have hplace : place < length := by omega
    have hfollow : follow length place = 0 := if_pos hlast
    rw [hcircuit.meets place hplace, hfollow] at hrun
    cases hrun with
    | noted htable hfits hnoted =>
      rw [hfirst] at htable
      cases htable
      obtain ⟨key, hkey, -⟩ := hnoted
      rw [hfits.wholeKey?_of_not_tracked (hplan.shape hfirst) huntracked] at hkey
      cases hkey
    | deleted htable _ _ _ hdelete =>
      exact ((Session.mem_of_delete_iff hdelete).mp hstored).2 ⟨(hplan.name_eq htable).symm, rfl⟩
  | succ remaining ih =>
    intro place depth state last hlast hready hrun hstored
    have hplace : place < length := by omega
    have hnext : place + 1 < length := by omega
    have hfollow : follow length place = place + 1 := if_neg (by omega)
    rw [hcircuit.meets place hplace, hfollow] at hrun
    cases hrun with
    | noted htable _ hnoted =>
      exact hready.unnoted _ hnext (Nat.le_refl _) htable hnoted
    | deleted htable _ _ hclear hdelete =>
      obtain ⟨before, after, hsplit, hfree, hhead⟩ :=
        hready.exists_split hplan hcircuit (Nat.succ_pos place) hnext
      obtain ⟨middle, final, hmiddle, htarget, hwithin⟩ :=
        hready.step hplan hcircuit hnext htable hsplit hfree hhead hclear
      exact ih (by omega) hmiddle htarget
        (hwithin.mem ((Session.within_of_delete hdelete).mem hstored))

end Ready

namespace Circuit

variable {plan : Plan} {length : Nat} {path : Nat → RelationDelete}

/-- A delete around a circuit can start. -/
theorem ready (hplan : plan.Coherent) :
    plan.Ready length path 0 { session := plan.around length path } where
  valid := (stores hplan).valid
  within := Session.Within.refl _
  rows later hlater _ := mem_around_iff.mpr (Or.inl ⟨later, hlater, rfl, rfl⟩)
  unnoted _ _ _ _ _ := fun ⟨_, _, hmember⟩ ↦ List.not_mem_nil hmember
  links later hlater _ := mem_around_iff.mpr (Or.inr ⟨later, hlater, rfl, rfl⟩)
  cut _ _ hnone := absurd hnone (Nat.succ_ne_zero _)

/-- The link row of the first place is listed first. -/
theorem head?_linksOf (hplan : plan.Coherent) (hcircuit : plan.Circuit length path) :
    ((path 0).linksOf (plan.around length path) (0 : Nat)).head? =
      some (plan.linking length path 0) := by
  have hlong := hcircuit.long
  have hzero : 0 < length := by omega
  have hplaced : ((List.range length).filter fun place ↦
      (path place).managing = (path 0).link) = [] := by
    refine List.filter_eq_nil_iff.mpr fun place hplace hsame ↦ ?_
    have hmember := hcircuit.mem place (List.mem_range.mp hplace)
    exact hplan.link_ne_managing (hcircuit.mem 0 hzero) hmember (of_decide_eq_true hsame).symm
  obtain ⟨others, hothers⟩ : ∃ others, ((List.range length).filter fun place ↦
      (path place).link = (path 0).link) = 0 :: others := by
    obtain ⟨shorter, rfl⟩ := Nat.exists_eq_succ_of_ne_zero (Nat.ne_of_gt hzero)
    rw [List.range_succ_eq_map, List.filter_cons, if_pos (decide_eq_true rfl)]
    exact ⟨_, rfl⟩
  have hrows : (plan.around length path).rowsOf (path 0).link =
      plan.linking length path 0 :: others.map (plan.linking length path) := by
    unfold around
    dsimp only
    rw [hplaced, hothers]
    rfl
  have hnear : ((plan.linking length path 0).integer? (path 0).nearColumn == some ((0 : Nat) : Int))
      = true := beq_iff_eq.mpr (hcircuit.integer?_linking hplan hzero).1
  rw [RelationDelete.linksOf, hrows, List.filter_cons, if_pos hnear]
  rfl

/-- A delete of the first row of a circuit does not succeed. Assumes: the first row is one of an
untracked table, and none of the directions that are cleared before the circuit is entered leads to
the last place. -/
theorem stop_ne_none (hplan : plan.Coherent) (hcircuit : plan.Circuit length path) {first : Table}
    (hfirst : plan.table? (path 0).managing = some first) (huntracked : ¬ first.Tracked)
    {before after : List RelationDelete}
    (hsplit : plan.relationsOf (path 0).managing = before ++ path 0 :: after)
    (hnew : path 0 ∉ before)
    (hback : ∀ other ∈ before, other.deleted ≠ (path (length - 1)).managing) {depth : Nat}
    {last : CascadeState} {stop : Option CascadeFault}
    (hrun : Run plan depth (.row (path 0).managing (plan.placed path 0))
      { session := plan.around length path } stop last) : stop ≠ none := by
  rintro rfl
  have hlong := hcircuit.long
  have hzero : 0 < length := by omega
  have hready : plan.Ready length path 0 { session := plan.around length path } := ready hplan
  cases hrun with
  | noted htable _ hnoted => exact hready.unnoted 0 hzero (Nat.le_refl 0) htable hnoted
  | @deleted _ _ _ _ cleared table session htable _ _ hclear hdelete =>
    have hfree : ∀ other ∈ before, ¬ other.Linked (plan.around length path) (0 : Nat) := by
      rintro other hother ⟨link, hlink, hnear⟩
      have hentry : other ∈ plan.relationsOf (path 0).managing := by
        rw [hsplit]
        exact List.mem_append_left _ hother
      rcases hcircuit.eq_linking_of_near hplan (mem_relationsOf_iff.mp hentry).1 hlink hnear with
        ⟨rfl, -⟩ | ⟨place, hplace, hfollow, hdeleted, -⟩
      · exact hnew hother
      · have hlast : place = length - 1 := by
          unfold follow at hfollow
          split_ifs at hfollow
          omega
        exact hback other hother (hlast ▸ hdeleted)
    obtain ⟨middle, final, hmiddle, htarget, hwithin⟩ := hready.step hplan hcircuit hzero htable
      hsplit hfree (hcircuit.head?_linksOf hplan) hclear
    have hgone := Ready.not_mem_of_run hplan hcircuit hfirst huntracked (length - 1) (by omega)
      hmiddle htarget
    -- the only row with the key of the first row is the first row
    obtain ⟨stored, hstored, hkey⟩ := (Session.delete_eq_ok hdelete).1
    rw [hplan.name_eq htable] at hstored
    have haround := hready.within.mem (hclear.within.mem hstored)
    have hmember : path 0 ∈ plan.relationsOf (path 0).managing :=
      mem_relationsOf_iff.mpr ⟨hcircuit.mem 0 hzero, rfl⟩
    have hid := (stores hplan htable stored haround).integer?_eq_of_integerKey_eq
      (hplan.shape htable) (fits_placed hplan htable) hkey
      (hplan.of_mem_relationsOf htable hmember).2.2
    rw [hcircuit.integer?_placed hplan hzero] at hid
    rw [hcircuit.eq_placed_of_id hplan hzero haround hid] at hstored
    exact hgone (hwithin.mem hstored)

end Circuit

/-! ### Circuits of reentered tables -/

/-- Directions with ownership that lead from one table to another, each from the table where the one
before it ends. -/
def Leads (plan : Plan) : (source : String) → (steps : List RelationDelete) → (target : String) →
    Prop
  | source, [], target => source = target
  | source, step :: rest, target => step ∈ plan.relationDeletes ∧ step.Owns ∧
      step.managing = source ∧ plan.Leads step.deleted rest target

variable {plan : Plan} {source middle target : String}

theorem Leads.append {steps more : List RelationDelete} (hmore : plan.Leads middle more target) :
    ∀ {source : String}, plan.Leads source steps middle →
      plan.Leads source (steps ++ more) target := by
  induction steps with
  | nil =>
    rintro source rfl
    exact hmore
  | cons step rest ih =>
    rintro source ⟨hmember, howns, hmanaging, hrest⟩
    exact ⟨hmember, howns, hmanaging, ih hrest⟩

theorem Reach.exists_leads (hreach : plan.Reach source target) :
    ∃ steps, plan.Leads source steps target := by
  induction hreach using Relation.ReflTransGen.head_induction_on with
  | refl => exact ⟨[], rfl⟩
  | head howned _ ih =>
    obtain ⟨step, hmember, rfl, rfl, howns⟩ := howned
    obtain ⟨rest, hrest⟩ := ih
    exact ⟨step :: rest, hmember, howns, rfl, hrest⟩

/-- What the step at a place is like; `spare` stands for the places after the last one. -/
theorem Leads.at_place (spare : RelationDelete) {steps : List RelationDelete} :
    ∀ {source : String}, plan.Leads source steps target → ∀ place < steps.length,
      steps.getD place spare ∈ plan.relationDeletes ∧ (steps.getD place spare).Owns ∧
        (steps.getD place spare).deleted =
          if place + 1 = steps.length then target else (steps.getD (place + 1) spare).managing := by
  induction steps with
  | nil => exact fun _ _ hplace ↦ absurd hplace (Nat.not_lt_zero _)
  | cons step rest ih =>
    rintro source ⟨hmember, howns, -, hrest⟩ place hplace
    cases place with
    | zero =>
      refine ⟨hmember, howns, ?_⟩
      cases rest with
      | nil => exact hrest
      | cons next others => exact hrest.2.2.1.symm
    | succ place =>
      have hplace : place < rest.length := Nat.lt_of_succ_lt_succ hplace
      simpa using ih hrest place hplace

/-- Directions that lead from a table to itself are a circuit. -/
theorem Leads.exists_circuit {first back : RelationDelete} {steps : List RelationDelete}
    (hleads : plan.Leads first.managing (first :: (steps ++ [back])) first.managing)
    (hlong : 0 < steps.length) :
    ∃ length path, plan.Circuit length path ∧ path 0 = first ∧ path (length - 1) = back := by
  have hlength : (first :: (steps ++ [back])).length = steps.length + 2 := by simp
  refine ⟨steps.length + 2, fun place ↦ (first :: (steps ++ [back])).getD place first, ?_, rfl, ?_⟩
  · have hplaces := hleads.at_place first
    rw [hlength] at hplaces
    refine ⟨by omega, fun place hplace ↦ (hplaces place hplace).1,
      fun place hplace ↦ (hplaces place hplace).2.1, fun place hplace ↦ ?_⟩
    rw [(hplaces place hplace).2.2, follow]
    split_ifs <;> rfl
  · simp

/-- A reentered table lies on a circuit: it starts with a direction before which no direction to the
last place is cleared. -/
theorem Reenters.exists_circuit (hplan : plan.Coherent) {name : String}
    (hreenters : plan.Reenters name) : ∃ length path, plan.Circuit length path ∧
      (path 0).managing = name ∧ ∃ before after,
        plan.relationsOf name = before ++ path 0 :: after ∧ path 0 ∉ before ∧
          ∀ other ∈ before, other.deleted ≠ (path (length - 1)).managing := by
  obtain ⟨cleared, entry, following, hrelations, howns, other, hother, hopen, hreach, hback⟩ :=
    hreenters
  have hentry : entry ∈ plan.relationsOf name := by
    rw [hrelations]
    exact List.mem_append_right _ List.mem_cons_self
  obtain ⟨hmember, rfl⟩ := mem_relationsOf_iff.mp hentry
  obtain ⟨hotherMember, hotherManaging⟩ := mem_relationsOf_iff.mp hother
  obtain ⟨back, hbackMember, hbackManaging, hbackDeleted, hbackOwns⟩ := hback
  obtain ⟨steps, hsteps⟩ := hreach.exists_leads
  have hreturn : plan.Leads other.deleted [back] entry.managing :=
    ⟨hbackMember, hbackOwns, hbackManaging, hbackDeleted⟩
  have honce : plan.Leads entry.managing (entry :: (steps ++ [back])) entry.managing :=
    ⟨hmember, howns, rfl, hreturn.append hsteps⟩
  -- twice around, so that no link row leads both ways
  have htwice : plan.Leads entry.managing (entry :: (steps ++ back :: entry :: steps ++ [back]))
      entry.managing := by
    simpa using honce.append honce
  have hlong : 0 < (steps ++ back :: entry :: steps).length := by
    rw [List.length_append, List.length_cons]
    omega
  obtain ⟨length, path, hcircuit, hfirst, hlast⟩ := htwice.exists_circuit hlong
  refine ⟨length, path, hcircuit, congrArg RelationDelete.managing hfirst, ?_⟩
  rw [hfirst, hlast, hbackManaging]
  -- the directions before the first occurrence of the first one
  have hoccurs : entry ∈ cleared ++ [entry] := List.mem_append_right _ List.mem_cons_self
  obtain ⟨before, between, hsplit, hnew⟩ := List.eq_append_cons_of_mem hoccurs
  have hwhole : plan.relationsOf entry.managing = before ++ entry :: (between ++ following) := by
    calc plan.relationsOf entry.managing = (cleared ++ [entry]) ++ following := by simp [hrelations]
      _ = before ++ entry :: (between ++ following) := by simp [hsplit]
  refine ⟨before, between ++ following, hwhole, hnew, fun direction hdirection hdeleted ↦ ?_⟩
  have hbefore : direction ∈ plan.relationsOf entry.managing := by
    rw [hwhole]
    exact List.mem_append_left _ hdirection
  obtain ⟨hdirectionMember, hdirectionManaging⟩ := mem_relationsOf_iff.mp hbefore
  obtain rfl := hplan.unique hdirectionMember hotherMember
    (hdirectionManaging.trans hotherManaging.symm) hdeleted
  have hcleared : direction ∈ cleared ++ [entry] := by
    rw [hsplit]
    exact List.mem_append_left _ hdirection
  rcases List.mem_append.mp hcleared with hcleared | hsame
  · exact hopen hcleared
  · rw [List.mem_singleton.mp hsame] at hdirection
    exact hnew hdirection

end Plan

end SchemaCompiler
