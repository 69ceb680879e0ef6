import SchemaCompiler.Proofs.PlanShape
import SchemaCompiler.Store.Cascade

/-!
# What a session holds

The rows of a session fit their tables (`Plan.Stores`). A delete takes all rows with one key out of
one table and keeps the others in their order; so what is left after some deletes is, in each table,
the part of the earlier rows that some test keeps (`Session.Within`). Deletes fail exactly if no row
has the key (`Session.delete_eq_ok`, `Session.delete_eq_error`).

A scope notes the rows that have a whole key (`Scope.Noted`); what is noted stays noted.
-/

set_option autoImplicit false
set_option relaxedAutoImplicit false

namespace SchemaCompiler

/-! ### Rows -/

/-- The rows of a session fit their tables. -/
def Plan.Stores (plan : Plan) (session : Session) : Prop :=
  ∀ ⦃name : String⦄ ⦃table : Table⦄, plan.table? name = some table →
    ∀ row ∈ session.rowsOf name, row.Fits table

theorem Plan.stores_iff {plan : Plan} {session : Session} :
    plan.Stores session ↔
      ∀ entry ∈ plan.tables.entries, ∀ row ∈ session.rowsOf entry.1, row.Fits entry.2.table := by
  constructor
  · intro hstores entry hentry row hrow
    refine hstores ?_ row hrow
    rw [Plan.table?, OrderedMap.get?_eq_some_of_mem hentry]
    rfl
  · intro hall name table htable row hrow
    obtain ⟨found, hfound, rfl⟩ := Option.map_eq_some_iff.mp htable
    exact hall (name, found) (OrderedMap.mem_of_get?_eq_some hfound) row hrow

instance (plan : Plan) (session : Session) : Decidable (plan.Stores session) :=
  decidable_of_iff _ Plan.stores_iff.symm

namespace Session

/-- Each table of the later session is a part of the table of the earlier one, in its order. -/
def Within (later earlier : Session) : Prop :=
  ∀ name, ∃ kept : Row → Bool, later.rowsOf name = (earlier.rowsOf name).filter kept

theorem Within.refl (session : Session) : session.Within session := fun _ ↦
  ⟨fun _ ↦ true, (List.filter_eq_self.mpr fun _ _ ↦ rfl).symm⟩

theorem Within.trans {first second third : Session} (hsecond : second.Within first)
    (hthird : third.Within second) : third.Within first := by
  intro name
  obtain ⟨kept, hkept⟩ := hsecond name
  obtain ⟨keptAgain, hkeptAgain⟩ := hthird name
  refine ⟨fun row ↦ kept row && keptAgain row, ?_⟩
  rw [hkeptAgain, hkept, List.filter_filter]
  exact List.filter_congr fun row _ ↦ Bool.and_comm _ _

theorem Within.mem {later earlier : Session} (hwithin : later.Within earlier) {name : String}
    {row : Row} (hrow : row ∈ later.rowsOf name) : row ∈ earlier.rowsOf name := by
  obtain ⟨kept, hkept⟩ := hwithin name
  rw [hkept] at hrow
  exact (List.mem_filter.mp hrow).1

/-- Sessions that hold the same rows of an earlier one hold them in the same order. -/
theorem Within.rowsOf_eq {later earlier : Session} (hwithin : later.Within earlier) {name : String}
    {kept : Row → Bool}
    (hkept : ∀ row ∈ earlier.rowsOf name, row ∈ later.rowsOf name ↔ kept row = true) :
    later.rowsOf name = (earlier.rowsOf name).filter kept := by
  obtain ⟨test, htest⟩ := hwithin name
  rw [htest]
  refine List.filter_congr fun row hrow ↦ ?_
  have hiff := hkept row hrow
  rw [htest, List.mem_filter] at hiff
  rw [Bool.eq_iff_iff]
  exact ⟨fun hholds ↦ hiff.mp ⟨hrow, hholds⟩, fun hholds ↦ (hiff.mpr hholds).2⟩

theorem within_note (session : Session) (operation : Operation) :
    (session.note operation).Within session := Within.refl session

/-! ### Deletes -/

/-- A delete that succeeds finds a row with the key, and takes all of them out. -/
theorem delete_eq_ok {session next : Session} {table : Table} {row : Row}
    (hdelete : session.delete table row = .ok next) :
    (∃ stored ∈ session.rowsOf table.name, table.integerKey stored = table.integerKey row) ∧
      next = (session.setRows table ((session.rowsOf table.name).filter fun stored ↦
        table.integerKey stored != table.integerKey row)).note
          (.delete table.storage (table.integerKey row)) := by
  unfold delete at hdelete
  dsimp only at hdelete
  split_ifs at hdelete with hlength
  refine ⟨?_, (Except.ok.inj hdelete).symm⟩
  by_contra hnone
  push Not at hnone
  refine hlength (List.length_filter_eq_length_iff.mpr fun stored hstored ↦ ?_)
  exact bne_iff_ne.mpr (hnone stored hstored)

/-- A delete that fails names its table and key, and no row has the key. -/
theorem delete_eq_error {session : Session} {table : Table} {row : Row} {fault : MissingRow}
    (hdelete : session.delete table row = .error fault) :
    fault = ⟨table.storage, table.integerKey row⟩ ∧
      ∀ stored ∈ session.rowsOf table.name, table.integerKey stored ≠ table.integerKey row := by
  unfold delete at hdelete
  dsimp only at hdelete
  split_ifs at hdelete with hlength
  refine ⟨(Except.error.inj hdelete).symm, fun stored hstored ↦ ?_⟩
  exact bne_iff_ne.mp (List.length_filter_eq_length_iff.mp hlength stored hstored)

theorem rowsOf_of_delete {session next : Session} {table : Table} {row : Row}
    (hdelete : session.delete table row = .ok next) (name : String) :
    next.rowsOf name = (session.rowsOf name).filter fun stored ↦
      !(name == table.name && table.integerKey stored == table.integerKey row) := by
  rw [(delete_eq_ok hdelete).2]
  by_cases hname : name = table.name
  · subst hname
    simp [note, setRows, bne]
  · have hkeeps : ∀ stored ∈ session.rowsOf name,
        (!(name == table.name && table.integerKey stored == table.integerKey row)) = true := by
      simp [hname]
    rw [List.filter_eq_self.mpr hkeeps]
    simp [note, setRows, hname]

theorem rowsOf_of_delete_of_ne {session next : Session} {table : Table} {row : Row}
    (hdelete : session.delete table row = .ok next) {name : String} (hname : name ≠ table.name) :
    next.rowsOf name = session.rowsOf name := by
  rw [(delete_eq_ok hdelete).2]
  exact if_neg hname

theorem within_of_delete {session next : Session} {table : Table} {row : Row}
    (hdelete : session.delete table row = .ok next) : next.Within session := fun name ↦
  ⟨_, rowsOf_of_delete hdelete name⟩

theorem mem_of_delete_iff {session next : Session} {table : Table} {row : Row}
    (hdelete : session.delete table row = .ok next) {name : String} {stored : Row} :
    stored ∈ next.rowsOf name ↔ stored ∈ session.rowsOf name ∧
      ¬ (name = table.name ∧ table.integerKey stored = table.integerKey row) := by
  rw [rowsOf_of_delete hdelete, List.mem_filter, Bool.not_eq_true', Bool.and_eq_false_iff,
    beq_eq_false_iff_ne, beq_eq_false_iff_ne, ne_eq, ne_eq, ← not_and_or]

/-- The rows of a table that a number refers to. -/
def targets (session : Session) (name : String) (id : Int) : List Row :=
  (session.rowsOf name).filter fun row ↦ row.integer? "id" == some id

theorem mem_targets_iff {session : Session} {name : String} {id : Int} {row : Row} :
    row ∈ session.targets name id ↔ row ∈ session.rowsOf name ∧ row.integer? "id" = some id := by
  rw [targets, List.mem_filter, beq_iff_eq]

end Session

theorem Plan.Stores.within {plan : Plan} {later earlier : Session} (hstores : plan.Stores earlier)
    (hwithin : later.Within earlier) : plan.Stores later :=
  fun _ _ htable row hrow ↦ hstores htable row (hwithin.mem hrow)

theorem Plan.stores_empty (plan : Plan) : plan.Stores .empty :=
  fun _ _ _ _ hrow ↦ absurd hrow List.not_mem_nil

theorem Plan.Stores.setRows {plan : Plan} {session : Session} (hstores : plan.Stores session)
    {table : Table} (htable : plan.table? table.name = some table) {rows : List Row}
    (hrows : ∀ row ∈ rows, row.Fits table) : plan.Stores (session.setRows table rows) := by
  intro name known hknown row hrow
  simp only [Session.setRows] at hrow
  split_ifs at hrow with hname
  · subst hname
    obtain rfl := Option.some.inj (htable.symm.trans hknown)
    exact hrows row hrow
  · exact hstores hknown row hrow

/-! ### Link rows -/

namespace RelationDelete

/-- The stored link rows of a direction that refer to a number on the managing side. -/
def linksOf (entry : RelationDelete) (session : Session) (id : Int) : List Row :=
  (session.rowsOf entry.link).filter fun link ↦ link.integer? entry.nearColumn == some id

/-- Whether a link row of a direction refers to a number on the managing side. -/
def Linked (entry : RelationDelete) (session : Session) (id : Int) : Prop :=
  ∃ link ∈ session.rowsOf entry.link, link.integer? entry.nearColumn = some id

theorem mem_linksOf_iff {entry : RelationDelete} {session : Session} {id : Int} {link : Row} :
    link ∈ entry.linksOf session id ↔
      link ∈ session.rowsOf entry.link ∧ link.integer? entry.nearColumn = some id := by
  rw [linksOf, List.mem_filter, beq_iff_eq]

theorem Linked.within {entry : RelationDelete} {later earlier : Session} {id : Int}
    (hlinked : entry.Linked later id) (hwithin : later.Within earlier) :
    entry.Linked earlier id := by
  obtain ⟨link, hlink, hid⟩ := hlinked
  exact ⟨link, hwithin.mem hlink, hid⟩

end RelationDelete

namespace Plan

/-- Whether a link row refers to a number over some direction of a table. -/
def Linked (plan : Plan) (session : Session) (name : String) (id : Int) : Prop :=
  ∃ entry ∈ plan.relationsOf name, entry.Linked session id

theorem Linked.within {plan : Plan} {later earlier : Session} {name : String} {id : Int}
    (hlinked : plan.Linked later name id) (hwithin : later.Within earlier) :
    plan.Linked earlier name id := by
  obtain ⟨entry, hentry, hid⟩ := hlinked
  exact ⟨entry, hentry, hid.within hwithin⟩

end Plan

/-! ### Scopes -/

namespace Scope

/-- Whether a scope notes a row. -/
def Noted (scope : Scope) (table : Table) (row : Row) : Prop :=
  ∃ key, table.wholeKey? row = some key ∧ (table.storage, key) ∈ scope.visited

/-- The scope that also notes a row, if its key is whole. -/
def add (scope : Scope) (table : Table) (row : Row) : Scope :=
  match table.wholeKey? row with
  | none => scope
  | some key => ⟨scope.visited ++ [(table.storage, key)]⟩

theorem visit_of_noted {scope : Scope} {table : Table} {row : Row}
    (hnoted : scope.Noted table row) : scope.visit table row = (false, scope) := by
  obtain ⟨key, hkey, hmember⟩ := hnoted
  unfold visit
  rw [hkey]
  exact if_pos hmember

theorem visit_of_not_noted {scope : Scope} {table : Table} {row : Row}
    (hnoted : ¬ scope.Noted table row) : scope.visit table row = (true, scope.add table row) := by
  unfold visit add
  cases hkey : table.wholeKey? row with
  | none => rfl
  | some key => exact if_neg fun hmember ↦ hnoted ⟨key, hkey, hmember⟩

theorem Noted.mono {first second : Scope} {table : Table} {row : Row}
    (hnoted : first.Noted table row) (hsubset : first.visited ⊆ second.visited) :
    second.Noted table row := by
  obtain ⟨key, hkey, hmember⟩ := hnoted
  exact ⟨key, hkey, hsubset hmember⟩

theorem mem_visited_add {scope : Scope} {table : Table} {row : Row} {entry : String × List Int} :
    entry ∈ (scope.add table row).visited ↔ entry ∈ scope.visited ∨
      ∃ key, table.wholeKey? row = some key ∧ entry = (table.storage, key) := by
  unfold add
  cases table.wholeKey? row with
  | none => simp
  | some key => simp

/-- What is noted after a row was noted is what was noted before, or has the key of the row. -/
theorem Noted.of_add {scope : Scope} {table other : Table} {row own : Row}
    (hnoted : (scope.add table row).Noted other own) :
    scope.Noted other own ∨ (other.storage = table.storage ∧
      ∃ key, other.wholeKey? own = some key ∧ table.wholeKey? row = some key) := by
  obtain ⟨key, hkey, hmember⟩ := hnoted
  rcases mem_visited_add.mp hmember with hold | ⟨added, hadded, heq⟩
  · exact Or.inl ⟨key, hkey, hold⟩
  · obtain ⟨hstorage, rfl⟩ := Prod.mk.inj heq
    exact Or.inr ⟨hstorage, key, hkey, hadded⟩

theorem visited_subset_add (scope : Scope) (table : Table) (row : Row) :
    scope.visited ⊆ (scope.add table row).visited := fun _ hmember ↦
  mem_visited_add.mpr (Or.inl hmember)

end Scope

end SchemaCompiler
