import SchemaCompiler.Proofs.Entries
import SchemaCompiler.Schema.Build

/-!
# The shape of tables

Every table that a document introduces files its columns under their names, those of the primary key
apart from the others, and no column of the primary key may be null (`Table.WellFormed`). Adding a
column keeps this (`WellFormed.insertColumn`) and touches nothing else of the table
(`Table.SameHead`), so that both hold of the table of a definition (`ofDefinition_shape`) and of the
link entity of a relation (`ofRelation_shape`). The primary key of a link entity consists of the two
columns that refer to its sides, in the order of the sides.
-/

set_option autoImplicit false
set_option relaxedAutoImplicit false

namespace SchemaCompiler

namespace Table

/-- Columns are filed under their names, once, and those of the primary key are never null. -/
structure WellFormed (table : Table) : Prop where
  primary_name : ∀ {key : String} {column : Column},
    table.primary.get? key = some column → column.name = key
  primary_marked : ∀ {key : String} {column : Column},
    table.primary.get? key = some column → column.primaryKey = true
  primary_present : ∀ {key : String} {column : Column},
    table.primary.get? key = some column → column.nullable = false
  ordinary_name : ∀ {key : String} {column : Column},
    table.ordinary.get? key = some column → column.name = key
  ordinary_unmarked : ∀ {key : String} {column : Column},
    table.ordinary.get? key = some column → column.primaryKey = false
  apart : ∀ {key : String}, table.primary.get? key = none ∨ table.ordinary.get? key = none

/-- Two tables that differ in columns and shown columns at most. -/
structure SameHead (first second : Table) : Prop where
  name : second.name = first.name
  kind : second.kind = first.kind
  accessors : second.accessors = first.accessors

theorem SameHead.refl (table : Table) : table.SameHead table := ⟨rfl, rfl, rfl⟩

theorem SameHead.trans {first second third : Table} (hfirst : first.SameHead second)
    (hsecond : second.SameHead third) : first.SameHead third :=
  ⟨hsecond.name.trans hfirst.name, hsecond.kind.trans hfirst.kind,
    hsecond.accessors.trans hfirst.accessors⟩

theorem sameHead_addColumn (table : Table) (column : Column) :
    table.SameHead (table.addColumn column) := by
  unfold addColumn
  split <;> exact ⟨rfl, rfl, rfl⟩

/-- Link entities are the tables that are not declared. -/
theorem isLink_iff_kind_ne {table : Table} : table.isLink = true ↔ table.kind ≠ .declared := by
  unfold isLink
  cases table.kind <;> simp

theorem column?_eq_none_iff {table : Table} {name : String} :
    table.column? name = none ↔
      table.primary.get? name = none ∧ table.ordinary.get? name = none := by
  unfold column?
  cases table.primary.get? name <;> simp

theorem wellFormed_bare (name storage : String) (kind : TableKind) :
    ({ name := name, storage := storage, kind := kind } : Table).WellFormed where
  primary_name := by intro _ _ hget; cases hget
  primary_marked := by intro _ _ hget; cases hget
  primary_present := by intro _ _ hget; cases hget
  ordinary_name := by intro _ _ hget; cases hget
  ordinary_unmarked := by intro _ _ hget; cases hget
  apart := Or.inl rfl

theorem WellFormed.addPrimary {table : Table} {column : Column} (hshape : table.WellFormed)
    (hfree : table.ordinary.get? column.name = none) (hmarked : column.primaryKey = true)
    (hpresent : column.nullable = false) :
    ({ table with primary := table.primary.insert column.name column } : Table).WellFormed where
  primary_name := by
    intro key other hget
    simp only [OrderedMap.get?_insert] at hget
    split_ifs at hget with hkey
    · cases hget
      exact hkey.symm
    · exact hshape.primary_name hget
  primary_marked := by
    intro key other hget
    simp only [OrderedMap.get?_insert] at hget
    split_ifs at hget with hkey
    · cases hget
      exact hmarked
    · exact hshape.primary_marked hget
  primary_present := by
    intro key other hget
    simp only [OrderedMap.get?_insert] at hget
    split_ifs at hget with hkey
    · cases hget
      exact hpresent
    · exact hshape.primary_present hget
  ordinary_name := hshape.ordinary_name
  ordinary_unmarked := hshape.ordinary_unmarked
  apart := by
    intro key
    simp only [OrderedMap.get?_insert]
    by_cases hkey : key = column.name
    · rw [hkey]
      exact Or.inr hfree
    · rw [if_neg hkey]
      exact hshape.apart

theorem WellFormed.addOrdinary {table : Table} {column : Column} (hshape : table.WellFormed)
    (hfree : table.primary.get? column.name = none) (hunmarked : column.primaryKey = false) :
    ({ table with ordinary := table.ordinary.insert column.name column } : Table).WellFormed where
  primary_name := hshape.primary_name
  primary_marked := hshape.primary_marked
  primary_present := hshape.primary_present
  ordinary_name := by
    intro key other hget
    simp only [OrderedMap.get?_insert] at hget
    split_ifs at hget with hkey
    · cases hget
      exact hkey.symm
    · exact hshape.ordinary_name hget
  ordinary_unmarked := by
    intro key other hget
    simp only [OrderedMap.get?_insert] at hget
    split_ifs at hget with hkey
    · cases hget
      exact hunmarked
    · exact hshape.ordinary_unmarked hget
  apart := by
    intro key
    simp only [OrderedMap.get?_insert]
    by_cases hkey : key = column.name
    · rw [hkey]
      exact Or.inl hfree
    · rw [if_neg hkey]
      exact hshape.apart

theorem insertColumn_eq_ok_iff {table next : Table} {column : Column} :
    table.insertColumn column = .ok next ↔
      table.column? column.name = none ∧ next = table.addColumn column := by
  unfold insertColumn
  cases table.column? column.name with
  | none => simp [eq_comm]
  | some _ => simp

/-- Adding a column keeps the shape of a table, if a key column is never null. -/
theorem WellFormed.insertColumn {table next : Table} {column : Column} (hshape : table.WellFormed)
    (hpresent : column.primaryKey = true → column.nullable = false)
    (hinsert : table.insertColumn column = .ok next) :
    next.WellFormed ∧ table.SameHead next := by
  obtain ⟨hfree, rfl⟩ := insertColumn_eq_ok_iff.mp hinsert
  obtain ⟨hprimary, hordinary⟩ := column?_eq_none_iff.mp hfree
  refine ⟨?_, sameHead_addColumn table column⟩
  unfold addColumn
  split
  next hmarked => exact hshape.addPrimary hordinary hmarked (hpresent hmarked)
  next hunmarked => exact hshape.addOrdinary hprimary (by simpa using hunmarked)

end Table

/-! ### Tables of statements -/

theorem Column.addOption_keeps {table : String} {column : Column} {wanted : Bool}
    {option : FieldOption} {next : Column × Bool}
    (hadd : column.addOption table wanted option = .ok next) :
    next.1.name = column.name ∧ next.1.primaryKey = column.primaryKey := by
  cases option <;> simp only [addOption] at hadd <;> split at hadd <;> cases hadd <;>
    exact ⟨rfl, rfl⟩

/-- The column of a field has the name of the field and is outside the primary key. -/
theorem Column.ofField_shape {table : String} {field : Field} {column : Column}
    (hfield : Column.ofField table field = .ok column) :
    column.name = field.name ∧ column.primaryKey = false := by
  unfold ofField at hfield
  obtain ⟨⟨bare, wanted⟩, hfold, hrest⟩ := bind_eq_ok_iff.mp hfield
  have hbare : bare.name = field.name ∧ bare.primaryKey = false := by
    refine foldlM_ok_invariant
      (fun state : Column × Bool ↦ state.1.name = field.name ∧ state.1.primaryKey = false)
      ?_ _ _ _ ⟨rfl, rfl⟩ hfold
    intro state option next hstate hnext
    obtain ⟨hname, hmark⟩ := addOption_keeps hnext
    exact ⟨hname.trans hstate.1, hmark.trans hstate.2⟩
  cases wanted with
  | false =>
    cases hrest
    exact hbare
  | true =>
    simp only [↓reduceIte] at hrest
    split at hrest
    · cases hrest
    · split at hrest
      · cases hrest
        exact hbare
      · cases hrest

namespace Table

theorem WellFormed.insertField {table next : Table} {field : Field} (hshape : table.WellFormed)
    (hinsert : table.insertField field = .ok next) :
    next.WellFormed ∧ table.SameHead next ∧ next.primary = table.primary := by
  obtain ⟨column, hcolumn, hinsert⟩ := bind_eq_ok_iff.mp hinsert
  have hunmarked := (Column.ofField_shape hcolumn).2
  obtain ⟨hnext, hhead⟩ :=
    hshape.insertColumn (fun hmarked ↦ by simp [hunmarked] at hmarked) hinsert
  refine ⟨hnext, hhead, ?_⟩
  rw [(insertColumn_eq_ok_iff.mp hinsert).2, addColumn, hunmarked, if_neg Bool.false_ne_true]

theorem WellFormed.insertPrimary {table next : Table} {field : Field} (hshape : table.WellFormed)
    (hinsert : table.insertPrimary field = .ok next) :
    next.WellFormed ∧ table.SameHead next := by
  obtain ⟨column, hcolumn, hinsert⟩ := bind_eq_ok_iff.mp hinsert
  split at hinsert
  · cases hinsert
  next hpresent => exact hshape.insertColumn (fun _ ↦ by simpa using hpresent) hinsert

theorem WellFormed.insertFields {first last : Table} {fields : List Field}
    (hshape : first.WellFormed) (hfold : fields.foldlM Table.insertField first = .ok last) :
    last.WellFormed ∧ first.SameHead last ∧ last.primary = first.primary := by
  refine foldlM_ok_invariant
    (fun table : Table ↦ table.WellFormed ∧ first.SameHead table ∧ table.primary = first.primary)
    ?_ _ _ _ ⟨hshape, SameHead.refl first, rfl⟩ hfold
  rintro table field next ⟨htable, hhead, hprimary⟩ hnext
  obtain ⟨hshape, hsame, hkept⟩ := htable.insertField hnext
  exact ⟨hshape, hhead.trans hsame, hkept.trans hprimary⟩

theorem WellFormed.insertPrimaries {first last : Table} {fields : List Field}
    (hshape : first.WellFormed) (hfold : fields.foldlM Table.insertPrimary first = .ok last) :
    last.WellFormed ∧ first.SameHead last := by
  refine foldlM_ok_invariant (fun table : Table ↦ table.WellFormed ∧ first.SameHead table)
    ?_ _ _ _ ⟨hshape, SameHead.refl first⟩ hfold
  rintro table field next ⟨htable, hhead⟩ hnext
  obtain ⟨hshape, hsame⟩ := htable.insertPrimary hnext
  exact ⟨hshape, hhead.trans hsame⟩

/-- Naming the shown columns changes nothing else. -/
theorem WellFormed.showFields {table next : Table} {clause : Option Shown}
    (hshape : table.WellFormed) (hshow : table.showFields clause = .ok next) :
    next.WellFormed ∧ table.SameHead next ∧ next.primary = table.primary := by
  have hnext : ∃ names, next = { table with shown := names } := by
    cases clause with
    | none => exact ⟨_, (Except.ok.inj hshow).symm⟩
    | some shown =>
      cases shown with
      | all => exact ⟨_, (Except.ok.inj hshow).symm⟩
      | fields names =>
        simp only [Table.showFields] at hshow
        split at hshow
        · cases hshow
        · exact ⟨_, (Except.ok.inj hshow).symm⟩
  obtain ⟨names, rfl⟩ := hnext
  exact ⟨⟨hshape.primary_name, hshape.primary_marked, hshape.primary_present,
    hshape.ordinary_name, hshape.ordinary_unmarked, hshape.apart⟩, ⟨rfl, rfl, rfl⟩, rfl⟩

/-- The table of a definition. -/
theorem ofDefinition_shape {definition : TableDefinition} {table : Table}
    (hbuild : Table.ofDefinition definition = .ok table) :
    table.WellFormed ∧ table.name = definition.name ∧ table.kind = .declared ∧
      table.accessors = .empty := by
  obtain ⟨keyed, hkeyed, hrest⟩ := bind_eq_ok_iff.mp hbuild
  obtain ⟨full, hfull, hshow⟩ := bind_eq_ok_iff.mp hrest
  obtain ⟨hshape, hhead⟩ := (wellFormed_bare _ _ _).insertPrimaries hkeyed
  obtain ⟨hshape, hfields, -⟩ := hshape.insertFields hfull
  obtain ⟨hshape, hshown, -⟩ := hshape.showFields hshow
  have hsame := (hhead.trans hfields).trans hshown
  exact ⟨hshape, hsame.name, hsame.kind, hsame.accessors⟩

/-- The link entity of a relation, with its primary key. -/
theorem ofRelation_shape {relation : Relation} {table : Table}
    (hbuild : Table.ofRelation relation = .ok table) :
    table.WellFormed ∧ table.name = Name.link relation.left.symbol relation.right.symbol ∧
      table.kind = .link relation.left.symbol relation.right.symbol ∧ table.accessors = .empty ∧
      table.primary.values =
        [keyColumn relation.left.symbol, keyColumn relation.right.symbol] := by
  obtain ⟨keyed, hkeyed, hrest⟩ := bind_eq_ok_iff.mp hbuild
  obtain ⟨full, hfull, hshow⟩ := bind_eq_ok_iff.mp hrest
  rw [List.foldlM_cons] at hkeyed
  obtain ⟨half, hhalf, hkeyed⟩ := bind_eq_ok_iff.mp hkeyed
  rw [List.foldlM_cons] at hkeyed
  obtain ⟨both, hboth, hkeyed⟩ := bind_eq_ok_iff.mp hkeyed
  cases hkeyed
  obtain ⟨hshape, hfirst⟩ := (wellFormed_bare _ _ _).insertColumn (fun _ ↦ rfl) hhalf
  obtain ⟨hshape, hsecond⟩ := hshape.insertColumn (fun _ ↦ rfl) hboth
  obtain ⟨hshape, hfields, hkept⟩ := hshape.insertFields hfull
  obtain ⟨hshape, hshown, hkept'⟩ := hshape.showFields hshow
  have hsame := ((hfirst.trans hsecond).trans hfields).trans hshown
  refine ⟨hshape, hsame.name, hsame.kind, hsame.accessors, ?_⟩
  obtain ⟨-, rfl⟩ := insertColumn_eq_ok_iff.mp hhalf
  obtain ⟨hfree, rfl⟩ := insertColumn_eq_ok_iff.mp hboth
  rw [hkept', hkept]
  have hright := (column?_eq_none_iff.mp hfree).1
  simp only [addColumn, keyColumn, ↓reduceIte] at hright ⊢
  rw [OrderedMap.values, OrderedMap.entries_insert_of_get?_eq_none hright,
    OrderedMap.entries_insert_of_get?_eq_none rfl]
  rfl

end Table

end SchemaCompiler
