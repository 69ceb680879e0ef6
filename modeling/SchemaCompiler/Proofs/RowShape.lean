import SchemaCompiler.Proofs.TableShape
import SchemaCompiler.Store.Row

/-!
# Rows of a table

A row fits a table if it has a value of the right type for each column (`Row.Fits`); the rows that
a session holds are of this kind. A fitting row has an integer in each column of the primary key
that has an integer type, and in no other column of the key. So the key of the row is whole exactly
if all columns of the key have integer types, which depends on the table alone (`Table.Tracked`):
a scope notes all rows of a table or none of them.

Two fitting rows with the same integers in their keys agree in every integer column of the key
(`Row.Fits.integer?_eq_of_integerKey_eq`), in particular in `id`. Every table has fitting rows, with
any numbers in the integer columns (`Row.fits_filled`).
-/

set_option autoImplicit false
set_option relaxedAutoImplicit false

namespace SchemaCompiler

/-- Whether a value is one of the values of a column. -/
def Column.Accepts (column : Column) : Value → Prop
  | .null => column.nullable = true
  | .integer _ => column.type.isInteger = true
  | .text _ => column.type.isInteger = false ∧ column.type.enumeration? = none
  | .variant _ => column.type.enumeration?.isSome = true

instance (column : Column) (value : Value) : Decidable (column.Accepts value) :=
  match value with
  | .null => inferInstanceAs (Decidable (column.nullable = true))
  | .integer _ => inferInstanceAs (Decidable (column.type.isInteger = true))
  | .text _ => inferInstanceAs
      (Decidable (column.type.isInteger = false ∧ column.type.enumeration? = none))
  | .variant _ => inferInstanceAs (Decidable (column.type.enumeration?.isSome = true))

/-- Whether a row has a value of the right type for each column of a table. -/
def Row.Fits (table : Table) (row : Row) : Prop :=
  ∀ column ∈ table.columns, ∃ value ∈ row.value? column.name, column.Accepts value

instance (table : Table) (row : Row) : Decidable (row.Fits table) :=
  inferInstanceAs (Decidable (∀ column ∈ table.columns,
    ∃ value ∈ row.value? column.name, column.Accepts value))

/-- Whether all columns of the primary key have integer types, so that scopes note the rows. -/
def Table.Tracked (table : Table) : Prop :=
  ∀ column ∈ table.columns, column.primaryKey = true → column.type.isInteger = true

instance (table : Table) : Decidable table.Tracked :=
  inferInstanceAs (Decidable (∀ column ∈ table.columns,
    column.primaryKey = true → column.type.isInteger = true))

/-! ### Key columns -/

namespace Table

theorem mem_keyColumns_iff {table : Table} {name : String} :
    name ∈ table.keyColumns ↔
      ∃ column ∈ table.columns, column.primaryKey = true ∧ column.name = name := by
  simp [keyColumns, and_assoc]

theorem WellFormed.mem_columns_iff {table : Table} (hshape : table.WellFormed) {column : Column} :
    column ∈ table.columns ↔ table.primary.get? column.name = some column ∨
      table.ordinary.get? column.name = some column := by
  simp only [columns, List.mem_append, OrderedMap.mem_values_iff]
  constructor
  · rintro (⟨name, hget⟩ | ⟨name, hget⟩)
    · rw [hshape.primary_name hget]
      exact Or.inl hget
    · rw [hshape.ordinary_name hget]
      exact Or.inr hget
  · rintro (hget | hget)
    · exact Or.inl ⟨_, hget⟩
    · exact Or.inr ⟨_, hget⟩

theorem WellFormed.nullable_eq_false {table : Table} (hshape : table.WellFormed) {column : Column}
    (hcolumn : column ∈ table.columns) (hkey : column.primaryKey = true) :
    column.nullable = false := by
  rcases hshape.mem_columns_iff.mp hcolumn with hget | hget
  · exact hshape.primary_present hget
  · rw [hshape.ordinary_unmarked hget] at hkey
    cases hkey

/-- The key columns are the columns that are filed as primary. -/
theorem WellFormed.keyColumns_eq {table : Table} (hshape : table.WellFormed) :
    table.keyColumns = table.primary.values.map Column.name := by
  have hprimary : table.primary.values.filter Column.primaryKey = table.primary.values := by
    refine List.filter_eq_self.mpr fun column hcolumn ↦ ?_
    obtain ⟨name, hget⟩ := OrderedMap.mem_values_iff.mp hcolumn
    exact hshape.primary_marked hget
  have hordinary : table.ordinary.values.filter Column.primaryKey = [] := by
    refine List.filter_eq_nil_iff.mpr fun column hcolumn ↦ ?_
    obtain ⟨name, hget⟩ := OrderedMap.mem_values_iff.mp hcolumn
    simp [hshape.ordinary_unmarked hget]
  rw [keyColumns, columns, List.filter_append, hprimary, hordinary, List.append_nil]

/-- Tables whose rows can be referred to have an integer column `id` in their primary key. -/
theorem WellFormed.exists_id {table : Table} (hshape : table.WellFormed)
    (hid : table.hasIntegerId = true) :
    ∃ column ∈ table.columns, column.name = "id" ∧ column.primaryKey = true ∧
      column.type.isInteger = true ∧ column.nullable = false := by
  unfold hasIntegerId at hid
  cases hget : table.primary.get? "id" with
  | none => simp [hget] at hid
  | some column =>
    have hname := hshape.primary_name hget
    refine ⟨column, hshape.mem_columns_iff.mpr (Or.inl (hname ▸ hget)), hname,
      hshape.primary_marked hget, ?_, hshape.primary_present hget⟩
    simp only [hget, Bool.and_eq_true] at hid
    exact hid.1

end Table

/-! ### Keys of rows -/

theorem mapM_eq_some_filterMap {Item Value : Type} {read : Item → Option Value} :
    ∀ {items : List Item}, (∀ item ∈ items, (read item).isSome = true) →
      items.mapM read = some (items.filterMap read)
  | [], _ => rfl
  | item :: rest, hread => by
    obtain ⟨value, hvalue⟩ := Option.isSome_iff_exists.mp (hread item List.mem_cons_self)
    have hrest := mapM_eq_some_filterMap fun other hother ↦
      hread other (List.mem_cons_of_mem item hother)
    simp [List.mapM_cons, hvalue, hrest]

theorem mapM_eq_none {Item Value : Type} {read : Item → Option Value} :
    ∀ {items : List Item} {item : Item}, item ∈ items → read item = none → items.mapM read = none
  | first :: rest, item, hmember, hnone => by
    rcases List.mem_cons.mp hmember with rfl | hmember
    · simp [List.mapM_cons, hnone]
    · have hrest := mapM_eq_none hmember hnone
      cases hfirst : read first <;> simp [List.mapM_cons, hfirst, hrest]

theorem eq_of_filterMap_eq {Item Value : Type} {first second : Item → Option Value} :
    ∀ {items : List Item}, (∀ item ∈ items, (first item).isSome = (second item).isSome) →
      items.filterMap first = items.filterMap second → ∀ item ∈ items, first item = second item
  | [], _, _, _, hmember => absurd hmember List.not_mem_nil
  | item :: rest, hsome, heq, other, hmember => by
    have hrest : ∀ member ∈ rest, (first member).isSome = (second member).isSome :=
      fun member hmember ↦ hsome member (List.mem_cons_of_mem item hmember)
    have hitem := hsome item List.mem_cons_self
    cases hfirst : first item with
    | none =>
      have hsecond : second item = none := by simpa [hfirst] using hitem.symm
      simp only [List.filterMap_cons, hfirst, hsecond] at heq
      rcases List.mem_cons.mp hmember with rfl | hmember
      · rw [hfirst, hsecond]
      · exact eq_of_filterMap_eq hrest heq other hmember
    | some value =>
      obtain ⟨twin, hsecond⟩ := Option.isSome_iff_exists.mp (hitem.symm.trans (by simp [hfirst]))
      simp only [List.filterMap_cons, hfirst, hsecond, List.cons.injEq] at heq
      rcases List.mem_cons.mp hmember with rfl | hmember
      · rw [hfirst, hsecond, heq.1]
      · exact eq_of_filterMap_eq hrest heq.2 other hmember

namespace Row

/-- The integers of the rows of a table stand in its integer columns. -/
theorem Fits.isSome_integer? {table : Table} {row : Row} (hfits : row.Fits table) {column : Column}
    (hcolumn : column ∈ table.columns) (hpresent : column.nullable = false) :
    (row.integer? column.name).isSome = column.type.isInteger := by
  obtain ⟨value, hvalue, haccepts⟩ := hfits column hcolumn
  unfold integer?
  rw [Option.mem_def.mp hvalue]
  cases value with
  | null =>
    have hnullable : column.nullable = true := haccepts
    rw [hpresent] at hnullable
    cases hnullable
  | integer number => exact (haccepts : column.type.isInteger = true).symm
  | text content => exact haccepts.1.symm
  | variant name =>
    have hsymbol : column.type.enumeration?.isSome = true := haccepts
    cases htype : column.type <;> simp_all [ColumnType.enumeration?, ColumnType.isInteger]

theorem Fits.isSome_key {table : Table} {row : Row} (hshape : table.WellFormed)
    (hfits : row.Fits table) {column : Column} (hcolumn : column ∈ table.columns)
    (hkey : column.primaryKey = true) :
    (row.integer? column.name).isSome = column.type.isInteger :=
  hfits.isSome_integer? hcolumn (hshape.nullable_eq_false hcolumn hkey)

theorem Fits.exists_id {table : Table} {row : Row} (hshape : table.WellFormed)
    (hid : table.hasIntegerId = true) (hfits : row.Fits table) :
    ∃ id, row.integer? "id" = some id := by
  obtain ⟨column, hcolumn, hname, -, htype, hpresent⟩ := hshape.exists_id hid
  rw [← Option.isSome_iff_exists, ← hname, hfits.isSome_integer? hcolumn hpresent, htype]

/-- The rows of a tracked table have integers in all columns of the key. -/
theorem Fits.isSome_of_tracked {table : Table} {row : Row} (hshape : table.WellFormed)
    (htracked : table.Tracked) (hfits : row.Fits table) {name : String}
    (hname : name ∈ table.keyColumns) : (row.integer? name).isSome = true := by
  obtain ⟨column, hcolumn, hkey, rfl⟩ := Table.mem_keyColumns_iff.mp hname
  rw [hfits.isSome_key hshape hcolumn hkey, htracked column hcolumn hkey]

/-- The rows of a tracked table have whole keys. -/
theorem Fits.wholeKey?_of_tracked {table : Table} {row : Row} (hshape : table.WellFormed)
    (htracked : table.Tracked) (hfits : row.Fits table) :
    table.wholeKey? row = some (table.integerKey row) :=
  mapM_eq_some_filterMap fun _ hname ↦ hfits.isSome_of_tracked hshape htracked hname

/-- The rows of any other table have no whole keys. -/
theorem Fits.wholeKey?_of_not_tracked {table : Table} {row : Row} (hshape : table.WellFormed)
    (huntracked : ¬ table.Tracked) (hfits : row.Fits table) : table.wholeKey? row = none := by
  unfold Table.Tracked at huntracked
  push Not at huntracked
  obtain ⟨column, hcolumn, hkey, htype⟩ := huntracked
  refine mapM_eq_none (Table.mem_keyColumns_iff.mpr ⟨column, hcolumn, hkey, rfl⟩) ?_
  rw [← Option.isNone_iff_eq_none, ← Option.not_isSome, hfits.isSome_key hshape hcolumn hkey]
  simpa using htype

theorem Fits.integerKey_eq_of_wholeKey? {table : Table} {row : Row} (hshape : table.WellFormed)
    (hfits : row.Fits table) {key : List Int} (hkey : table.wholeKey? row = some key) :
    table.integerKey row = key := by
  by_cases htracked : table.Tracked
  · rw [hfits.wholeKey?_of_tracked hshape htracked] at hkey
    exact Option.some.inj hkey
  · rw [hfits.wholeKey?_of_not_tracked hshape htracked] at hkey
    cases hkey

/-- Rows with one key agree in all integer columns of the key. -/
theorem Fits.integer?_eq_of_integerKey_eq {table : Table} {row other : Row}
    (hshape : table.WellFormed) (hrow : row.Fits table) (hother : other.Fits table)
    (hkeys : table.integerKey row = table.integerKey other) {name : String}
    (hname : name ∈ table.keyColumns) : row.integer? name = other.integer? name := by
  refine eq_of_filterMap_eq (fun member hmember ↦ ?_) hkeys name hname
  obtain ⟨column, hcolumn, hkey, rfl⟩ := Table.mem_keyColumns_iff.mp hmember
  rw [hrow.isSome_key hshape hcolumn hkey, hother.isSome_key hshape hcolumn hkey]

end Row

/-! ### Filled rows -/

/-- A value of a column: the given number, if the column holds integers. -/
def Column.fill (column : Column) (number : Int) : Value :=
  match column.type with
  | .integer | .smallInteger => .integer number
  | .enumeration _ => .variant ""
  | .text _ | .dateTime | .date => .text ""

theorem Column.accepts_fill (column : Column) (number : Int) :
    column.Accepts (column.fill number) := by
  unfold fill
  cases htype : column.type <;>
    simp [Accepts, htype, ColumnType.isInteger, ColumnType.enumeration?]

theorem Column.fill_of_isInteger {column : Column} (htype : column.type.isInteger = true)
    (number : Int) : column.fill number = .integer number := by
  unfold fill
  cases hcolumn : column.type <;> simp_all [ColumnType.isInteger]

/-- The row of a table with given numbers in its integer columns. -/
def Row.filled (table : Table) (number : String → Int) : Row :=
  ⟨table.columns.map fun column ↦ (column.name, column.fill (number column.name))⟩

theorem Table.WellFormed.eq_of_name_eq {table : Table} (hshape : table.WellFormed)
    {first second : Column} (hfirst : first ∈ table.columns) (hsecond : second ∈ table.columns)
    (hname : first.name = second.name) : first = second := by
  have hapart : table.primary.get? second.name = none ∨ table.ordinary.get? second.name = none :=
    hshape.apart
  rcases hshape.mem_columns_iff.mp hfirst with hfirst | hfirst <;>
    rcases hshape.mem_columns_iff.mp hsecond with hsecond | hsecond <;>
    rw [hname] at hfirst <;> simp_all

namespace Row

variable {table : Table} {number : String → Int}

theorem value?_filled (hshape : table.WellFormed) {column : Column}
    (hcolumn : column ∈ table.columns) :
    (filled table number).value? column.name = some (column.fill (number column.name)) := by
  have hsome : (table.columns.find? fun other ↦ other.name == column.name).isSome = true :=
    List.find?_isSome.mpr ⟨column, hcolumn, beq_self_eq_true _⟩
  obtain ⟨other, hfind⟩ := Option.isSome_iff_exists.mp hsome
  have hname : other.name = column.name := by simpa using List.find?_some hfind
  obtain rfl := hshape.eq_of_name_eq (List.mem_of_find?_eq_some hfind) hcolumn hname
  unfold value? filled
  rw [List.find?_map]
  have hcomp : (fun entry : String × Value ↦ entry.1 == other.name) ∘
      (fun column : Column ↦ (column.name, column.fill (number column.name))) =
      fun column ↦ column.name == other.name := rfl
  rw [hcomp, hfind]
  rfl

theorem fits_filled (hshape : table.WellFormed) : (filled table number).Fits table :=
  fun column hcolumn ↦ ⟨_, value?_filled hshape hcolumn, column.accepts_fill _⟩

theorem integer?_filled (hshape : table.WellFormed) {column : Column}
    (hcolumn : column ∈ table.columns) (htype : column.type.isInteger = true) :
    (filled table number).integer? column.name = some (number column.name) := by
  unfold integer?
  rw [value?_filled hshape hcolumn, Column.fill_of_isInteger htype]

end Row

end SchemaCompiler
