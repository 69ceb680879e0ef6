import SchemaCompiler.Proofs.TableShape

/-!
# What the table of a statement holds

Each statement of a document introduces one table, and the statement alone says what that table
holds: `Field.column` is the column of a field, `Statement.columns` are the columns of a table in
their order, and `Statement.Describes` ties a table to its statement in everything but the
accessors, which the relations add later.

A table is built field by field, and each step may fail. `Column.ofField_eq_ok_iff` says when a
field gives a column and which one; `foldlM_insertColumn_eq_ok_iff` says that columns can be added
in turn exactly if their names differ. Together they give, for a whole statement, exactly when its
table can be built and what it is (`Statement.build_eq_ok_iff`).
-/

set_option autoImplicit false
set_option relaxedAutoImplicit false

namespace SchemaCompiler

/-! ### Fields -/

namespace Field

/-- A field repeats no option, and one that asks for a sequence holds integers and is never null. -/
structure Valid (field : Field) : Prop where
  options_nodup : field.options.Nodup
  sequence : FieldOption.sequence ∈ field.options →
    FieldOption.nullable ∉ field.options ∧ field.type ∈ ["int", "Integer", "SmallInteger"]

/-- The column of a field of a table. -/
def column (table : String) (field : Field) : Column where
  name := field.name
  type := .ofSymbol field.type
  nullable := decide (FieldOption.nullable ∈ field.options)
  unique := decide (FieldOption.unique ∈ field.options)
  initial := field.initial.map DefaultText.text
  sequence := if FieldOption.sequence ∈ field.options then some (Name.sequence table) else none

/-- The column of a field of a primary key. -/
def primaryColumn (table : String) (field : Field) : Column :=
  { field.column table with primaryKey := true }

end Field

theorem ColumnType.isInteger_ofSymbol_iff (symbol : String) :
    (ofSymbol symbol).isInteger = true ↔ symbol ∈ ["int", "Integer", "SmallInteger"] := by
  simp only [ofSymbol, apply_ite isInteger]
  simp [isInteger]

namespace Column

/-- Whether an option was met, in the state in which the options of a field are read. -/
def met (state : Column × Bool) : FieldOption → Bool
  | .nullable => state.1.nullable
  | .unique => state.1.unique
  | .sequence => state.2

/-- The state after an option. -/
def meet (state : Column × Bool) : FieldOption → Column × Bool
  | .nullable => ({ state.1 with nullable := true }, state.2)
  | .unique => ({ state.1 with unique := true }, state.2)
  | .sequence => (state.1, true)

theorem addOption_eq_ok_iff {table : String} {state next : Column × Bool} {option : FieldOption} :
    state.1.addOption table state.2 option = .ok next ↔
      met state option = false ∧ next = meet state option := by
  cases option <;> simp only [addOption, met, meet] <;> split <;> simp_all [@eq_comm _ _ next]

theorem met_meet (state : Column × Bool) (option other : FieldOption) :
    met (meet state option) other = (met state other || decide (other = option)) := by
  cases option <;> cases other <;> simp [met, meet]

/-- Options can be read in turn exactly if none was met and none is repeated. -/
theorem foldlM_addOption_eq_ok_iff {table : String} {options : List FieldOption} :
    ∀ {state next : Column × Bool},
      options.foldlM (fun state option ↦ state.1.addOption table state.2 option) state = .ok next ↔
        options.Nodup ∧ (∀ option ∈ options, met state option = false) ∧
          next = options.foldl meet state := by
  induction options with
  | nil =>
    intro state next
    simp [pure, Except.pure, @eq_comm _ _ next]
  | cons option rest ih =>
    intro state next
    have hnew : (∀ other ∈ rest, met (meet state option) other = false) ↔
        option ∉ rest ∧ ∀ other ∈ rest, met state other = false := by
      simp only [met_meet, Bool.or_eq_false_iff, decide_eq_false_iff_not]
      constructor
      · intro hrest
        exact ⟨fun hmember ↦ (hrest option hmember).2 rfl,
          fun other hother ↦ (hrest other hother).1⟩
      · rintro ⟨hoption, hrest⟩ other hother
        exact ⟨hrest other hother, fun hsame ↦ hoption (hsame ▸ hother)⟩
    rw [List.foldlM_cons, bind_eq_ok_iff]
    simp only [addOption_eq_ok_iff, and_assoc, exists_and_left, exists_eq_left, ih, hnew,
      List.nodup_cons, List.forall_mem_cons, List.foldl_cons]
    tauto

theorem foldl_meet (options : List FieldOption) (column : Column) (wanted : Bool) :
    options.foldl meet (column, wanted) =
      ({ column with
          nullable := column.nullable || decide (FieldOption.nullable ∈ options)
          unique := column.unique || decide (FieldOption.unique ∈ options) },
        wanted || decide (FieldOption.sequence ∈ options)) := by
  induction options generalizing column wanted with
  | nil => simp
  | cons option rest ih =>
    rw [List.foldl_cons]
    cases option <;> simp [meet, ih]

/-- A field gives a column exactly if it is valid. -/
theorem ofField_eq_ok_iff {table : String} {field : Field} {column : Column} :
    ofField table field = .ok column ↔ field.Valid ∧ column = field.column table := by
  have hstart : ∀ option, met ({ name := field.name, type := .ofSymbol field.type }, false) option
      = false := by
    intro option
    cases option <;> rfl
  unfold ofField
  simp only [bind_eq_ok_iff, foldlM_addOption_eq_ok_iff, hstart, implies_true, true_and,
    foldl_meet, Bool.false_or]
  constructor
  · rintro ⟨_, ⟨hnodup, rfl⟩, hrest⟩
    dsimp only at hrest
    by_cases hsequence : FieldOption.sequence ∈ field.options
    · by_cases hnull : FieldOption.nullable ∈ field.options
      · simp [hsequence, hnull, throw, throwThe, MonadExceptOf.throw] at hrest
      · by_cases htype : (ColumnType.ofSymbol field.type).isInteger = true
        · simp only [hsequence, hnull, htype, decide_true, decide_false, ↓reduceIte,
            Bool.false_eq_true] at hrest
          refine ⟨⟨hnodup, fun _ ↦ ⟨hnull, (ColumnType.isInteger_ofSymbol_iff _).mp htype⟩⟩, ?_⟩
          rw [← Except.ok.inj hrest]
          simp [Field.column, hsequence, hnull]
        · simp [hsequence, hnull, htype, throw, throwThe, MonadExceptOf.throw] at hrest
    · simp only [hsequence, decide_false, Bool.false_eq_true, ↓reduceIte] at hrest
      refine ⟨⟨hnodup, fun hmember ↦ absurd hmember hsequence⟩, ?_⟩
      rw [← Except.ok.inj hrest]
      simp [Field.column, hsequence]
  · rintro ⟨hvalid, rfl⟩
    refine ⟨_, ⟨hvalid.options_nodup, rfl⟩, ?_⟩
    dsimp only
    by_cases hsequence : FieldOption.sequence ∈ field.options
    · obtain ⟨hnull, htype⟩ := hvalid.sequence hsequence
      rw [← ColumnType.isInteger_ofSymbol_iff] at htype
      simp [Field.column, hsequence, hnull, htype, pure, Except.pure]
    · simp [Field.column, hsequence, pure, Except.pure]

end Column

/-! ### Columns in turn -/

namespace Table

theorem insertPrimary_eq_ok_iff {table next : Table} {field : Field} :
    table.insertPrimary field = .ok next ↔
      (field.Valid ∧ FieldOption.nullable ∉ field.options) ∧
        table.insertColumn (field.primaryColumn table.name) = .ok next := by
  unfold insertPrimary
  rw [bind_eq_ok_iff]
  simp only [Column.ofField_eq_ok_iff, and_assoc, exists_and_left, exists_eq_left]
  refine and_congr_right fun _ ↦ ?_
  by_cases hnull : FieldOption.nullable ∈ field.options
  · simp [Field.column, hnull, throw, throwThe, MonadExceptOf.throw]
  · simp [Field.column, Field.primaryColumn, hnull]

theorem insertField_eq_ok_iff {table next : Table} {field : Field} :
    table.insertField field = .ok next ↔
      field.Valid ∧ table.insertColumn (field.column table.name) = .ok next := by
  unfold insertField
  rw [bind_eq_ok_iff]
  simp only [Column.ofField_eq_ok_iff, and_assoc, exists_and_left, exists_eq_left]

/-- Fields that give a column each can be added in turn exactly if they are fit for it and the
columns can be added in turn. -/
theorem foldlM_field_eq_ok_iff {step : Table → Field → Except SchemaFault Table}
    {fit : Field → Prop} {make : String → Field → Column}
    (hstep : ∀ {table next : Table} {field : Field}, step table field = .ok next ↔
      fit field ∧ table.insertColumn (make table.name field) = .ok next)
    {fields : List Field} : ∀ {table next : Table},
      fields.foldlM step table = .ok next ↔
        (∀ field ∈ fields, fit field) ∧
          (fields.map (make table.name)).foldlM insertColumn table = .ok next := by
  induction fields with
  | nil =>
    intro table next
    simp
  | cons field rest ih =>
    intro table next
    rw [List.foldlM_cons, List.map_cons, List.foldlM_cons, bind_eq_ok_iff, bind_eq_ok_iff,
      List.forall_mem_cons]
    constructor
    · rintro ⟨middle, hmiddle, hrest⟩
      obtain ⟨hfit, hinsert⟩ := hstep.mp hmiddle
      obtain ⟨hfits, hfold⟩ := ih.mp hrest
      have hname : middle.name = table.name := by
        rw [(insertColumn_eq_ok_iff.mp hinsert).2]
        exact (sameHead_addColumn _ _).name
      exact ⟨⟨hfit, hfits⟩, middle, hinsert, hname ▸ hfold⟩
    · rintro ⟨⟨hfit, hfits⟩, middle, hinsert, hfold⟩
      have hname : middle.name = table.name := by
        rw [(insertColumn_eq_ok_iff.mp hinsert).2]
        exact (sameHead_addColumn _ _).name
      exact ⟨middle, hstep.mpr ⟨hfit, hinsert⟩, ih.mpr ⟨hfits, hname ▸ hfold⟩⟩

theorem foldlM_insertPrimary_eq_ok_iff {fields : List Field} {table next : Table} :
    fields.foldlM insertPrimary table = .ok next ↔
      (∀ field ∈ fields, field.Valid ∧ FieldOption.nullable ∉ field.options) ∧
        (fields.map (Field.primaryColumn table.name)).foldlM insertColumn table = .ok next :=
  foldlM_field_eq_ok_iff insertPrimary_eq_ok_iff

theorem column?_addColumn_eq_none_iff {table : Table} {column : Column} {name : String} :
    (table.addColumn column).column? name = none ↔
      name ≠ column.name ∧ table.column? name = none := by
  simp only [column?_eq_none_iff]
  unfold addColumn
  by_cases hname : name = column.name <;> split <;> simp [OrderedMap.get?_insert, hname]

/-- Columns can be added in turn exactly if their names are free and differ from one another. -/
theorem foldlM_insertColumn_eq_ok_iff {columns : List Column} : ∀ {table next : Table},
    columns.foldlM insertColumn table = .ok next ↔
      (columns.map Column.name).Nodup ∧ (∀ column ∈ columns, table.column? column.name = none) ∧
        next = columns.foldl addColumn table := by
  induction columns with
  | nil =>
    intro table next
    simp [pure, Except.pure, @eq_comm _ _ next]
  | cons column rest ih =>
    intro table next
    have hnew : (∀ other ∈ rest, (table.addColumn column).column? other.name = none) ↔
        column.name ∉ rest.map Column.name ∧
          ∀ other ∈ rest, table.column? other.name = none := by
      simp only [column?_addColumn_eq_none_iff, List.mem_map, not_exists, not_and]
      constructor
      · intro hrest
        exact ⟨fun other hother ↦ (hrest other hother).1, fun other hother ↦ (hrest other hother).2⟩
      · rintro ⟨hcolumn, hrest⟩ other hother
        exact ⟨hcolumn other hother, hrest other hother⟩
    rw [List.foldlM_cons, bind_eq_ok_iff]
    simp only [insertColumn_eq_ok_iff, and_assoc, exists_and_left, exists_eq_left, ih, hnew,
      List.map_cons, List.nodup_cons, List.forall_mem_cons, List.foldl_cons]
    tauto

theorem name_foldl_addColumn (columns : List Column) (table : Table) :
    (columns.foldl addColumn table).name = table.name := by
  induction columns generalizing table with
  | nil => rfl
  | cons column rest ih => rw [List.foldl_cons, ih, (sameHead_addColumn _ _).name]

/-- Ordinary fields after columns. -/
theorem foldlM_insertField_eq_ok_iff {columns : List Column} {fields : List Field}
    {table next : Table} :
    (∃ middle, columns.foldlM insertColumn table = .ok middle ∧
        fields.foldlM insertField middle = .ok next) ↔
      (∀ field ∈ fields, field.Valid) ∧
        (columns ++ fields.map (Field.column table.name)).foldlM insertColumn table = .ok next := by
  rw [List.foldlM_append, bind_eq_ok_iff, ← exists_and_left]
  refine exists_congr fun middle ↦ ?_
  rw [foldlM_field_eq_ok_iff insertField_eq_ok_iff, and_left_comm]
  refine and_congr_right fun _ ↦ and_congr_right fun hmiddle ↦ ?_
  rw [(foldlM_insertColumn_eq_ok_iff.mp hmiddle).2.2, name_foldl_addColumn]

/-- Columns under their names. -/
def filed (columns : List Column) : List (String × Column) :=
  columns.map fun column ↦ (column.name, column)

/-- What columns with free names add to a table: those of the key and the others, in their order. -/
theorem foldl_addColumn {columns : List Column} : ∀ {table : Table},
    (columns.map Column.name).Nodup → (∀ column ∈ columns, table.column? column.name = none) →
      ∃ primary ordinary,
        columns.foldl addColumn table = { table with primary := primary, ordinary := ordinary } ∧
        primary.entries = table.primary.entries ++ filed (columns.filter Column.primaryKey) ∧
        ordinary.entries =
          table.ordinary.entries ++ filed (columns.filter fun column ↦ !column.primaryKey) := by
  induction columns with
  | nil =>
    intro table _ _
    exact ⟨table.primary, table.ordinary, by simp [filed]⟩
  | cons column rest ih =>
    intro table hnodup hfree
    rw [List.map_cons, List.nodup_cons] at hnodup
    obtain ⟨hcolumn, hrest⟩ := List.forall_mem_cons.mp hfree
    have hnext : ∀ other ∈ rest, (table.addColumn column).column? other.name = none := by
      intro other hother
      refine column?_addColumn_eq_none_iff.mpr ⟨fun hsame ↦ hnodup.1 ?_, hrest other hother⟩
      exact List.mem_map.mpr ⟨other, hother, hsame⟩
    obtain ⟨primary, ordinary, htable, hprimary, hordinary⟩ := ih hnodup.2 hnext
    obtain ⟨hkey, hother⟩ := column?_eq_none_iff.mp hcolumn
    refine ⟨primary, ordinary, ?_, ?_, ?_⟩
    · rw [List.foldl_cons, htable, addColumn]
      split <;> rfl
    · rw [hprimary, addColumn]
      split
      next hmarked =>
        simp [hmarked, filed, OrderedMap.entries_insert_of_get?_eq_none hkey]
      next hunmarked => simp [hunmarked, filed]
    · rw [hordinary, addColumn]
      split
      next hmarked => simp [hmarked, filed]
      next hunmarked =>
        simp [hunmarked, filed, OrderedMap.entries_insert_of_get?_eq_none hother]

/-- A clause can be followed exactly if every column that it names is there. -/
theorem showFields_eq_ok_iff {table next : Table} {clause : Option Shown} :
    table.showFields clause = .ok next ↔
      (∀ names, clause = some (.fields names) → ∀ name ∈ names, table.column? name ≠ none) ∧
        next = { table with shown := match clause with
          | some (.fields names) => names
          | _ => table.columnNames } := by
  rcases clause with _ | _ | names
  · simp [showFields, @eq_comm _ _ next]
  · simp [showFields, @eq_comm _ _ next]
  · simp only [showFields, Option.some.injEq, Shown.fields.injEq, forall_eq']
    split
    next name hfound =>
      have hmissing : table.column? name = none := by simpa using List.find?_some hfound
      have hmember := List.mem_of_find?_eq_some hfound
      simp only [reduceCtorEq, false_iff, not_and]
      intro hall
      exact absurd hmissing (hall name hmember)
    next hnone =>
      have hall : ∀ name ∈ names, table.column? name ≠ none := by
        simpa [List.find?_eq_none, Option.isNone_iff_eq_none] using hnone
      simp only [Except.ok.injEq, @eq_comm _ _ next, iff_and_self]
      exact fun _ ↦ hall

/-- Two tables are the same, but for their accessors. -/
structure SameContent (first second : Table) : Prop where
  name : first.name = second.name
  storage : first.storage = second.storage
  kind : first.kind = second.kind
  primary : first.primary = second.primary
  ordinary : first.ordinary = second.ordinary
  shown : first.shown = second.shown

end Table

/-! ### Statements -/

namespace Statement

/-- The name of the table that a statement introduces. -/
def name : Statement → String
  | .table definition => definition.name
  | .relation sides => Name.link sides.left.symbol sides.right.symbol

/-- Where the table of a statement comes from. -/
def kind : Statement → TableKind
  | .table _ => .declared
  | .relation sides => .link sides.left.symbol sides.right.symbol

/-- The columns of the table of a statement, those of the primary key first. -/
def columns : Statement → List Column
  | .table definition =>
    definition.primaries.map (Field.primaryColumn definition.name) ++
      definition.fields.map (Field.column definition.name)
  | .relation sides =>
    [Table.keyColumn sides.left.symbol, Table.keyColumn sides.right.symbol] ++
      sides.fields.map (Field.column (Name.link sides.left.symbol sides.right.symbol))

/-- The clause of a statement that says which columns show a row. -/
def clause : Statement → Option Shown
  | .table definition => definition.shown
  | .relation _ => none

/-- The columns that show a row of the table of a statement. -/
def shown (statement : Statement) : List String :=
  match statement.clause with
  | some (.fields names) => names
  | _ => statement.columns.map Column.name

/-- The table of a statement without its columns. -/
def bare (statement : Statement) : Table :=
  { name := statement.name, storage := Name.storage statement.name, kind := statement.kind }

/-- The table of a statement. -/
def build : Statement → Except SchemaFault Table
  | .table definition => Table.ofDefinition definition
  | .relation sides => Table.ofRelation sides

/-- Every field of a statement gives a column, and those of a primary key are never null. -/
def FieldsValid : Statement → Prop
  | .table definition =>
    (∀ field ∈ definition.primaries, field.Valid ∧ FieldOption.nullable ∉ field.options) ∧
      ∀ field ∈ definition.fields, field.Valid
  | .relation sides => ∀ field ∈ sides.fields, field.Valid

/-- A statement whose table can be built. -/
structure Valid (statement : Statement) : Prop where
  fields : statement.FieldsValid
  columns_nodup : (statement.columns.map Column.name).Nodup
  shown : ∀ names, statement.clause = some (.fields names) →
    ∀ name ∈ names, name ∈ statement.columns.map Column.name

/-- A table holds what a statement says; its accessors are not the statement's to say. -/
structure Describes (statement : Statement) (table : Table) : Prop where
  name : table.name = statement.name
  storage : table.storage = Name.storage statement.name
  kind : table.kind = statement.kind
  primary : table.primary.entries = Table.filed (statement.columns.filter Column.primaryKey)
  ordinary : table.ordinary.entries =
    Table.filed (statement.columns.filter fun column ↦ !column.primaryKey)
  shown : table.shown = statement.shown

/-- Every field of a statement has a column. -/
theorem mem_columns_of_mem_fields {statement : Statement} {field : Field}
    (hfield : field ∈ statement.fields) :
    field.column statement.name ∈ statement.columns ∨
      field.primaryColumn statement.name ∈ statement.columns := by
  cases statement with
  | table definition =>
    rcases List.mem_append.mp hfield with hprimary | hordinary
    · exact Or.inr (List.mem_append_left _ (List.mem_map_of_mem hprimary))
    · exact Or.inl (List.mem_append_right _ (List.mem_map_of_mem hordinary))
  | relation sides => exact Or.inl (List.mem_append_right _ (List.mem_map_of_mem hfield))

theorem columns_eq_append (statement : Statement) :
    statement.columns = statement.columns.filter Column.primaryKey ++
      statement.columns.filter fun column ↦ !column.primaryKey := by
  cases statement with
  | table definition =>
    simp [columns, List.filter_append, List.filter_map, Field.primaryColumn, Field.column,
      Function.comp_def]
  | relation sides =>
    simp [columns, List.filter_map, Table.keyColumn, Field.column, Function.comp_def]

theorem column?_bare (statement : Statement) (name : String) :
    statement.bare.column? name = none := rfl

/-- A table is built by adding the columns of its statement in turn, and then following the
clause. -/
theorem build_eq_ok_iff_foldl {statement : Statement} {table : Table} :
    statement.build = .ok table ↔
      statement.FieldsValid ∧ (statement.columns.map Column.name).Nodup ∧
        (statement.columns.foldl Table.addColumn statement.bare).showFields statement.clause =
          .ok table := by
  have hcolumns : ∀ {next : Table},
      statement.columns.foldlM Table.insertColumn statement.bare = .ok next ↔
        (statement.columns.map Column.name).Nodup ∧
          next = statement.columns.foldl Table.addColumn statement.bare := by
    intro next
    simp [Table.foldlM_insertColumn_eq_ok_iff, column?_bare]
  have hlast : (∃ next, statement.columns.foldlM Table.insertColumn statement.bare = .ok next ∧
      next.showFields statement.clause = .ok table) ↔
        (statement.columns.map Column.name).Nodup ∧
          (statement.columns.foldl Table.addColumn statement.bare).showFields statement.clause =
            .ok table := by
    simp only [hcolumns, and_assoc, exists_and_left, exists_eq_left]
  rw [← hlast]
  cases statement with
  | table definition =>
    simp only [build, Table.ofDefinition, bind_eq_ok_iff,
      Table.foldlM_insertPrimary_eq_ok_iff]
    constructor
    · rintro ⟨keyed, ⟨hkey, hkeyed⟩, full, hfull, hshow⟩
      obtain ⟨hfields, hall⟩ := Table.foldlM_insertField_eq_ok_iff.mp ⟨keyed, hkeyed, hfull⟩
      exact ⟨⟨hkey, hfields⟩, full, hall, hshow⟩
    · rintro ⟨⟨hkey, hfields⟩, full, hall, hshow⟩
      obtain ⟨keyed, hkeyed, hfull⟩ := Table.foldlM_insertField_eq_ok_iff.mpr ⟨hfields, hall⟩
      exact ⟨keyed, ⟨hkey, hkeyed⟩, full, hfull, hshow⟩
  | relation sides =>
    simp only [build, Table.ofRelation, bind_eq_ok_iff]
    constructor
    · rintro ⟨keyed, hkeyed, full, hfull, hshow⟩
      obtain ⟨hfields, hall⟩ := Table.foldlM_insertField_eq_ok_iff.mp ⟨keyed, hkeyed, hfull⟩
      exact ⟨hfields, full, hall, hshow⟩
    · rintro ⟨hfields, full, hall, hshow⟩
      obtain ⟨keyed, hkeyed, hfull⟩ := Table.foldlM_insertField_eq_ok_iff.mpr ⟨hfields, hall⟩
      exact ⟨keyed, hkeyed, full, hfull, hshow⟩

/-- The columns of a statement, added in turn, make its table but for the shown columns. -/
theorem describes_foldl {statement : Statement}
    (hnodup : (statement.columns.map Column.name).Nodup) :
    statement.Describes
        { statement.columns.foldl Table.addColumn statement.bare with
          shown := statement.shown } ∧
      (statement.columns.foldl Table.addColumn statement.bare).accessors = .empty := by
  obtain ⟨primary, ordinary, htable, hprimary, hordinary⟩ :=
    Table.foldl_addColumn hnodup fun column _ ↦ statement.column?_bare column.name
  rw [htable]
  exact ⟨⟨rfl, rfl, rfl, hprimary, hordinary, rfl⟩, rfl⟩

namespace Describes

variable {statement : Statement} {table : Table}

theorem columns_eq (hdescribes : statement.Describes table) :
    table.columns = statement.columns := by
  rw [Table.columns, OrderedMap.values, OrderedMap.values, hdescribes.primary,
    hdescribes.ordinary, statement.columns_eq_append]
  simp [Table.filed, Function.comp_def]

/-- The columns that can be looked up are those of the statement. -/
theorem column?_ne_none_iff (hdescribes : statement.Describes table) {name : String} :
    table.column? name ≠ none ↔ name ∈ statement.columns.map Column.name := by
  rw [Ne, Table.column?_eq_none_iff, not_and_or, ← Ne, ← Ne, OrderedMap.get?_ne_none_iff,
    OrderedMap.get?_ne_none_iff, hdescribes.primary, hdescribes.ordinary,
    statement.columns_eq_append]
  simp [Table.filed, Function.comp_def]

/-- A statement says all of a table but its accessors. -/
theorem sameContent {other : Table} (htable : statement.Describes table)
    (hother : statement.Describes other) : table.SameContent other where
  name := htable.name.trans hother.name.symm
  storage := htable.storage.trans hother.storage.symm
  kind := htable.kind.trans hother.kind.symm
  primary := OrderedMap.eq_of_entries_eq (htable.primary.trans hother.primary.symm)
  ordinary := OrderedMap.eq_of_entries_eq (htable.ordinary.trans hother.ordinary.symm)
  shown := htable.shown.trans hother.shown.symm

theorem eq_of_accessors_eq {other : Table} (htable : statement.Describes table)
    (hother : statement.Describes other) (haccessors : table.accessors = other.accessors) :
    table = other := by
  obtain ⟨hname, hstorage, hkind, hprimary, hordinary, hshown⟩ := htable.sameContent hother
  cases table
  cases other
  simp_all

/-- The primary key of the table of a definition has the columns of its primary fields. -/
theorem primary_get?_eq_some_iff {definition : TableDefinition}
    (hdescribes : (Statement.table definition).Describes table) {key : String} {column : Column} :
    table.primary.get? key = some column ↔
      ∃ field ∈ definition.primaries, field.name = key ∧
        field.primaryColumn definition.name = column := by
  have hkey : (Statement.table definition).columns.filter Column.primaryKey =
      definition.primaries.map (Field.primaryColumn definition.name) := by
    simp [columns, List.filter_map, Field.primaryColumn, Field.column, Function.comp_def]
  rw [OrderedMap.get?_eq_some_iff, hdescribes.primary, hkey, Table.filed]
  simp only [List.map_map, List.mem_map, Function.comp_apply, Prod.mk.injEq]
  refine exists_congr fun field ↦ and_congr_right fun _ ↦ and_congr_left fun _ ↦ ?_
  rfl

/-- Link rows can refer to the rows of a table exactly if its definition has an integer key
`id`. -/
theorem hasIntegerId_iff {definition : TableDefinition}
    (hvalid : (Statement.table definition).Valid)
    (hdescribes : (Statement.table definition).Describes table) :
    table.hasIntegerId = true ↔ ∃ field ∈ definition.primaries, field.name = "id" ∧
      field.type ∈ ["int", "Integer", "SmallInteger"] := by
  have hid : table.hasIntegerId = true ↔ ∃ column, table.primary.get? "id" = some column ∧
      column.type.isInteger = true ∧ column.nullable = false := by
    unfold Table.hasIntegerId
    cases table.primary.get? "id" <;> simp
  rw [hid]
  constructor
  · rintro ⟨column, hcolumn, hinteger, -⟩
    obtain ⟨field, hfield, hname, rfl⟩ := hdescribes.primary_get?_eq_some_iff.mp hcolumn
    exact ⟨field, hfield, hname, (ColumnType.isInteger_ofSymbol_iff _).mp hinteger⟩
  · rintro ⟨field, hfield, hname, htype⟩
    have hpresent := (hvalid.fields.1 field hfield).2
    refine ⟨_, hdescribes.primary_get?_eq_some_iff.mpr ⟨field, hfield, hname, rfl⟩,
      (ColumnType.isInteger_ofSymbol_iff _).mpr htype, ?_⟩
    simpa [Field.primaryColumn, Field.column] using hpresent

end Describes

/-- The table of a statement can be built exactly if the statement is valid, and then it holds what
the statement says. -/
theorem build_eq_ok_iff {statement : Statement} {table : Table} :
    statement.build = .ok table ↔
      statement.Valid ∧ statement.Describes table ∧ table.accessors = .empty := by
  rw [build_eq_ok_iff_foldl, Table.showFields_eq_ok_iff]
  constructor
  · rintro ⟨hfields, hnodup, hshown, rfl⟩
    obtain ⟨hdescribes, haccessors⟩ := describes_foldl hnodup
    have hnames := congrArg (List.map Column.name) hdescribes.columns_eq
    refine ⟨⟨hfields, hnodup, fun names hclause name hname ↦ ?_⟩,
      ⟨hdescribes.name, hdescribes.storage, hdescribes.kind, hdescribes.primary,
        hdescribes.ordinary, ?_⟩, haccessors⟩
    · exact hdescribes.column?_ne_none_iff.mp (hshown names hclause name hname)
    · rw [shown, ← hnames]
      rfl
  · rintro ⟨hvalid, htable, haccessors⟩
    obtain ⟨hdescribes, hempty⟩ := describes_foldl hvalid.columns_nodup
    have hnames := congrArg (List.map Column.name) hdescribes.columns_eq
    refine ⟨hvalid.fields, hvalid.columns_nodup, fun names hclause name hname ↦ ?_, ?_⟩
    · exact hdescribes.column?_ne_none_iff.mpr (hvalid.shown names hclause name hname)
    · rw [htable.eq_of_accessors_eq hdescribes (haccessors.trans hempty.symm), shown, ← hnames]
      rfl

theorem Valid.exists_build {statement : Statement} (hvalid : statement.Valid) :
    ∃ table, statement.build = .ok table :=
  ⟨_, build_eq_ok_iff.mpr ⟨hvalid, describes_foldl hvalid.columns_nodup⟩⟩

/-- The columns that a valid statement shows are among its columns. -/
theorem Valid.mem_columns_of_mem_shown {statement : Statement} (hvalid : statement.Valid)
    {name : String} (hname : name ∈ statement.shown) :
    name ∈ statement.columns.map Column.name := by
  unfold Statement.shown at hname
  split at hname
  next names hclause => exact hvalid.shown names hclause name hname
  next => exact hname

end Statement

end SchemaCompiler
