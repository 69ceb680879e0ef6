import SchemaCompiler.Proofs.AccessorShape
import SchemaCompiler.Proofs.IdentifierShape
import SchemaCompiler.Proofs.ParserGrammar
import SchemaCompiler.Proofs.PlanEntries
import SchemaCompiler.Schema.Edit

/-!
# Regular schemas

Generation relies on a schema in small ways that no edit can break. Tables are filed under their
names, everything that becomes an identifier is made of letters and underscores, the columns that
show a row are there, and so is the column that an accessor starts from. `Schema.Regular` collects
these. It says nothing of where accessors and relations lead: that is what edits may break.

A schema that was read is regular (`Schema.regular_of_read`), and an edit keeps it so
(`Schema.Regular.edit`), hence also any number of edits (`Schema.Regular.edits`).
-/

set_option autoImplicit false
set_option relaxedAutoImplicit false

namespace SchemaCompiler

/-- The names of a column in the written code: its own and that of its enumeration. -/
def Column.names (column : Column) : List String :=
  column.name :: column.type.enumeration?.toList

/-- The column of a row that an accessor starts from. -/
def Accessor.start (accessor : Accessor) : String :=
  if accessor.many then "id" else accessor.column

/-- What generation relies on in a table. -/
structure Table.Regular (table : Table) : Prop where
  name : IsSymbol table.name.toList
  storage : IsWord table.storage
  columns : ∀ column ∈ table.columns, ∀ name ∈ column.names, IsSymbol name.toList
  shown : ∀ name ∈ table.shown, name ∈ table.columnNames
  accessors : ∀ ⦃key : String⦄ ⦃accessor : Accessor⦄, table.accessors.get? key = some accessor →
    IsSymbol key.toList ∧ accessor.start ∈ table.columnNames

/-- What generation relies on in a schema, wherever its accessors and relations lead. -/
structure Schema.Regular (schema : Schema) : Prop where
  filed : schema.Filed
  tables : ∀ ⦃name : String⦄ ⦃table : Table⦄, schema.table? name = some table → table.Regular
  lowers : ∀ ⦃lower name : String⦄, schema.graph.resolve? lower = some name →
    IsSymbol lower.toList

theorem Schema.Regular.table {schema : Schema} (hschema : schema.Regular) {table : Table}
    (htable : table ∈ schema.tables.values) : table.Regular :=
  hschema.tables (hschema.filed.mem_values_iff.mp htable)

/-! ### Schemas that were read -/

theorem ColumnType.eq_of_enumeration?_ofSymbol {symbol name : String}
    (henumeration : (ofSymbol symbol).enumeration? = some name) : name = symbol := by
  simp only [ofSymbol, apply_ite enumeration?] at henumeration
  simp only [enumeration?, ite_eq_iff, reduceCtorEq, and_false, false_or, Option.some.injEq]
    at henumeration
  tauto

theorem Field.WellFormed.isSymbol_column {field : Field} (hfield : field.WellFormed)
    (table : String) {name : String} (hname : name ∈ (field.column table).names) :
    IsSymbol name.toList := by
  rcases List.mem_cons.mp hname with rfl | henumeration
  · exact hfield.name
  · rw [ColumnType.eq_of_enumeration?_ofSymbol (Option.mem_toList.mp henumeration)]
    exact hfield.type

namespace Statement

theorem WellFormed.isSymbol_name {statement : Statement} (hstatement : statement.WellFormed) :
    IsSymbol statement.name.toList := by
  cases statement with
  | table definition => exact TableDefinition.WellFormed.name hstatement
  | relation sides =>
    have hsides : sides.WellFormed := hstatement
    exact Name.isSymbol_link hsides.left.symbol hsides.right.symbol

theorem isSymbol_keyColumn {symbol name : String} (hsymbol : IsSymbol symbol.toList)
    (hname : name ∈ (Table.keyColumn symbol).names) : IsSymbol name.toList := by
  rw [List.mem_singleton.mp hname]
  exact Name.isSymbol_key (Name.isSymbol_lower hsymbol)

theorem WellFormed.isSymbol_columns {statement : Statement} (hstatement : statement.WellFormed)
    {column : Column} (hcolumn : column ∈ statement.columns) {name : String}
    (hname : name ∈ column.names) : IsSymbol name.toList := by
  cases statement with
  | table definition =>
    have hdefinition : definition.WellFormed := hstatement
    rcases List.mem_append.mp hcolumn with hcolumn | hcolumn
    · obtain ⟨field, hfield, rfl⟩ := List.mem_map.mp hcolumn
      exact (hdefinition.primaries field hfield).1.isSymbol_column definition.name hname
    · obtain ⟨field, hfield, rfl⟩ := List.mem_map.mp hcolumn
      exact (hdefinition.fields field hfield).isSymbol_column _ hname
  | relation sides =>
    have hsides : sides.WellFormed := hstatement
    rcases List.mem_append.mp hcolumn with hcolumn | hcolumn
    · rcases List.mem_pair.mp hcolumn with rfl | rfl
      · exact isSymbol_keyColumn hsides.left.symbol hname
      · exact isSymbol_keyColumn hsides.right.symbol hname
    · obtain ⟨field, hfield, rfl⟩ := List.mem_map.mp hcolumn
      exact (hsides.fields field hfield).isSymbol_column _ hname

end Statement

theorem Table.mem_columnNames_of_primary {table : Table} {key : String} {column : Column}
    (hcolumn : table.primary.get? key = some column) : column.name ∈ table.columnNames :=
  List.mem_map_of_mem (List.mem_append_left _ (OrderedMap.mem_values_iff.mpr ⟨key, hcolumn⟩))

namespace Schema

variable {schema : Schema}

/-- The accessors of a sound schema are named by symbols and start from columns that are there. -/
theorem Grounded.accessor_regular (hgrounded : schema.Grounded) (hsound : schema.Sound)
    (hsymbols : ∀ {name : String} {table : Table}, schema.table? name = some table →
      IsSymbol name.toList)
    {name key : String} {table : Table} {accessor : Accessor}
    (htable : schema.table? name = some table)
    (haccessor : table.accessors.get? key = some accessor) :
    IsSymbol key.toList ∧ accessor.start ∈ table.columnNames := by
  obtain ⟨link, hlink, hgives⟩ := hgrounded htable haccessor
  -- the sides of a link are tables, so their small names are symbols
  have hlower : ∀ {near far : Endpoint}, link.Joins near far → IsSymbol near.lower.toList := by
    intro near far hjoins
    obtain ⟨hlower, -, side, hside, -⟩ := hsound.attached link hlink near far hjoins
    rw [hlower]
    exact Name.isSymbol_lower (hsymbols hside)
  cases hgives with
  | @back near far hjoins =>
    refine ⟨hlower hjoins, ?_⟩
    obtain ⟨hnear, ⟨entity, hentity, hkind, -⟩, -⟩ := hsound.attached link hlink near far hjoins
    rw [htable] at hentity
    cases hentity
    have hside : near.table ∈ [link.left.table, link.right.table] := by
      rcases hjoins with ⟨rfl, -⟩ | ⟨rfl, -⟩ <;> simp
    obtain ⟨column, hcolumn, hname, -⟩ := hsound.keyTo htable hkind hside
    have hstart : Name.key (Name.lower near.table) ∈ table.columnNames :=
      hname ▸ Table.mem_columnNames_of_primary hcolumn
    rw [hnear]
    exact hstart
  | @collection near far hjoins =>
    refine ⟨Name.isSymbol_collection (hlower hjoins.symm), ?_⟩
    obtain ⟨-, -, side, hside, -, hid, -⟩ := hsound.attached link hlink near far hjoins
    rw [htable] at hside
    cases hside
    show "id" ∈ table.columnNames
    unfold Table.hasIntegerId at hid
    split at hid
    next column hcolumn =>
      rw [← (hsound.shape htable).primary_name hcolumn]
      exact Table.mem_columnNames_of_primary hcolumn
    next => cases hid

/-- A schema of a well formed document is regular. -/
theorem regular_of_ofDocument {document : Document} (hdocument : document.WellFormed)
    (hbuild : Schema.ofDocument document = .ok schema) : schema.Regular := by
  have hsound := (ofDocument_sound hbuild).1
  obtain ⟨hfollows, -⟩ := ofDocument_follows hbuild
  have hgrounded := grounded_of_ofDocument hbuild
  have hstatements := (valid_iff_statements.mp (valid_of_ofDocument hbuild)).1.1
  have hsymbols : ∀ {name : String} {table : Table}, schema.table? name = some table →
      IsSymbol name.toList := by
    intro name table htable
    obtain ⟨statement, hstatement, rfl, -⟩ := hfollows.exists_statement htable
    exact (hdocument statement hstatement).isSymbol_name
  refine ⟨hsound.filed, fun name table htable ↦ ?_, fun lower name hresolve ↦ ?_⟩
  · obtain ⟨statement, hstatement, rfl, hdescribes⟩ := hfollows.exists_statement htable
    have hname := (hdocument statement hstatement).isSymbol_name
    refine ⟨?_, ?_, ?_, ?_, fun key accessor haccessor ↦
      hgrounded.accessor_regular hsound hsymbols htable haccessor⟩
    · rw [hdescribes.name]
      exact hname
    · rw [hdescribes.storage]
      exact Name.isWord_storage hname
    · rw [hdescribes.columns_eq]
      intro column hcolumn name hname
      exact (hdocument statement hstatement).isSymbol_columns hcolumn hname
    · rw [hdescribes.shown, Table.columnNames, hdescribes.columns_eq]
      intro name hname
      exact (hstatements statement hstatement).mem_columns_of_mem_shown hname
  · obtain ⟨rfl, table, htable, -⟩ := hsound.symbol.mp hresolve
    exact Name.isSymbol_lower (hsymbols htable)

theorem regular_of_read {source : String} (hread : Schema.read source = .ok schema) :
    schema.Regular := by
  obtain ⟨document, hparse, hbuild⟩ := read_eq_ok_iff.mp hread
  exact regular_of_ofDocument (Document.parse_eq_ok_iff.mp hparse).wellFormed hbuild

/-! ### Edits -/

end Schema

theorem Table.Regular.removeAccessor {table : Table}
    (htable : table.Regular) (accessor : String) : (table.removeAccessor accessor).Regular := by
  refine ⟨htable.name, htable.storage, htable.columns, htable.shown, fun key other hget ↦ ?_⟩
  have herase : (table.accessors.erase accessor).get? key = some other := hget
  rw [OrderedMap.get?_erase] at herase
  split_ifs at herase
  exact htable.accessors herase

namespace Schema

variable {schema : Schema}

/-- Regularity speaks of tables one by one, so fewer tables are as regular. -/
theorem Regular.removeTable (hschema : schema.Regular) (table : String) :
    (schema.edit (.removeTable table)).Regular := by
  have hget : ∀ {name : String} {found : Table},
      (schema.edit (.removeTable table)).table? name = some found →
        schema.table? name = some found := by
    intro name found hfound
    have herase : (schema.tables.erase table).get? name = some found := hfound
    rw [OrderedMap.get?_erase] at herase
    split_ifs at herase
    exact herase
  exact ⟨fun name found hfound ↦ hschema.filed (hget hfound),
    fun name found hfound ↦ hschema.tables (hget hfound), hschema.lowers⟩

theorem Regular.removeAccessor (hschema : schema.Regular) (table accessor : String) :
    (schema.edit (.removeAccessor table accessor)).Regular := by
  have hget : ∀ {name : String} {found : Table},
      (schema.edit (.removeAccessor table accessor)).table? name = some found →
        ∃ before, schema.table? name = some before ∧
          (found = before ∨ found = before.removeAccessor accessor) := by
    intro name found hfound
    have hmodify : (schema.tables.modify table fun entry ↦ entry.removeAccessor accessor).get?
        name = some found := hfound
    rw [OrderedMap.get?_modify] at hmodify
    obtain ⟨before, hbefore, hchange⟩ := Option.map_eq_some_iff.mp hmodify
    refine ⟨before, hbefore, ?_⟩
    split_ifs at hchange
    · exact Or.inr hchange.symm
    · exact Or.inl hchange.symm
  refine ⟨fun name found hfound ↦ ?_, fun name found hfound ↦ ?_, hschema.lowers⟩
  · obtain ⟨before, hbefore, rfl | rfl⟩ := hget hfound
    · exact hschema.filed hbefore
    · have hname := hschema.filed hbefore
      exact hname
  · obtain ⟨before, hbefore, rfl | rfl⟩ := hget hfound
    · exact hschema.tables hbefore
    · exact (hschema.tables hbefore).removeAccessor accessor

/-- An edit keeps a schema regular. -/
theorem Regular.edit (hschema : schema.Regular) (change : Edit) : (schema.edit change).Regular := by
  cases change with
  | removeTable table => exact hschema.removeTable table
  | removeAccessor table accessor => exact hschema.removeAccessor table accessor
  | relate table lower => exact ⟨hschema.filed, hschema.tables, hschema.lowers⟩
  | unrelate table lower => exact ⟨hschema.filed, hschema.tables, hschema.lowers⟩
  | setPair role first second value =>
    refine ⟨hschema.filed, hschema.tables, fun lower name hresolve ↦ ?_⟩
    have hbefore : schema.graph.resolve? lower = some name := by
      cases role <;> exact hresolve
    exact hschema.lowers hbefore

/-- Any number of edits keep a schema regular. -/
theorem Regular.edits (hschema : schema.Regular) (changes : List Edit) :
    (changes.foldl Schema.edit schema).Regular := by
  induction changes generalizing schema with
  | nil => exact hschema
  | cons change rest ih => exact ih (hschema.edit change)

end Schema

end SchemaCompiler
