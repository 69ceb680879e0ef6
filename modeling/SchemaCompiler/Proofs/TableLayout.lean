import SchemaCompiler.Proofs.GraphContent

/-!
# The layout of the tables of a schema

A schema that was read has one table for each statement of the text, in the order of the statements,
and every table is laid out in the same way, whether a definition declares it or a relation brings
it about. `Table.LaidOut` says what holds of a table by itself: its columns are filed under their
names, the key columns apart from the others, sequences stand for integers that are never null, and
the columns that show a row are there. `Schema.RefersTo` says where the foreign keys of a link
entity lead, which is a matter of the whole schema.

The columns of a table are those of its statement (`Statement.Describes`, in the module on the
content of tables), so most of the layout is read off `Statement.columns`
(`Statement.Valid.laidOut`). That the foreign keys lead to tables with an integer key `id` is known
only once all relations are resolved (`hosts_of_ofDocument`).
-/

set_option autoImplicit false
set_option relaxedAutoImplicit false

namespace SchemaCompiler

/-! ### What is required -/

/-- Columns are filed under their names, once, and what they say of themselves fits their place. -/
structure Table.LaidOut (table : Table) : Prop where
  primary_keys : table.primary.keys = table.primary.values.map Column.name
  ordinary_keys : table.ordinary.keys = table.ordinary.values.map Column.name
  keys_nodup : (table.primary.keys ++ table.ordinary.keys).Nodup
  marked_iff : ∀ column ∈ table.columns,
    (column.primaryKey = true ↔ column ∈ table.primary.values)
  key_present : ∀ column ∈ table.primary.values, column.nullable = false
  sequence : ∀ column ∈ table.columns, ∀ name, column.sequence = some name →
    column.nullable = false ∧ column.type.isInteger = true ∧
      name = Name.lower table.name ++ "_id_seq"
  shown : ∀ name ∈ table.shown, name ∈ table.columnNames
  /-- Link entities have foreign keys, and no other table has. -/
  foreign_iff : (∃ column ∈ table.columns, column.foreignKey ≠ none) ↔ table.isLink = true

/-- The foreign keys of a link entity are its two key columns; they lead to the keys `id` of two
declared tables, the left one first. -/
structure Schema.RefersTo (schema : Schema) (table : Table) (left right : String) : Prop where
  keys : table.primary.values.map (fun column ↦ (column.name, column.foreignKey)) =
    [left, right].map fun side ↦
      (Name.lower side ++ "_id", some ⟨side, Name.storage side, "id"⟩)
  others : ∀ column ∈ table.ordinary.values, column.foreignKey = none
  sides : ∀ side ∈ [left, right], ∃ target id, schema.table? side = some target ∧
    target.kind = .declared ∧ target.storage = Name.storage side ∧
    target.primary.get? "id" = some id ∧ id.type.isInteger = true ∧ id.nullable = false

namespace Statement

/-- The key columns that a statement declares: the primary fields of a definition, or the keys to
the two sides of a relation. -/
def keyNames : Statement → List String
  | .table definition => definition.primaries.map Field.name
  | .relation sides =>
    [Name.lower sides.left.symbol ++ "_id", Name.lower sides.right.symbol ++ "_id"]

/-- The other columns that a statement declares. -/
def otherNames : Statement → List String
  | .table definition => definition.fields.map Field.name
  | .relation sides => sides.fields.map Field.name

/-- A table stands for a statement in a schema. -/
structure StandsFor (schema : Schema) (statement : Statement) (table : Table) : Prop
    extends table.LaidOut where
  name : table.name = statement.name
  kind : table.kind = statement.kind
  primary_declared : table.primary.keys = statement.keyNames
  ordinary_declared : table.ordinary.keys = statement.otherNames
  refers : ∀ left right, table.kind = .link left right → schema.RefersTo table left right

/-! ### What the columns of a statement say -/

variable {statement : Statement} {table : Table}

theorem keyNames_eq (statement : Statement) :
    statement.keyNames = (statement.columns.filter Column.primaryKey).map Column.name := by
  cases statement with
  | table definition =>
    simp [keyNames, columns, List.filter_map, Field.primaryColumn, Field.column, Function.comp_def]
  | relation sides =>
    simp [keyNames, columns, List.filter_map, Table.keyColumn, Name.key, Field.column,
      Function.comp_def]

theorem otherNames_eq (statement : Statement) :
    statement.otherNames =
      (statement.columns.filter fun column ↦ !column.primaryKey).map Column.name := by
  cases statement with
  | table definition =>
    simp [otherNames, columns, List.filter_map, Field.primaryColumn, Field.column,
      Function.comp_def]
  | relation sides =>
    simp [otherNames, columns, List.filter_map, Table.keyColumn, Field.column, Function.comp_def]

/-- The columns of a statement come from its fields, but for the keys of a relation. -/
theorem mem_columns_cases {column : Column} (hcolumn : column ∈ statement.columns) :
    (∃ field ∈ statement.fields, column = field.column statement.name ∨
        column = field.primaryColumn statement.name) ∨
      ∃ symbol, column = Table.keyColumn symbol := by
  cases statement with
  | table definition =>
    rcases List.mem_append.mp hcolumn with hcolumn | hcolumn
    · obtain ⟨field, hfield, rfl⟩ := List.mem_map.mp hcolumn
      exact Or.inl ⟨field, List.mem_append_left _ hfield, Or.inr rfl⟩
    · obtain ⟨field, hfield, rfl⟩ := List.mem_map.mp hcolumn
      exact Or.inl ⟨field, List.mem_append_right _ hfield, Or.inl rfl⟩
  | relation sides =>
    rcases List.mem_append.mp hcolumn with hcolumn | hcolumn
    · rcases List.mem_pair.mp hcolumn with rfl | rfl
      · exact Or.inr ⟨_, rfl⟩
      · exact Or.inr ⟨_, rfl⟩
    · obtain ⟨field, hfield, rfl⟩ := List.mem_map.mp hcolumn
      exact Or.inl ⟨field, hfield, Or.inl rfl⟩

theorem Valid.field_valid (hvalid : statement.Valid) {field : Field}
    (hfield : field ∈ statement.fields) : field.Valid := by
  cases statement with
  | table definition =>
    rcases List.mem_append.mp hfield with hfield | hfield
    · exact (hvalid.fields.1 field hfield).1
    · exact hvalid.fields.2 field hfield
  | relation sides => exact hvalid.fields field hfield

/-- Only a field that holds integers and is never null has a sequence, named after its table. -/
theorem Valid.sequence_eq (hvalid : statement.Valid) {column : Column}
    (hcolumn : column ∈ statement.columns) {name : String} (hname : column.sequence = some name) :
    column.nullable = false ∧ column.type.isInteger = true ∧
      name = Name.sequence statement.name := by
  have hfield : ∀ field ∈ statement.fields,
      (field.column statement.name).sequence = some name →
        (field.column statement.name).nullable = false ∧
          (field.column statement.name).type.isInteger = true ∧
            name = Name.sequence statement.name := by
    intro field hfield hsequence
    simp only [Field.column] at hsequence ⊢
    split_ifs at hsequence with hoption
    obtain ⟨hnull, htype⟩ := (hvalid.field_valid hfield).sequence hoption
    exact ⟨decide_eq_false hnull, (ColumnType.isInteger_ofSymbol_iff _).mpr htype,
      (Option.some.inj hsequence).symm⟩
  rcases mem_columns_cases hcolumn with ⟨field, hmember, rfl | rfl⟩ | ⟨symbol, rfl⟩
  · exact hfield field hmember hname
  · exact hfield field hmember hname
  · cases hname

/-- The columns of a primary key are never null. -/
theorem Valid.key_present (hvalid : statement.Valid) {column : Column}
    (hcolumn : column ∈ statement.columns) (hkey : column.primaryKey = true) :
    column.nullable = false := by
  cases statement with
  | table definition =>
    rcases List.mem_append.mp hcolumn with hcolumn | hcolumn
    · obtain ⟨field, hfield, rfl⟩ := List.mem_map.mp hcolumn
      exact decide_eq_false (hvalid.fields.1 field hfield).2
    · obtain ⟨field, -, rfl⟩ := List.mem_map.mp hcolumn
      cases hkey
  | relation sides =>
    rcases List.mem_append.mp hcolumn with hcolumn | hcolumn
    · rcases List.mem_pair.mp hcolumn with rfl | rfl <;> rfl
    · obtain ⟨field, -, rfl⟩ := List.mem_map.mp hcolumn
      cases hkey

/-- A column refers to another table exactly if it is a key column of a link entity. -/
theorem foreignKey_ne_none_iff {column : Column} (hcolumn : column ∈ statement.columns) :
    column.foreignKey ≠ none ↔ statement.kind ≠ .declared ∧ column.primaryKey = true := by
  cases statement with
  | table definition =>
    rcases List.mem_append.mp hcolumn with hcolumn | hcolumn
    · obtain ⟨field, -, rfl⟩ := List.mem_map.mp hcolumn
      simp [Field.primaryColumn, Field.column, kind]
    · obtain ⟨field, -, rfl⟩ := List.mem_map.mp hcolumn
      simp [Field.column, kind]
  | relation sides =>
    rcases List.mem_append.mp hcolumn with hcolumn | hcolumn
    · rcases List.mem_pair.mp hcolumn with rfl | rfl <;> simp [Table.keyColumn, kind]
    · obtain ⟨field, -, rfl⟩ := List.mem_map.mp hcolumn
      simp [Field.column]

/-! ### Tables of statements -/

namespace Describes

theorem primary_values (hdescribes : statement.Describes table) :
    table.primary.values = statement.columns.filter Column.primaryKey := by
  rw [OrderedMap.values, hdescribes.primary]
  simp [Table.filed, Function.comp_def]

theorem ordinary_values (hdescribes : statement.Describes table) :
    table.ordinary.values = statement.columns.filter fun column ↦ !column.primaryKey := by
  rw [OrderedMap.values, hdescribes.ordinary]
  simp [Table.filed, Function.comp_def]

theorem primary_keys (hdescribes : statement.Describes table) :
    table.primary.keys = (statement.columns.filter Column.primaryKey).map Column.name := by
  rw [OrderedMap.keys, hdescribes.primary]
  simp [Table.filed, Function.comp_def]

theorem ordinary_keys (hdescribes : statement.Describes table) :
    table.ordinary.keys =
      (statement.columns.filter fun column ↦ !column.primaryKey).map Column.name := by
  rw [OrderedMap.keys, hdescribes.ordinary]
  simp [Table.filed, Function.comp_def]

theorem isLink_iff (hdescribes : statement.Describes table) :
    table.isLink = true ↔ statement.kind ≠ .declared := by
  rw [Table.isLink_iff_kind_ne, hdescribes.kind]

end Describes

/-- The table of a valid statement is laid out as required. -/
theorem Valid.laidOut (hvalid : statement.Valid) (hdescribes : statement.Describes table) :
    table.LaidOut where
  primary_keys := by rw [hdescribes.primary_keys, hdescribes.primary_values]
  ordinary_keys := by rw [hdescribes.ordinary_keys, hdescribes.ordinary_values]
  keys_nodup := by
    rw [hdescribes.primary_keys, hdescribes.ordinary_keys, ← List.map_append,
      ← statement.columns_eq_append]
    exact hvalid.columns_nodup
  marked_iff := by
    intro column hcolumn
    rw [hdescribes.columns_eq] at hcolumn
    rw [hdescribes.primary_values, List.mem_filter]
    exact (and_iff_right hcolumn).symm
  key_present := by
    intro column hcolumn
    rw [hdescribes.primary_values, List.mem_filter] at hcolumn
    exact hvalid.key_present hcolumn.1 hcolumn.2
  sequence := by
    intro column hcolumn name hname
    rw [hdescribes.columns_eq] at hcolumn
    rw [hdescribes.name]
    exact hvalid.sequence_eq hcolumn hname
  shown := by
    intro name hname
    rw [hdescribes.shown] at hname
    rw [Table.columnNames, hdescribes.columns_eq]
    exact hvalid.mem_columns_of_mem_shown hname
  foreign_iff := by
    rw [hdescribes.columns_eq, hdescribes.isLink_iff]
    constructor
    · rintro ⟨column, hcolumn, hforeign⟩
      exact ((foreignKey_ne_none_iff hcolumn).mp hforeign).1
    · intro hkind
      cases statement with
      | table definition => exact absurd rfl hkind
      | relation sides =>
        exact ⟨Table.keyColumn sides.left.symbol, List.mem_cons_self, by simp [Table.keyColumn]⟩

end Statement

/-! ### Where foreign keys lead -/

namespace Schema

variable {document : Document} {schema : Schema}

/-- In a schema that was built, link rows can refer to both sides of every relation. -/
theorem hosts_of_ofDocument (hbuild : Schema.ofDocument document = .ok schema)
    {relation : Relation} (hrelation : relation ∈ document.relations) :
    schema.Hosts relation.left.symbol ∧ schema.Hosts relation.right.symbol := by
  have hvalid := valid_of_ofDocument hbuild
  have hstatements := (valid_iff_statements.mp hvalid).1.1
  obtain ⟨hfollows, -⟩ := ofDocument_follows hbuild
  exact (hfollows.hosts_sides_iff hstatements).mpr hvalid.sides_declared relation hrelation

/-- A table to which link rows can refer has its storage name and an integer key `id`. -/
theorem Hosts.exists_id (hbuild : Schema.ofDocument document = .ok schema) {name : String}
    (hhosts : schema.Hosts name) :
    ∃ target id, schema.table? name = some target ∧ target.kind = .declared ∧
      target.storage = Name.storage name ∧ target.primary.get? "id" = some id ∧
      id.type.isInteger = true ∧ id.nullable = false := by
  obtain ⟨target, htarget, hkind, hid⟩ := hhosts
  obtain ⟨hfollows, -⟩ := ofDocument_follows hbuild
  obtain ⟨statement, -, rfl, hdescribes⟩ := hfollows.exists_statement htarget
  unfold Table.hasIntegerId at hid
  split at hid
  next id hget =>
    obtain ⟨hinteger, hpresent⟩ := (Bool.and_eq_true _ _).mp hid
    exact ⟨target, id, htarget, hkind, hdescribes.storage, hget, hinteger, by simpa using hpresent⟩
  next => cases hid

/-- The link entity of a relation refers to the two sides of the relation. -/
theorem refersTo_of_ofDocument (hbuild : Schema.ofDocument document = .ok schema)
    {relation : Relation} (hrelation : relation ∈ document.relations) {table : Table}
    (hdescribes : (Statement.relation relation).Describes table) :
    schema.RefersTo table relation.left.symbol relation.right.symbol where
  keys := by
    rw [hdescribes.primary_values]
    simp [Statement.columns, List.filter_map, Table.keyColumn, Name.key, Field.column,
      Function.comp_def]
  others := by
    intro column hcolumn
    rw [hdescribes.ordinary_values, List.mem_filter] at hcolumn
    by_contra hforeign
    have hkey := ((Statement.foreignKey_ne_none_iff hcolumn.1).mp hforeign).2
    simp [hkey] at hcolumn
  sides := by
    obtain ⟨hleft, hright⟩ := hosts_of_ofDocument hbuild hrelation
    intro side hside
    rcases List.mem_pair.mp hside with rfl | rfl
    · exact hleft.exists_id hbuild
    · exact hright.exists_id hbuild

/-- The table of a statement stands for it in a schema that was built. -/
theorem standsFor_of_ofDocument (hbuild : Schema.ofDocument document = .ok schema)
    {statement : Statement} (hstatement : statement ∈ document.statements) {table : Table}
    (hdescribes : statement.Describes table) : statement.StandsFor schema table where
  toLaidOut :=
    ((valid_iff_statements.mp (valid_of_ofDocument hbuild)).1.1 statement hstatement).laidOut
      hdescribes
  name := hdescribes.name
  kind := hdescribes.kind
  primary_declared := hdescribes.primary_keys.trans statement.keyNames_eq.symm
  ordinary_declared := hdescribes.ordinary_keys.trans statement.otherNames_eq.symm
  refers := by
    intro left right hkind
    rw [hdescribes.kind] at hkind
    cases statement with
    | table definition => cases hkind
    | relation relation =>
      obtain ⟨rfl, rfl⟩ := TableKind.link.inj hkind
      exact refersTo_of_ofDocument hbuild (Document.mem_relations_iff.mpr hstatement) hdescribes

/-- A schema that was read has one table for each statement of the text, in the order of the
statements, and each stands for its statement. -/
theorem tables_stand_for_statements {source : String} (hread : Schema.read source = .ok schema) :
    ∃ document, Document.parse source = .ok document ∧
      schema.tables.keys = document.statements.map Statement.name ∧
      ∀ statement ∈ document.statements, ∃ table,
        schema.table? statement.name = some table ∧ statement.StandsFor schema table := by
  obtain ⟨document, hparse, hbuild⟩ := read_eq_ok_iff.mp hread
  obtain ⟨hfollows, -⟩ := ofDocument_follows hbuild
  refine ⟨document, hparse, hfollows.names, fun statement hstatement ↦ ?_⟩
  obtain ⟨table, htable, hdescribes⟩ := hfollows.tables statement hstatement
  exact ⟨table, htable, standsFor_of_ofDocument hbuild hstatement hdescribes⟩

/-- Accounts own their entries; the relation stands between its tables and has a sequence of its
own. -/
def ledger : String :=
  "Account(id: int~) \x7b\nname: NameStr!\nnote: String?\nrepr \x7bname\x7d\n\x7d\n" ++
    "Account^ <->> Entry \x7b\nplace: int~\n\x7d\nEntry(id: SmallInteger, day: Date) \x7b\x7d"

theorem tables_stand_for_statements_ledger : ∃ schema, Schema.read ledger = .ok schema ∧
    ∃ document, Document.parse ledger = .ok document ∧
      schema.tables.keys = document.statements.map Statement.name ∧
      ∀ statement ∈ document.statements, ∃ table,
        schema.table? statement.name = some table ∧ statement.StandsFor schema table := by
  obtain ⟨schema, hread⟩ := exists_of_isOk (by decide +kernel : (Schema.read ledger).isOk = true)
  exact ⟨schema, hread, tables_stand_for_statements hread⟩

end Schema

end SchemaCompiler
