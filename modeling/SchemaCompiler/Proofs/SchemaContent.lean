import SchemaCompiler.Proofs.SchemaShape
import SchemaCompiler.Proofs.TableContent

/-!
# What the schema of a document holds

A schema follows a document (`Schema.Follows`) if it has one table for each statement, in the order
of the statements, each table holds what its statement says, and the declared tables are filed under
their small names. The first pass makes the schema follow the document, statement by statement
(`Follows.declare`); the second pass keeps that and adds one link for each relation
(`Follows.relateAll`).

Which documents have a schema at all is the subject of `Document.Valid`, which speaks of the
document alone. Each pass succeeds exactly under its part of that condition
(`exists_foldlM_declare_iff`, `exists_relateAll_iff`), although it checks each statement against
what the statements before it have left, and the last look never finds anything
(`check_of_relateAll`). So a document has a schema exactly if it is valid (`valid_of_ofDocument`,
`exists_ofDocument`).
-/

set_option autoImplicit false
set_option relaxedAutoImplicit false

namespace SchemaCompiler

/-! ### Valid documents -/

/-- The name of the link entity of a relation. -/
def Relation.linkName (relation : Relation) : String :=
  Name.link relation.left.symbol relation.right.symbol

/-- Two relations relate the same two tables, in the same order or not. -/
def Relation.SamePair (first second : Relation) : Prop :=
  (first.left.symbol = second.left.symbol ∧ first.right.symbol = second.right.symbol) ∨
    (first.left.symbol = second.right.symbol ∧ first.right.symbol = second.left.symbol)

/-- A document that describes a schema. -/
structure Document.Valid (document : Document) : Prop where
  /-- Tables and link entities have different names. -/
  names_nodup : (document.tables.map TableDefinition.name ++
    document.relations.map Relation.linkName).Nodup
  /-- No two tables differ in case only. -/
  lowers_nodup : (document.tables.map fun definition ↦ Name.lower definition.name).Nodup
  /-- No relation relates a table to itself. -/
  sides_apart : ∀ relation ∈ document.relations,
    Name.lower relation.left.symbol ≠ Name.lower relation.right.symbol
  /-- Every field gives a column. -/
  fields_valid : ∀ statement ∈ document.statements, ∀ field ∈ statement.fields, field.Valid
  /-- No field of a primary key may be null. -/
  keys_present : ∀ definition ∈ document.tables, ∀ field ∈ definition.primaries,
    FieldOption.nullable ∉ field.options
  /-- The fields of a table have different names. -/
  columns_nodup : ∀ definition ∈ document.tables,
    ((definition.primaries ++ definition.fields).map Field.name).Nodup
  /-- A table is shown by fields that it has. -/
  shown_known : ∀ definition ∈ document.tables, ∀ names,
    definition.shown = some (.fields names) →
      ∀ name ∈ names, name ∈ (definition.primaries ++ definition.fields).map Field.name
  /-- The fields of a relation have names that differ from one another and from the keys. -/
  extras_nodup : ∀ relation ∈ document.relations, (relation.fields.map Field.name).Nodup ∧
    Name.key (Name.lower relation.left.symbol) ∉ relation.fields.map Field.name ∧
    Name.key (Name.lower relation.right.symbol) ∉ relation.fields.map Field.name
  /-- The sides of a relation are tables with an integer key `id`. -/
  sides_declared : ∀ relation ∈ document.relations, ∀ side ∈ [relation.left, relation.right],
    ∃ definition ∈ document.tables, definition.name = side.symbol ∧
      ∃ field ∈ definition.primaries, field.name = "id" ∧
        field.type ∈ ["int", "Integer", "SmallInteger"]
  /-- No two relations relate the same two tables. -/
  pairs_apart : document.relations.Pairwise fun first second ↦ ¬ first.SamePair second

namespace Document

theorem mem_tables_iff {document : Document} {definition : TableDefinition} :
    definition ∈ document.tables ↔ .table definition ∈ document.statements := by
  simp only [tables, List.mem_filterMap]
  constructor
  · rintro ⟨statement, hstatement, hsome⟩
    cases statement <;> simp_all
  · intro hstatement
    exact ⟨_, hstatement, rfl⟩

theorem mem_relations_iff {document : Document} {relation : Relation} :
    relation ∈ document.relations ↔ .relation relation ∈ document.statements := by
  simp only [relations, List.mem_filterMap]
  constructor
  · rintro ⟨statement, hstatement, hsome⟩
    cases statement <;> simp_all
  · intro hstatement
    exact ⟨_, hstatement, rfl⟩

/-- The tables of a document are named by its definitions and its relations. -/
theorem perm_names (statements : List Statement) :
    (((⟨statements⟩ : Document).tables.map TableDefinition.name) ++
      (⟨statements⟩ : Document).relations.map Relation.linkName).Perm
        (statements.map Statement.name) := by
  induction statements with
  | nil => exact .nil
  | cons statement rest ih =>
    cases statement with
    | table definition => exact ih.cons _
    | relation relation => exact List.perm_middle.trans (ih.cons _)

end Document

/-- What a valid statement has to do with the fields of its document. -/
theorem Statement.valid_table_iff {definition : TableDefinition} :
    (Statement.table definition).Valid ↔
      ((∀ field ∈ definition.primaries, field.Valid ∧ FieldOption.nullable ∉ field.options) ∧
        ∀ field ∈ definition.fields, field.Valid) ∧
      ((definition.primaries ++ definition.fields).map Field.name).Nodup ∧
      ∀ names, definition.shown = some (.fields names) →
        ∀ name ∈ names, name ∈ (definition.primaries ++ definition.fields).map Field.name := by
  have hnames : (Statement.table definition).columns.map Column.name =
      (definition.primaries ++ definition.fields).map Field.name := by
    simp [Statement.columns, Field.primaryColumn, Field.column, Function.comp_def]
  rw [← hnames]
  constructor
  · intro hvalid
    exact ⟨hvalid.fields, hvalid.columns_nodup, hvalid.shown⟩
  · rintro ⟨hfields, hnodup, hshown⟩
    exact ⟨hfields, hnodup, hshown⟩

theorem Statement.valid_relation_iff {relation : Relation} :
    (Statement.relation relation).Valid ↔
      (∀ field ∈ relation.fields, field.Valid) ∧
      Name.lower relation.left.symbol ≠ Name.lower relation.right.symbol ∧
      (relation.fields.map Field.name).Nodup ∧
      Name.key (Name.lower relation.left.symbol) ∉ relation.fields.map Field.name ∧
      Name.key (Name.lower relation.right.symbol) ∉ relation.fields.map Field.name := by
  have hnames : (Statement.relation relation).columns.map Column.name =
      Name.key (Name.lower relation.left.symbol) :: Name.key (Name.lower relation.right.symbol) ::
        relation.fields.map Field.name := by
    simp [Statement.columns, Field.column, Table.keyColumn, Function.comp_def]
  have hkeys : Name.key (Name.lower relation.left.symbol) =
      Name.key (Name.lower relation.right.symbol) ↔
        Name.lower relation.left.symbol = Name.lower relation.right.symbol :=
    ⟨Name.key_injective, congrArg Name.key⟩
  constructor
  · intro hvalid
    have hnodup := hvalid.columns_nodup
    rw [hnames, List.nodup_cons, List.nodup_cons, List.mem_cons, not_or, hkeys] at hnodup
    exact ⟨hvalid.fields, hnodup.1.1, hnodup.2.2, hnodup.1.2, hnodup.2.1⟩
  · rintro ⟨hfields, hapart, hnodup, hleft, hright⟩
    refine ⟨hfields, ?_, fun names hclause ↦ by cases hclause⟩
    rw [hnames, List.nodup_cons, List.nodup_cons, List.mem_cons, not_or, hkeys]
    exact ⟨⟨hapart, hleft⟩, hright, hnodup⟩

/-! ### The first pass -/

namespace Schema

/-- A schema has the tables of a document, and the small names of its declared tables. -/
structure Follows (schema : Schema) (document : Document) : Prop where
  names : schema.tables.keys = document.statements.map Statement.name
  tables : ∀ statement ∈ document.statements, ∃ table,
    schema.table? statement.name = some table ∧ statement.Describes table
  symbols : schema.graph.symbols.entries =
    document.tables.map fun definition ↦ (Name.lower definition.name, definition.name)

/-- A schema without relations has a graph of small names. -/
def Unrelated (schema : Schema) : Prop := schema.graph = { symbols := schema.graph.symbols }

namespace Follows

variable {schema : Schema} {document : Document}

theorem names_nodup (hfollows : schema.Follows document) :
    (document.statements.map Statement.name).Nodup := by
  rw [← hfollows.names]
  exact schema.tables.nodup

theorem table?_eq_none_iff (hfollows : schema.Follows document) {name : String} :
    schema.table? name = none ↔ name ∉ document.statements.map Statement.name := by
  rw [← hfollows.names, OrderedMap.keys, ← OrderedMap.get?_ne_none_iff, not_not]
  rfl

theorem resolve?_eq_none_iff (hfollows : schema.Follows document) {lower : String} :
    schema.graph.resolve? lower = none ↔
      lower ∉ document.tables.map fun definition ↦ Name.lower definition.name := by
  have hkeys : schema.graph.symbols.entries.map Prod.fst =
      document.tables.map fun definition ↦ Name.lower definition.name := by
    rw [hfollows.symbols, List.map_map]
    rfl
  rw [← hkeys, ← OrderedMap.get?_ne_none_iff, not_not]
  rfl

/-- Every table comes from a statement. -/
theorem exists_statement (hfollows : schema.Follows document) {name : String} {table : Table}
    (htable : schema.table? name = some table) :
    ∃ statement ∈ document.statements, statement.name = name ∧ statement.Describes table := by
  have hname : name ∈ document.statements.map Statement.name := by
    by_contra hnone
    rw [hfollows.table?_eq_none_iff.mpr hnone] at htable
    cases htable
  obtain ⟨statement, hstatement, rfl⟩ := List.mem_map.mp hname
  obtain ⟨found, hfound, hdescribes⟩ := hfollows.tables statement hstatement
  rw [htable, Option.some.injEq] at hfound
  exact ⟨statement, hstatement, rfl, hfound ▸ hdescribes⟩

/-- The declared tables are those of the definitions. -/
theorem exists_definition (hfollows : schema.Follows document) {name : String} {table : Table}
    (htable : schema.table? name = some table) (hkind : table.kind = .declared) :
    ∃ definition ∈ document.tables, definition.name = name ∧
      (Statement.table definition).Describes table := by
  obtain ⟨statement, hstatement, hname, hdescribes⟩ := hfollows.exists_statement htable
  cases statement with
  | table definition =>
    exact ⟨definition, Document.mem_tables_iff.mpr hstatement, hname, hdescribes⟩
  | relation relation =>
    rw [hdescribes.kind] at hkind
    cases hkind

/-- The link entities are those of the relations. -/
theorem exists_relation (hfollows : schema.Follows document) {name left right : String}
    {table : Table} (htable : schema.table? name = some table)
    (hkind : table.kind = .link left right) :
    ∃ relation ∈ document.relations, relation.linkName = name ∧ relation.left.symbol = left ∧
      relation.right.symbol = right ∧ (Statement.relation relation).Describes table := by
  obtain ⟨statement, hstatement, hname, hdescribes⟩ := hfollows.exists_statement htable
  rw [hdescribes.kind] at hkind
  cases statement with
  | table definition => cases hkind
  | relation relation =>
    obtain ⟨hleft, hright⟩ := TableKind.link.inj hkind
    exact ⟨relation, Document.mem_relations_iff.mpr hstatement, hname, hleft, hright, hdescribes⟩

end Follows

theorem follows_empty : ({} : Schema).Follows ⟨[]⟩ where
  names := rfl
  tables := by simp
  symbols := rfl

theorem unrelated_empty : ({} : Schema).Unrelated := rfl

/-- The schema with the table of one more statement. -/
def add (schema : Schema) (statement : Statement) (table : Table) : Schema where
  tables := schema.tables.insert statement.name table
  graph := match statement with
    | .table definition =>
      { schema.graph with
        symbols := schema.graph.symbols.insert (Name.lower definition.name) definition.name }
    | .relation _ => schema.graph

/-- A statement can be declared exactly if its table can be built and its names are free. -/
theorem declare_eq_ok_iff {schema next : Schema} {statement : Statement} :
    schema.declare statement = .ok next ↔
      ∃ table, statement.build = .ok table ∧ schema.table? statement.name = none ∧
        (∀ definition, statement = .table definition →
          schema.graph.resolve? (Name.lower definition.name) = none) ∧
        next = schema.add statement table := by
  cases statement with
  | table definition =>
    constructor
    · intro hdeclare
      obtain ⟨table, htable, hfree, hlower, rfl⟩ := declareTable_eq_ok hdeclare
      exact ⟨table, htable, hfree, by rintro _ ⟨⟩; exact hlower, rfl⟩
    · rintro ⟨table, htable, hfree, hlower, rfl⟩
      have hcontains : schema.tables.contains definition.name = false :=
        OrderedMap.contains_eq_false_iff.mpr hfree
      have hbuild : Table.ofDefinition definition = .ok table := htable
      simp only [declare, declareTable, hcontains, hlower definition rfl, hbuild,
        Bool.false_eq_true, ↓reduceIte]
      rfl
  | relation relation =>
    constructor
    · intro hdeclare
      obtain ⟨table, htable, -, hfree, rfl⟩ := declareLink_eq_ok hdeclare
      exact ⟨table, htable, hfree, by rintro _ ⟨⟩, rfl⟩
    · rintro ⟨table, htable, hfree, -, rfl⟩
      have hapart := (Statement.valid_relation_iff.mp (Statement.build_eq_ok_iff.mp htable).1).2.1
      have hcontains : schema.tables.contains
          (Name.link relation.left.symbol relation.right.symbol) = false :=
        OrderedMap.contains_eq_false_iff.mpr hfree
      have hbuild : Table.ofRelation relation = .ok table := htable
      simp only [declare, declareLink, hapart, hcontains, hbuild, Bool.false_eq_true, ↓reduceIte]
      rfl

/-- A declared statement is the last one of the document that the schema follows. -/
theorem Follows.declare {schema next : Schema} {done : List Statement} {statement : Statement}
    (hfollows : schema.Follows ⟨done⟩) (hdeclare : schema.declare statement = .ok next) :
    next.Follows ⟨done ++ [statement]⟩ := by
  obtain ⟨table, hbuild, hfree, hlower, rfl⟩ := declare_eq_ok_iff.mp hdeclare
  obtain ⟨-, hdescribes, -⟩ := Statement.build_eq_ok_iff.mp hbuild
  refine ⟨?_, ?_, ?_⟩
  · have hfree' : schema.tables.get? statement.name = none := hfree
    simp [add, OrderedMap.keys_insert, hfree', hfollows.names]
  · intro other hother
    have hget : (schema.add statement table).table? other.name =
        if other.name = statement.name then some table else schema.table? other.name :=
      table?_insert schema _ _ _ _
    rw [hget]
    rcases List.mem_append.mp hother with hdone | hlast
    · have hname : other.name ≠ statement.name := by
        intro hsame
        rw [← hsame, hfollows.table?_eq_none_iff] at hfree
        exact hfree (List.mem_map_of_mem hdone)
      rw [if_neg hname]
      exact hfollows.tables other hdone
    · rw [List.mem_singleton.mp hlast, if_pos rfl]
      exact ⟨table, rfl, hdescribes⟩
  · cases statement with
    | table definition =>
      have hnew := hlower definition rfl
      rw [RelationGraph.resolve?] at hnew
      simp only [add, OrderedMap.entries_insert_of_get?_eq_none hnew, hfollows.symbols,
        Document.tables, List.filterMap_append, List.map_append]
      rfl
    | relation relation =>
      simp only [add, hfollows.symbols, Document.tables, List.filterMap_append, List.map_append]
      exact (List.append_nil _).symm

theorem unrelated_foldlM_declare {statements : List Statement} {first last : Schema}
    (hfirst : first.Unrelated) (hfold : statements.foldlM Schema.declare first = .ok last) :
    last.Unrelated := by
  refine foldlM_ok_invariant Unrelated ?_ statements first last hfirst hfold
  intro schema statement next hschema hdeclare
  obtain ⟨table, -, -, -, rfl⟩ := declare_eq_ok_iff.mp hdeclare
  cases statement with
  | table definition =>
    rw [Unrelated] at hschema ⊢
    simp only [add]
    rw [hschema]
  | relation relation => exact hschema

theorem Follows.foldlM_declare {statements : List Statement} :
    ∀ {schema last : Schema} {done : List Statement}, schema.Follows ⟨done⟩ →
      statements.foldlM Schema.declare schema = .ok last → last.Follows ⟨done ++ statements⟩ := by
  induction statements with
  | nil =>
    intro schema last done hfollows hfold
    cases hfold
    rwa [List.append_nil]
  | cons statement rest ih =>
    intro schema last done hfollows hfold
    rw [List.foldlM_cons] at hfold
    obtain ⟨next, hnext, hrest⟩ := bind_eq_ok_iff.mp hfold
    have hlast := ih (hfollows.declare hnext) hrest
    rwa [List.append_assoc] at hlast

/-- The statements of a document can be declared in turn exactly if each is valid and their names
differ, also the small names of tables. -/
theorem exists_foldlM_declare_iff {statements : List Statement} :
    ∀ {schema : Schema} {done : List Statement}, schema.Follows ⟨done⟩ →
      ((∃ last, statements.foldlM declare schema = .ok last) ↔
        (∀ statement ∈ statements, statement.Valid) ∧
          ((done ++ statements).map Statement.name).Nodup ∧
          ((⟨done ++ statements⟩ : Document).tables.map
            fun definition ↦ Name.lower definition.name).Nodup) := by
  induction statements with
  | nil =>
    intro schema done hfollows
    have hlowers : ((⟨done⟩ : Document).tables.map
        fun definition ↦ Name.lower definition.name).Nodup := by
      have hnodup := schema.graph.symbols.nodup
      rwa [hfollows.symbols, List.map_map] at hnodup
    simpa [pure, Except.pure, hlowers] using hfollows.names_nodup
  | cons statement rest ih =>
    intro schema done hfollows
    have hsplit : done ++ statement :: rest = (done ++ [statement]) ++ rest := by simp
    rw [hsplit, List.forall_mem_cons]
    constructor
    · rintro ⟨last, hfold⟩
      rw [List.foldlM_cons] at hfold
      obtain ⟨next, hnext, hrest⟩ := bind_eq_ok_iff.mp hfold
      obtain ⟨table, hbuild, -⟩ := declare_eq_ok_iff.mp hnext
      obtain ⟨hvalid, hnames, hlowers⟩ := (ih (hfollows.declare hnext)).mp ⟨last, hrest⟩
      exact ⟨⟨(Statement.build_eq_ok_iff.mp hbuild).1, hvalid⟩, hnames, hlowers⟩
    · rintro ⟨⟨hstatement, hvalid⟩, hnames, hlowers⟩
      obtain ⟨table, hbuild⟩ := hstatement.exists_build
      have hfree : schema.table? statement.name = none := by
        rw [hfollows.table?_eq_none_iff]
        intro hmember
        simp only [List.map_append, List.nodup_append] at hnames
        exact hnames.1.2.2 _ hmember _ (by simp) rfl
      have hlower : ∀ definition, statement = .table definition →
          schema.graph.resolve? (Name.lower definition.name) = none := by
        rintro definition rfl
        rw [hfollows.resolve?_eq_none_iff]
        intro hmember
        simp only [Document.tables, List.filterMap_append, List.map_append,
          List.nodup_append] at hlowers
        exact hlowers.1.2.2 _ hmember _ (by simp) rfl
      have hnext := declare_eq_ok_iff.mpr ⟨table, hbuild, hfree, hlower, rfl⟩
      obtain ⟨last, hlast⟩ := (ih (hfollows.declare hnext)).mpr ⟨hvalid, hnames, hlowers⟩
      refine ⟨last, ?_⟩
      rw [List.foldlM_cons]
      exact bind_eq_ok_iff.mpr ⟨_, hnext, hlast⟩

/-! ### The second pass -/

end Schema

/-- The side of a link that a side of a relation becomes. -/
def Side.endpoint (side : Side) : Endpoint :=
  ⟨side.symbol, Name.lower side.symbol, side.weight, .ofMarkers side.markers⟩

/-- The link of a relation. -/
def Relation.link (relation : Relation) : Link :=
  ⟨relation.linkName, relation.left.endpoint, relation.right.endpoint⟩

theorem RelationGraph.links_foldl_insert (links : List Link) (graph : RelationGraph) :
    (links.foldl RelationGraph.insert graph).links = graph.links ++ links := by
  induction links generalizing graph with
  | nil => simp
  | cons link rest ih => rw [List.foldl_cons, ih, links_insert, List.append_assoc]; rfl

namespace Schema

/-- Link rows can refer to the rows of a declared table. -/
def Hosts (schema : Schema) (name : String) : Prop :=
  ∃ table, schema.table? name = some table ∧ table.kind = .declared ∧ table.hasIntegerId = true

theorem endpoint_eq_ok_iff {schema : Schema} {relation : Relation} {side : Side}
    {found : Endpoint} :
    schema.endpoint relation side = .ok found ↔
      schema.Hosts side.symbol ∧ found = side.endpoint := by
  constructor
  · intro hfound
    obtain ⟨-, -, hhosts⟩ := endpoint_eq_ok hfound
    refine ⟨hhosts, ?_⟩
    unfold endpoint at hfound
    split at hfound
    · split_ifs at hfound
      exact (Except.ok.inj hfound).symm
    · cases hfound
  · rintro ⟨⟨table, htable, hkind, hid⟩, rfl⟩
    have hlink : table.isLink = false := by simp [Table.isLink, hkind]
    simp [endpoint, htable, hlink, hid, Side.endpoint]

/-- The schema with one more relation. -/
def join (schema : Schema) (link : Link) : Schema :=
  { schema.attachAccessors link with graph := schema.graph.insert link }

/-- A relation can be resolved exactly if link rows can refer to both sides and no relation between
them was resolved before. -/
theorem relate_eq_ok_iff {schema next : Schema} {relation : Relation} :
    schema.relate relation = .ok next ↔
      (schema.Hosts relation.left.symbol ∧ schema.Hosts relation.right.symbol) ∧
        schema.graph.linkEntity? relation.left.symbol relation.right.symbol = none ∧
        next = schema.join relation.link := by
  unfold relate
  simp only [bind_eq_ok_iff, endpoint_eq_ok_iff, and_assoc, exists_and_left, exists_eq_left]
  refine and_congr_right fun _ ↦ and_congr_right fun _ ↦ ?_
  cases hentity : schema.graph.linkEntity? relation.left.symbol relation.right.symbol with
  | none =>
    simp only [Side.endpoint, hentity, true_and, pure, Except.pure, Except.ok.injEq,
      @eq_comm _ _ next]
    rfl
  | some existing =>
    simp [Side.endpoint, hentity, throw, throwThe, MonadExceptOf.throw]

theorem table?_join (schema : Schema) (link : Link) (name : String) :
    (schema.join link).table? name = (schema.table? name).map fun table ↦
      { table with accessors := attached link name table.accessors } :=
  table?_attachAccessors schema link name

theorem hosts_join_iff {schema : Schema} {link : Link} {name : String} :
    (schema.join link).Hosts name ↔ schema.Hosts name := by
  simp only [Hosts, table?_join, Option.map_eq_some_iff]
  constructor
  · rintro ⟨_, ⟨table, htable, rfl⟩, hkind, hid⟩
    exact ⟨table, htable, hkind, hid⟩
  · rintro ⟨table, htable, hkind, hid⟩
    exact ⟨_, ⟨table, htable, rfl⟩, hkind, hid⟩

theorem keys_join (schema : Schema) (link : Link) :
    (schema.join link).tables.keys = schema.tables.keys := by
  simp [join, attachAccessors, attachCollection, attachBack, OrderedMap.keys, OrderedMap.modify,
    OrderedMap.map_fst_replaceIn]

/-- A resolved relation leaves the schema with the tables of its document. -/
theorem Follows.join {schema : Schema} {document : Document} (hfollows : schema.Follows document)
    (link : Link) : (schema.join link).Follows document where
  names := (keys_join schema link).trans hfollows.names
  tables := by
    intro statement hstatement
    obtain ⟨table, htable, hdescribes⟩ := hfollows.tables statement hstatement
    refine ⟨_, by rw [table?_join, htable]; rfl, ?_⟩
    exact ⟨hdescribes.name, hdescribes.storage, hdescribes.kind, hdescribes.primary,
      hdescribes.ordinary, hdescribes.shown⟩
  symbols := by
    rw [Schema.join, RelationGraph.symbols_insert]
    exact hfollows.symbols

/-- Resolving relations in turn adds their links in turn. -/
theorem Follows.relateAll {document : Document} {relations : List Relation} :
    ∀ {schema last : Schema}, schema.Follows document →
      schema.relateAll relations = (last, none) →
        last.Follows document ∧
          last.graph = (relations.map Relation.link).foldl RelationGraph.insert schema.graph := by
  induction relations with
  | nil =>
    intro schema last hfollows hall
    cases hall
    exact ⟨hfollows, rfl⟩
  | cons relation rest ih =>
    intro schema last hfollows hall
    unfold Schema.relateAll at hall
    split at hall
    next next hnext =>
      obtain ⟨-, -, rfl⟩ := relate_eq_ok_iff.mp hnext
      exact ih (hfollows.join relation.link) hall
    next => cases hall

/-- After a relation was resolved, the pairs without a link entity are the others. -/
theorem linkEntity?_join_eq_none_iff {schema : Schema} {first second : Relation} :
    (schema.join first.link).graph.linkEntity? second.left.symbol second.right.symbol = none ↔
      ¬ first.SamePair second ∧
        schema.graph.linkEntity? second.left.symbol second.right.symbol = none := by
  have hinsert : (schema.join first.link).graph.linkEntity? second.left.symbol
      second.right.symbol =
        if second.left.symbol = first.right.symbol ∧ second.right.symbol = first.left.symbol then
          some first.linkName
        else if second.left.symbol = first.left.symbol ∧
            second.right.symbol = first.right.symbol then some first.linkName
        else schema.graph.linkEntity? second.left.symbol second.right.symbol :=
    RelationGraph.linkEntity?_insert schema.graph first.link _ _
  simp only [hinsert, Relation.SamePair, @eq_comm _ first.left.symbol,
    @eq_comm _ first.right.symbol]
  by_cases hright : second.left.symbol = first.right.symbol ∧
      second.right.symbol = first.left.symbol
  · simp [hright]
  · rw [if_neg hright]
    by_cases hleft : second.left.symbol = first.left.symbol ∧
        second.right.symbol = first.right.symbol
    · simp [hleft]
    · rw [if_neg hleft, iff_and_self]
      rintro - (hsame | ⟨hfirst, hsecond⟩)
      · exact hleft hsame
      · exact hright ⟨hsecond, hfirst⟩

/-- Relations can be resolved in turn exactly if link rows can refer to all sides and no two
relations relate the same two tables. -/
theorem exists_relateAll_iff {relations : List Relation} : ∀ {schema : Schema},
    (∃ last, schema.relateAll relations = (last, none)) ↔
      (∀ relation ∈ relations,
        schema.Hosts relation.left.symbol ∧ schema.Hosts relation.right.symbol) ∧
      relations.Pairwise (fun first second ↦ ¬ first.SamePair second) ∧
      ∀ relation ∈ relations,
        schema.graph.linkEntity? relation.left.symbol relation.right.symbol = none := by
  induction relations with
  | nil =>
    intro schema
    simp [relateAll]
  | cons relation rest ih =>
    intro schema
    rw [List.forall_mem_cons, List.forall_mem_cons, List.pairwise_cons]
    constructor
    · rintro ⟨last, hall⟩
      unfold relateAll at hall
      split at hall
      next next hnext =>
        obtain ⟨hhosts, hnone, rfl⟩ := relate_eq_ok_iff.mp hnext
        obtain ⟨hrest, hpairs, hfree⟩ := ih.mp ⟨last, hall⟩
        simp only [hosts_join_iff, linkEntity?_join_eq_none_iff] at hrest hfree
        exact ⟨⟨hhosts, hrest⟩, ⟨fun other hother ↦ (hfree other hother).1, hpairs⟩, hnone,
          fun other hother ↦ (hfree other hother).2⟩
      next => cases hall
    · rintro ⟨⟨hhosts, hrest⟩, ⟨hapart, hpairs⟩, hnone, hfree⟩
      have hnext := relate_eq_ok_iff.mpr ⟨hhosts, hnone, rfl⟩
      simp only [relateAll, hnext]
      apply ih.mpr
      simp only [hosts_join_iff, linkEntity?_join_eq_none_iff]
      exact ⟨hrest, hpairs, fun other hother ↦ ⟨hapart other hother, hfree other hother⟩⟩

/-! ### The last look -/

theorem firstFault_eq_ok_iff {schema : Schema} {find : Table → Option SchemaFault} :
    schema.firstFault find = .ok () ↔ ∀ table ∈ schema.tables.values, find table = none := by
  unfold firstFault
  rw [← List.findSome?_eq_none_iff]
  cases schema.tables.values.findSome? find <;> simp

theorem Hosts.resolvesKey {schema : Schema} {name : String} (hhosts : schema.Hosts name)
    (storage : String) : schema.resolvesKey ⟨name, storage, "id"⟩ = true := by
  obtain ⟨table, htable, -, hid⟩ := hhosts
  have hcolumn : (table.column? "id").isSome = true := by
    unfold Table.hasIntegerId at hid
    unfold Table.column?
    cases hget : table.primary.get? "id" with
    | none => simp [hget] at hid
    | some column => rfl
  simp only [Schema.resolvesKey, htable, hcolumn]

/-- A schema with a link for each relation passes the last look. -/
theorem Follows.check_eq_ok {schema : Schema} {document : Document}
    (hfollows : schema.Follows document) (hgraph : schema.graph.Describes)
    (hlinks : schema.graph.links = document.relations.map Relation.link)
    (hhosts : ∀ relation ∈ document.relations,
      schema.Hosts relation.left.symbol ∧ schema.Hosts relation.right.symbol) :
    schema.check = .ok () := by
  refine bind_eq_ok_iff.mpr ⟨(), firstFault_eq_ok_iff.mpr ?_, firstFault_eq_ok_iff.mpr ?_⟩
  · intro table htable
    obtain ⟨name, hname⟩ := OrderedMap.mem_values_iff.mp htable
    unfold unbackedLink?
    cases hkind : table.kind with
    | declared => rfl
    | link left right =>
      obtain ⟨relation, hrelation, -, rfl, rfl, hdescribes⟩ :=
        hfollows.exists_relation hname hkind
      have hentity : schema.graph.linkEntity? relation.left.symbol relation.right.symbol =
          some table.name := by
        refine hgraph.entity.mpr ⟨relation.link, relation.left.endpoint, relation.right.endpoint,
          ⟨?_, Or.inl ⟨rfl, rfl⟩, rfl, rfl⟩, hdescribes.name⟩
        rw [hlinks]
        exact List.mem_map_of_mem hrelation
      simp [hentity]
  · intro table htable
    obtain ⟨name, hname⟩ := OrderedMap.mem_values_iff.mp htable
    obtain ⟨statement, hstatement, -, hdescribes⟩ := hfollows.exists_statement hname
    simp only [missingColumn?, List.findSome?_eq_none_iff, hdescribes.columns_eq]
    -- only the two keys of a link entity refer to another table
    cases statement with
    | table definition =>
      intro column hcolumn
      rcases List.mem_append.mp hcolumn with hcolumn | hcolumn
      · obtain ⟨field, -, rfl⟩ := List.mem_map.mp hcolumn
        rfl
      · obtain ⟨field, -, rfl⟩ := List.mem_map.mp hcolumn
        rfl
    | relation relation =>
      obtain ⟨hleft, hright⟩ := hhosts relation (Document.mem_relations_iff.mpr hstatement)
      intro column hcolumn
      rcases List.mem_append.mp hcolumn with hcolumn | hcolumn
      · rcases List.mem_pair.mp hcolumn with rfl | rfl
        · simp [Table.keyColumn, hleft.resolvesKey]
        · simp [Table.keyColumn, hright.resolvesKey]
      · obtain ⟨field, -, rfl⟩ := List.mem_map.mp hcolumn
        rfl

/-! ### The whole -/

/-- Link rows can refer to a table exactly if its definition has an integer key `id`. -/
theorem Follows.hosts_iff {schema : Schema} {document : Document}
    (hfollows : schema.Follows document)
    (hvalid : ∀ statement ∈ document.statements, statement.Valid) {name : String} :
    schema.Hosts name ↔ ∃ definition ∈ document.tables, definition.name = name ∧
      ∃ field ∈ definition.primaries, field.name = "id" ∧
        field.type ∈ ["int", "Integer", "SmallInteger"] := by
  constructor
  · rintro ⟨table, htable, hkind, hid⟩
    obtain ⟨definition, hdefinition, hname, hdescribes⟩ := hfollows.exists_definition htable hkind
    have hstatement := hvalid _ (Document.mem_tables_iff.mp hdefinition)
    exact ⟨definition, hdefinition, hname, (hdescribes.hasIntegerId_iff hstatement).mp hid⟩
  · rintro ⟨definition, hdefinition, rfl, hid⟩
    have hmember := Document.mem_tables_iff.mp hdefinition
    obtain ⟨table, htable, hdescribes⟩ := hfollows.tables _ hmember
    exact ⟨table, htable, hdescribes.kind,
      (hdescribes.hasIntegerId_iff (hvalid _ hmember)).mpr hid⟩

/-- A schema that was built follows its document, and its graph has the links of the relations. -/
theorem ofDocument_follows {document : Document} {schema : Schema}
    (hbuild : Schema.ofDocument document = .ok schema) :
    schema.Follows document ∧ ∃ symbols, schema.graph =
      (document.relations.map Relation.link).foldl RelationGraph.insert { symbols := symbols } := by
  obtain ⟨declared, hdeclare, hall, -⟩ := ofDocument_eq_ok_iff.mp hbuild
  have hfollows : declared.Follows document := follows_empty.foldlM_declare hdeclare
  have hunrelated : declared.Unrelated := unrelated_foldlM_declare unrelated_empty hdeclare
  obtain ⟨hlast, hgraph⟩ := hfollows.relateAll hall
  exact ⟨hlast, declared.graph.symbols, hgraph.trans (by rw [← hunrelated])⟩

/-- The two passes see a valid document statement by statement. -/
theorem valid_iff_statements {document : Document} :
    document.Valid ↔
      ((∀ statement ∈ document.statements, statement.Valid) ∧
        (document.statements.map Statement.name).Nodup ∧
        (document.tables.map fun definition ↦ Name.lower definition.name).Nodup) ∧
      (∀ relation ∈ document.relations, ∀ side ∈ [relation.left, relation.right],
        ∃ definition ∈ document.tables, definition.name = side.symbol ∧
          ∃ field ∈ definition.primaries, field.name = "id" ∧
            field.type ∈ ["int", "Integer", "SmallInteger"]) ∧
      document.relations.Pairwise fun first second ↦ ¬ first.SamePair second := by
  have hnames := (Document.perm_names document.statements).nodup_iff
  constructor
  · intro hvalid
    refine ⟨⟨?_, hnames.mp hvalid.names_nodup, hvalid.lowers_nodup⟩, hvalid.sides_declared,
      hvalid.pairs_apart⟩
    intro statement hstatement
    have hfields := hvalid.fields_valid statement hstatement
    cases statement with
    | table definition =>
      have htable := Document.mem_tables_iff.mpr hstatement
      refine Statement.valid_table_iff.mpr ⟨⟨fun field hfield ↦ ⟨?_, ?_⟩, fun field hfield ↦ ?_⟩,
        hvalid.columns_nodup definition htable, hvalid.shown_known definition htable⟩
      · exact hfields field (List.mem_append_left _ hfield)
      · exact hvalid.keys_present definition htable field hfield
      · exact hfields field (List.mem_append_right _ hfield)
    | relation relation =>
      have hrelation := Document.mem_relations_iff.mpr hstatement
      exact Statement.valid_relation_iff.mpr ⟨hfields, hvalid.sides_apart relation hrelation,
        hvalid.extras_nodup relation hrelation⟩
  · rintro ⟨⟨hstatements, hnodup, hlowers⟩, hsides, hpairs⟩
    have htables : ∀ definition ∈ document.tables, (Statement.table definition).Valid :=
      fun definition hdefinition ↦ hstatements _ (Document.mem_tables_iff.mp hdefinition)
    have hrelations : ∀ relation ∈ document.relations, (Statement.relation relation).Valid :=
      fun relation hrelation ↦ hstatements _ (Document.mem_relations_iff.mp hrelation)
    refine ⟨hnames.mpr hnodup, hlowers, ?_, ?_, ?_, ?_, ?_, ?_, hsides, hpairs⟩
    · intro relation hrelation
      exact (Statement.valid_relation_iff.mp (hrelations relation hrelation)).2.1
    · intro statement hstatement
      have hvalid := hstatements statement hstatement
      cases statement with
      | table definition =>
        obtain ⟨⟨hkeys, hfields⟩, -⟩ := Statement.valid_table_iff.mp hvalid
        intro field hfield
        rcases List.mem_append.mp hfield with hfield | hfield
        · exact (hkeys field hfield).1
        · exact hfields field hfield
      | relation relation => exact (Statement.valid_relation_iff.mp hvalid).1
    · intro definition hdefinition field hfield
      exact ((Statement.valid_table_iff.mp (htables definition hdefinition)).1.1 field hfield).2
    · intro definition hdefinition
      exact (Statement.valid_table_iff.mp (htables definition hdefinition)).2.1
    · intro definition hdefinition
      exact (Statement.valid_table_iff.mp (htables definition hdefinition)).2.2
    · intro relation hrelation
      exact (Statement.valid_relation_iff.mp (hrelations relation hrelation)).2.2

/-- The sides of all relations can be resolved in the schema that the first pass leaves exactly if
they are tables with an integer key `id`. -/
theorem Follows.hosts_sides_iff {schema : Schema} {document : Document}
    (hfollows : schema.Follows document)
    (hvalid : ∀ statement ∈ document.statements, statement.Valid) :
    (∀ relation ∈ document.relations,
        schema.Hosts relation.left.symbol ∧ schema.Hosts relation.right.symbol) ↔
      ∀ relation ∈ document.relations, ∀ side ∈ [relation.left, relation.right],
        ∃ definition ∈ document.tables, definition.name = side.symbol ∧
          ∃ field ∈ definition.primaries, field.name = "id" ∧
            field.type ∈ ["int", "Integer", "SmallInteger"] := by
  simp only [← hfollows.hosts_iff hvalid, List.forall_mem_cons, List.not_mem_nil, false_implies,
    implies_true, and_true]

/-- A document with a schema is valid. -/
theorem valid_of_ofDocument {document : Document} {schema : Schema}
    (hbuild : Schema.ofDocument document = .ok schema) : document.Valid := by
  obtain ⟨declared, hdeclare, hall, -⟩ := ofDocument_eq_ok_iff.mp hbuild
  have hfollows : declared.Follows document := follows_empty.foldlM_declare hdeclare
  have hfirst := (exists_foldlM_declare_iff follows_empty).mp ⟨declared, hdeclare⟩
  obtain ⟨hhosts, hpairs, -⟩ := exists_relateAll_iff.mp ⟨schema, hall⟩
  exact valid_iff_statements.mpr ⟨hfirst, (hfollows.hosts_sides_iff hfirst.1).mp hhosts, hpairs⟩

/-- The last look finds nothing in a schema whose relations were all resolved. -/
theorem check_of_relateAll {document : Document} {declared schema : Schema}
    (hdeclare : declareAll document = .ok declared)
    (hall : declared.relateAll document.relations = (schema, none)) : schema.check = .ok () := by
  have hfollows : declared.Follows document := follows_empty.foldlM_declare hdeclare
  have hunrelated : declared.Unrelated := unrelated_foldlM_declare unrelated_empty hdeclare
  have hvalid := ((exists_foldlM_declare_iff follows_empty).mp ⟨declared, hdeclare⟩).1
  obtain ⟨hlast, hgraph⟩ := hfollows.relateAll hall
  have hlinks : schema.graph.links = document.relations.map Relation.link := by
    rw [hgraph, RelationGraph.links_foldl_insert, hunrelated, List.nil_append]
  have hhosts := (exists_relateAll_iff.mp ⟨schema, hall⟩).1
  refine hlast.check_eq_ok (sound_of_relateAll hdeclare hall).graph hlinks ?_
  exact (hlast.hosts_sides_iff hvalid).mpr ((hfollows.hosts_sides_iff hvalid).mp hhosts)

/-- A valid document has a schema. -/
theorem exists_ofDocument {document : Document} (hvalid : document.Valid) :
    ∃ schema, Schema.ofDocument document = .ok schema := by
  obtain ⟨hfirst, hsides, hpairs⟩ := valid_iff_statements.mp hvalid
  obtain ⟨declared, hdeclare⟩ := (exists_foldlM_declare_iff follows_empty).mpr hfirst
  have hfollows : declared.Follows document := follows_empty.foldlM_declare hdeclare
  have hunrelated : declared.Unrelated := unrelated_foldlM_declare unrelated_empty hdeclare
  have hhosts := (hfollows.hosts_sides_iff hfirst.1).mpr hsides
  have hfree : ∀ relation ∈ document.relations,
      declared.graph.linkEntity? relation.left.symbol relation.right.symbol = none := by
    intro relation _
    rw [hunrelated]
    rfl
  obtain ⟨last, hall⟩ := exists_relateAll_iff.mpr ⟨hhosts, hpairs, hfree⟩
  exact ⟨last, ofDocument_eq_ok_iff.mpr ⟨declared, hdeclare, hall, check_of_relateAll hdeclare hall⟩⟩

/-- A document has a schema exactly if it is valid; every other document breaks a rule of
schemas. Symbols are compared in the case of their ASCII letters (`Text.lower`), as it is in place
for symbols that were parsed: these have no other letters. -/
theorem ofDocument_succeeds_iff_valid (document : Document) :
    ((∃ schema, Schema.ofDocument document = .ok schema) ↔ document.Valid) ∧
      ((∃ fault, Schema.ofDocument document = .error fault ∧
        fault.cause = .invalidSchema fault.message) ↔ ¬ document.Valid) := by
  constructor
  · exact ⟨fun ⟨_, hbuild⟩ ↦ valid_of_ofDocument hbuild, exists_ofDocument⟩
  · constructor
    · rintro ⟨fault, hfault, -⟩ hvalid
      obtain ⟨schema, hbuild⟩ := exists_ofDocument hvalid
      rw [hfault] at hbuild
      cases hbuild
    · intro hinvalid
      cases hbuild : Schema.ofDocument document with
      | ok schema => exact absurd (valid_of_ofDocument hbuild) hinvalid
      | error fault => exact ⟨fault, rfl, rfl⟩

end Schema

end SchemaCompiler
