import SchemaCompiler.Proofs.AccessorContent

/-!
# The order of statements

A schema is built in two passes over a document, and each pass checks a statement against what the
statements before it have left. All the same, the order of the statements decides neither whether a
document has a schema nor what the schema means: the rules of `Document.Valid` do not look at the
order (`Document.Valid.perm`), every table is known from its own statement and every answer of the
graph from the relation that it is about. Two schemas that agree in this sense
(`Schema.SameMeaning`) may differ in the order of their tables, links and accessors only.

If the table definitions keep their order among themselves, and the relations theirs, not even these
orders change, but for the order of the tables: the graphs are the same, and so is every table.
-/

set_option autoImplicit false
set_option relaxedAutoImplicit false

namespace SchemaCompiler

/-- Two tables are the same, but for the order of their accessors. -/
structure Table.SameMeaning (first second : Table) : Prop extends first.SameContent second where
  accessors : ∀ key, first.accessors.get? key = second.accessors.get? key

/-- Two schemas have the same tables under the same names and give the same answers. -/
structure Schema.SameMeaning (first second : Schema) : Prop where
  tables : ∀ name, Option.Rel Table.SameMeaning (first.table? name) (second.table? name)
  owns : ∀ owner target, first.graph.owns owner target = second.graph.owns owner target
  owned : ∀ owner target, first.graph.owned? owner target = second.graph.owned? owner target
  collection : ∀ source target,
    first.graph.collection? source target = second.graph.collection? source target
  entity : ∀ source target,
    first.graph.linkEntity? source target = second.graph.linkEntity? source target
  link : ∀ source target, first.graph.link? source target = second.graph.link? source target
  symbol : ∀ lower, first.graph.resolve? lower = second.graph.resolve? lower
  resolve : ∀ lower, Option.Rel Table.SameMeaning (first.resolve? lower) (second.resolve? lower)

/-! ### Documents -/

theorem Relation.SamePair.symm {first second : Relation} (hsame : first.SamePair second) :
    second.SamePair first := by
  rcases hsame with ⟨hleft, hright⟩ | ⟨hleft, hright⟩
  · exact Or.inl ⟨hleft.symm, hright.symm⟩
  · exact Or.inr ⟨hright.symm, hleft.symm⟩

namespace Document

variable {first second : Document}

theorem perm_tables (hperm : first.statements.Perm second.statements) :
    first.tables.Perm second.tables :=
  hperm.filterMap _

theorem perm_relations (hperm : first.statements.Perm second.statements) :
    first.relations.Perm second.relations :=
  hperm.filterMap _

/-- The rules of documents do not look at the order of the statements. -/
theorem Valid.perm (hvalid : first.Valid) (hperm : first.statements.Perm second.statements) :
    second.Valid := by
  have htables := perm_tables hperm
  have hrelations := perm_relations hperm
  have htable : ∀ definition ∈ second.tables, definition ∈ first.tables :=
    fun _ hdefinition ↦ htables.mem_iff.mpr hdefinition
  have hrelation : ∀ relation ∈ second.relations, relation ∈ first.relations :=
    fun _ hrelation ↦ hrelations.mem_iff.mpr hrelation
  exact
    { names_nodup := ((htables.map _).append (hrelations.map _)).nodup_iff.mp hvalid.names_nodup
      lowers_nodup := (htables.map _).nodup_iff.mp hvalid.lowers_nodup
      sides_apart := fun relation hmember ↦ hvalid.sides_apart relation (hrelation relation hmember)
      fields_valid := fun statement hmember ↦
        hvalid.fields_valid statement (hperm.mem_iff.mpr hmember)
      keys_present := fun definition hmember ↦
        hvalid.keys_present definition (htable definition hmember)
      columns_nodup := fun definition hmember ↦
        hvalid.columns_nodup definition (htable definition hmember)
      shown_known := fun definition hmember ↦
        hvalid.shown_known definition (htable definition hmember)
      extras_nodup := fun relation hmember ↦
        hvalid.extras_nodup relation (hrelation relation hmember)
      sides_declared := by
        intro relation hmember side hside
        obtain ⟨definition, hdefinition, hname⟩ :=
          hvalid.sides_declared relation (hrelation relation hmember) side hside
        exact ⟨definition, htables.mem_iff.mp hdefinition, hname⟩
      pairs_apart := (hrelations.pairwise_iff fun hapart hsame ↦ hapart hsame.symm).mp
        hvalid.pairs_apart }

end Document

/-! ### Schemas -/

namespace Schema

variable {first second : Document} {left right : Schema}

/-- Schemas of documents with the same statements have tables under the same names, and what holds
of two tables of one statement holds of them. -/
theorem rel_table? {related : Table → Table → Prop} (hleft : left.Follows first)
    (hright : right.Follows second) (hperm : first.statements.Perm second.statements)
    (hrelated : ∀ statement ∈ first.statements, ∀ table other,
      left.table? statement.name = some table → right.table? statement.name = some other →
        statement.Describes table → statement.Describes other → related table other)
    (name : String) : Option.Rel related (left.table? name) (right.table? name) := by
  cases htable : left.table? name with
  | none =>
    have hother : right.table? name = none := by
      rw [hright.table?_eq_none_iff, ← (hperm.map Statement.name).mem_iff,
        ← hleft.table?_eq_none_iff]
      exact htable
    rw [hother]
    exact .none
  | some table =>
    obtain ⟨statement, hstatement, rfl, hdescribes⟩ := hleft.exists_statement htable
    obtain ⟨other, hother, hsame⟩ := hright.tables statement (hperm.mem_iff.mp hstatement)
    rw [hother]
    exact .some (hrelated statement hstatement table other htable hother hdescribes hsame)

/-- The tables of one statement differ in the order of their accessors at most. -/
theorem sameMeaning_table (hleft : Schema.ofDocument first = .ok left)
    (hright : Schema.ofDocument second = .ok right)
    (hperm : first.statements.Perm second.statements) {statement : Statement} {table other : Table}
    (htable : left.table? statement.name = some table)
    (hother : right.table? statement.name = some other) (hdescribes : statement.Describes table)
    (hsame : statement.Describes other) : table.SameMeaning other where
  toSameContent := hdescribes.sameContent hsame
  accessors := by
    apply OrderedMap.get?_eq_of_perm
    rw [entries_accessors hleft htable, entries_accessors hright hother]
    exact (Document.perm_relations hperm).flatMap_right _

/-- Schemas of documents with the same statements have the same meaning. -/
theorem sameMeaning_of_perm (hleft : Schema.ofDocument first = .ok left)
    (hright : Schema.ofDocument second = .ok right)
    (hperm : first.statements.Perm second.statements) : left.SameMeaning right := by
  have hrelation : ∀ {relation : Relation},
      relation ∈ first.relations ↔ relation ∈ second.relations :=
    (Document.perm_relations hperm).mem_iff
  have hdeclares : ∀ {table : String}, first.Declares table ↔ second.Declares table :=
    fun {table} ↦ exists_congr fun definition ↦
      and_congr_left fun _ ↦ (Document.perm_tables hperm).mem_iff
  have howned : ∀ owner target,
      left.graph.owned? owner target = right.graph.owned? owner target := by
    intro owner target
    ext name
    simp only [owned?_eq_some_iff hleft, owned?_eq_some_iff hright, Document.Owns, hrelation]
  have hresolve : ∀ lower, left.graph.resolve? lower = right.graph.resolve? lower := by
    intro lower
    ext table
    rw [resolve?_eq_some_iff hleft, resolve?_eq_some_iff hright, hdeclares]
  have htables := rel_table? (ofDocument_follows hleft).1 (ofDocument_follows hright).1 hperm
    fun _ _ _ _ htable hother hdescribes hsame ↦
      sameMeaning_table hleft hright hperm htable hother hdescribes hsame
  refine ⟨htables, ?_, howned, ?_, ?_, ?_, hresolve, ?_⟩
  · intro owner target
    rw [RelationGraph.owns, RelationGraph.owns, howned]
  · intro source target
    ext name
    simp only [collection?_eq_some_iff hleft, collection?_eq_some_iff hright, hrelation]
  · intro source target
    ext name
    simp only [linkEntity?_eq_some_iff hleft, linkEntity?_eq_some_iff hright, hrelation]
  · intro source target
    ext link
    simp only [link?_eq_some_iff hleft, link?_eq_some_iff hright, hrelation]
  · intro lower
    unfold Schema.resolve?
    rw [hresolve]
    split
    · exact htables _
    · exact .none

/-- The graph of a schema is known from the definitions and from the relations, each in their
order. -/
theorem graph_eq (hleft : Schema.ofDocument first = .ok left)
    (hright : Schema.ofDocument second = .ok right) (htables : first.tables = second.tables)
    (hrelations : first.relations = second.relations) : left.graph = right.graph := by
  obtain ⟨hfirst, firstSymbols, hfirstGraph⟩ := ofDocument_follows hleft
  obtain ⟨hsecond, secondSymbols, hsecondGraph⟩ := ofDocument_follows hright
  have hsymbols : ∀ (links : List Link) (graph : RelationGraph),
      (links.foldl RelationGraph.insert graph).symbols = graph.symbols := by
    intro links
    induction links with
    | nil => exact fun graph ↦ rfl
    | cons link rest ih =>
      intro graph
      rw [List.foldl_cons, ih, RelationGraph.symbols_insert]
  have hsame : firstSymbols = secondSymbols := by
    apply OrderedMap.eq_of_entries_eq
    have hfirstEntries := hfirst.symbols
    have hsecondEntries := hsecond.symbols
    rw [hfirstGraph, hsymbols] at hfirstEntries
    rw [hsecondGraph, hsymbols] at hsecondEntries
    rw [hfirstEntries, hsecondEntries, htables]
  rw [hfirstGraph, hsecondGraph, hrelations, hsame]

/-- With the relations in the same order, the tables of one statement are the same. -/
theorem table?_eq_of_perm (hleft : Schema.ofDocument first = .ok left)
    (hright : Schema.ofDocument second = .ok right)
    (hperm : first.statements.Perm second.statements)
    (hrelations : first.relations = second.relations) (name : String) :
    left.table? name = right.table? name := by
  have hrel : Option.Rel Eq (left.table? name) (right.table? name) := by
    refine rel_table? (ofDocument_follows hleft).1 (ofDocument_follows hright).1 hperm ?_ name
    intro statement _ table other htable hother hdescribes hsame
    refine hdescribes.eq_of_accessors_eq hsame (OrderedMap.eq_of_entries_eq ?_)
    rw [entries_accessors hleft htable, entries_accessors hright hother, hrelations]
  cases htable : left.table? name <;> cases hother : right.table? name <;> simp_all

/-- The order of the statements of a document changes neither whether it has a schema nor what the
schema means. If the definitions keep their order, and the relations theirs, the graph and the
tables are the same, with the order of all that they hold. -/
theorem meaning_of_perm (hperm : first.statements.Perm second.statements) :
    ((∃ schema, Schema.ofDocument first = .ok schema) ↔
        ∃ schema, Schema.ofDocument second = .ok schema) ∧
      ∀ left right, Schema.ofDocument first = .ok left → Schema.ofDocument second = .ok right →
        left.SameMeaning right ∧
          (first.tables = second.tables → first.relations = second.relations →
            left.graph = right.graph ∧ ∀ name, left.table? name = right.table? name) := by
  refine ⟨⟨?_, ?_⟩, fun left right hleft hright ↦ ⟨sameMeaning_of_perm hleft hright hperm,
    fun htables hrelations ↦ ⟨graph_eq hleft hright htables hrelations,
      table?_eq_of_perm hleft hright hperm hrelations⟩⟩⟩
  · rintro ⟨schema, hbuild⟩
    exact exists_ofDocument ((valid_of_ofDocument hbuild).perm hperm)
  · rintro ⟨schema, hbuild⟩
    exact exists_ofDocument ((valid_of_ofDocument hbuild).perm hperm.symm)

/-- Tables with a relation before, between and after them. -/
def scattered : Document :=
  ⟨[.relation ⟨⟨"Reader", 1, 1⟩, ⟨"Book", 0, 2⟩, [⟨"due", "Date", [.nullable], none⟩]⟩,
    .table ⟨"Book", [⟨"id", "int", [.sequence], none⟩], [⟨"title", "NameStr", [], none⟩], none⟩,
    .relation ⟨⟨"Shelf", 0, 1⟩, ⟨"Book", 0, 2⟩, []⟩,
    .table ⟨"Reader", [⟨"id", "Integer", [], none⟩], [], some (.fields ["id"])⟩,
    .table ⟨"Shelf", [⟨"id", "int", [], none⟩], [], some .all⟩]⟩

/-- The same statements, the tables first. -/
def sorted : Document :=
  ⟨scattered.tables.map .table ++ scattered.relations.map .relation⟩

theorem meaning_of_perm_scattered : ∃ left right,
    Schema.ofDocument scattered = .ok left ∧ Schema.ofDocument sorted = .ok right ∧
      left.tables.keys ≠ right.tables.keys ∧ left.SameMeaning right ∧
      left.graph = right.graph ∧ ∀ name, left.table? name = right.table? name := by
  have hperm : scattered.statements.Perm sorted.statements := by decide +kernel
  obtain ⟨left, hleft⟩ :=
    exists_of_isOk (by decide +kernel : (Schema.ofDocument scattered).isOk = true)
  obtain ⟨right, hright⟩ := (meaning_of_perm hperm).1.mp ⟨left, hleft⟩
  obtain ⟨hmeaning, hsame⟩ := (meaning_of_perm hperm).2 left right hleft hright
  refine ⟨left, right, hleft, hright, ?_, hmeaning, hsame rfl rfl⟩
  rw [(ofDocument_follows hleft).1.names, (ofDocument_follows hright).1.names]
  decide

end Schema

end SchemaCompiler
