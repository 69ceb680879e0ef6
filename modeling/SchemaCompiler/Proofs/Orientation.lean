import SchemaCompiler.Proofs.AccessorContent
import SchemaCompiler.Proofs.TableLayout

/-!
# The orientation of relations

A relation is written with a left and a right side, and every step that resolves it treats the two
one after the other. A document may write any of its relations the other way round, each side with
its weight and its markers (`Document.Turned`). If both documents have a schema, the two schemas
give the same answers (`Schema.SameAnswers`) and have the same declared tables, but for the names of
link entities: the entity of a turned relation has its two symbols in the other order. This name
shows in three places only, in the answer that is the name itself, in the tables that accessors lead
to, and in the link entity, whose sequences are named after it (`Table.Mirrored`).

What is asked of a relation by an answer does not change when the relation is turned, so the answers
are compared relation by relation (`Document.Turned.map_eq`). That the two sides have different
symbols is needed for this: otherwise it would matter which side is looked at first.
-/

set_option autoImplicit false
set_option relaxedAutoImplicit false

namespace SchemaCompiler

/-! ### Relations written the other way round -/

/-- A relation written from right to left. -/
def Relation.turned (relation : Relation) : Relation :=
  ⟨relation.right, relation.left, relation.fields⟩

/-- Two statements are the same, or a relation and the same relation from right to left. -/
inductive Statement.Turned : Statement → Statement → Prop
  | same (statement : Statement) : Turned statement statement
  | turned (relation : Relation) : Turned (.relation relation) (.relation relation.turned)

/-- Two documents have the same statements, but for relations that are written the other way
round. -/
def Document.Turned (first second : Document) : Prop :=
  List.Forall₂ Statement.Turned first.statements second.statements

namespace Relation

variable {relation : Relation}

theorem joins_turned_iff {near far : Side} :
    relation.turned.Joins near far ↔ relation.Joins near far :=
  or_comm

theorem between_turned_iff {first second : String} :
    relation.turned.Between first second ↔ relation.Between first second := by
  simp only [between_iff, joins_turned_iff]

theorem partner?_turned (hapart : relation.left.symbol ≠ relation.right.symbol) (table : String) :
    relation.turned.partner? table = relation.partner? table :=
  ite_ite_comm _ _ _ _ fun hright hleft ↦ hapart (hleft.trans hright.symm)

theorem endpoint?_turned (hapart : relation.left.symbol ≠ relation.right.symbol)
    (table : String) : relation.turned.link.endpoint? table = relation.link.endpoint? table :=
  ite_ite_comm _ _ _ _ fun hright hleft ↦ hapart (hleft.trans hright.symm)

end Relation

namespace Document.Turned

variable {first second : Document}

theorem tables_eq (hturned : first.Turned second) : first.tables = second.tables := by
  obtain ⟨statements⟩ := first
  obtain ⟨others⟩ := second
  simp only [Document.Turned, Document.tables] at hturned ⊢
  induction hturned with
  | nil => rfl
  | @cons statement _ _ _ hhead _ ih =>
    cases hhead with
    | same => cases statement <;> simp [ih]
    | turned => simp [ih]

theorem relations (hturned : first.Turned second) :
    List.Forall₂ (fun relation other ↦ other = relation ∨ other = relation.turned)
      first.relations second.relations := by
  obtain ⟨statements⟩ := first
  obtain ⟨others⟩ := second
  simp only [Document.Turned, Document.relations] at hturned ⊢
  induction hturned with
  | nil => exact .nil
  | @cons statement _ _ _ hhead _ ih =>
    cases hhead with
    | same =>
      cases statement with
      | table definition => exact ih
      | relation relation => exact .cons (Or.inl rfl) ih
    | turned relation => exact .cons (Or.inr rfl) ih

/-- What does not change when a relation is turned is the same for the relations of both
documents, in order. -/
theorem map_eq {Value : Type} (hturned : first.Turned second) (view : Relation → Value)
    (hview : ∀ relation ∈ first.relations, relation.turned ∈ second.relations →
      view relation.turned = view relation) :
    first.relations.map view = second.relations.map view := by
  have hrelations := hturned.relations
  generalize first.relations = these at hrelations hview
  generalize second.relations = others at hrelations hview
  induction hrelations with
  | nil => rfl
  | @cons relation other _ _ hhead _ ih =>
    have hrest := ih fun relation hrelation hother ↦
      hview relation (List.mem_cons_of_mem _ hrelation) (List.mem_cons_of_mem _ hother)
    rw [List.map_cons, List.map_cons, hrest]
    rcases hhead with rfl | rfl
    · rfl
    · rw [hview relation List.mem_cons_self List.mem_cons_self]

theorem exists_iff (hturned : first.Turned second) (holds : Relation → Prop)
    (hholds : ∀ relation ∈ first.relations, holds relation.turned ↔ holds relation) :
    (∃ relation ∈ first.relations, holds relation) ↔
      ∃ relation ∈ second.relations, holds relation := by
  constructor
  · rintro ⟨relation, hrelation, hfact⟩
    obtain ⟨other, hother, rfl | rfl⟩ := exists_right_of_forall₂ hturned.relations hrelation
    · exact ⟨other, hother, hfact⟩
    · exact ⟨_, hother, (hholds relation hrelation).mpr hfact⟩
  · rintro ⟨other, hother, hfact⟩
    obtain ⟨relation, hrelation, rfl | rfl⟩ := exists_left_of_forall₂ hturned.relations hother
    · exact ⟨other, hrelation, hfact⟩
    · exact ⟨relation, hrelation, (hholds relation hrelation).mp hfact⟩

end Document.Turned

/-! ### What stays the same -/

/-- What an accessor under its name says of itself: everything but the table that it leads to. -/
def Accessor.step (entry : String × Accessor) : String × Bool × String × String :=
  (entry.1, entry.2.many, entry.2.column, entry.2.inverse)

/-- Two tables are the same, but for the tables that their accessors lead to. -/
structure Table.Alike (first second : Table) : Prop extends first.SameContent second where
  steps : first.accessors.entries.map Accessor.step = second.accessors.entries.map Accessor.step

/-- Two link entities are those of one relation in its two orientations. -/
structure Table.Mirrored (first second : Table) : Prop where
  kind : ∃ left right, first.kind = .link left right ∧ second.kind = .link right left
  primary : second.primary.values = first.primary.values.reverse
  ordinary : second.ordinary.values = first.ordinary.values.map fun column ↦
    { column with sequence := column.sequence.map fun _ ↦ Name.sequence second.name }
  accessors : second.accessors.entries = first.accessors.entries.reverse

/-- Two schemas answer alike, but for the order of the two symbols in the names of link entities. -/
structure Schema.SameAnswers (first second : Schema) : Prop where
  related : ∀ table, first.graph.relatedTo table = second.graph.relatedTo table
  owns : ∀ owner target, first.graph.owns owner target = second.graph.owns owner target
  owned : ∀ owner target, first.graph.owned? owner target = second.graph.owned? owner target
  collection : ∀ source target,
    first.graph.collection? source target = second.graph.collection? source target
  endpoint : ∀ source target,
    ((first.graph.link? source target).bind fun link ↦ link.endpoint? source) =
      (second.graph.link? source target).bind fun link ↦ link.endpoint? source
  entity : ∀ source target,
    first.graph.linkEntity? source target = second.graph.linkEntity? source target ∨
      ∃ near far, (near, far) ∈ [(source, target), (target, source)] ∧
        first.graph.linkEntity? source target = some (near ++ far) ∧
        second.graph.linkEntity? source target = some (far ++ near)
  symbol : ∀ lower, first.graph.resolve? lower = second.graph.resolve? lower
  resolve : ∀ lower, Option.Rel Table.Alike (first.resolve? lower) (second.resolve? lower)

namespace Schema

variable {first second : Document} {left right : Schema}

/-! ### Answers of the graph -/

/-- The link entity of two tables is named after them, in the order of the relation. -/
theorem linkEntity?_of_turned (hleft : Schema.ofDocument first = .ok left)
    (hright : Schema.ofDocument second = .ok right) (hturned : first.Turned second)
    (source target : String) :
    left.graph.linkEntity? source target = right.graph.linkEntity? source target ∨
      ∃ near far, (near, far) ∈ [(source, target), (target, source)] ∧
        left.graph.linkEntity? source target = some (near ++ far) ∧
        right.graph.linkEntity? source target = some (far ++ near) := by
  cases hentity : left.graph.linkEntity? source target with
  | none =>
    refine Or.inl (Option.eq_none_iff_forall_ne_some.mpr fun name hname ↦ ?_).symm
    obtain ⟨relation, hrelation, hbetween, -⟩ := (linkEntity?_eq_some_iff hright).mp hname
    obtain ⟨other, hother, hsame⟩ :=
      (hturned.exists_iff (fun relation ↦ relation.Between source target)
        fun _ _ ↦ Relation.between_turned_iff).mpr ⟨relation, hrelation, hbetween⟩
    rw [(linkEntity?_eq_some_iff hleft).mpr ⟨other, hother, hsame, rfl⟩] at hentity
    cases hentity
  | some name =>
    obtain ⟨relation, hrelation, hbetween, rfl⟩ := (linkEntity?_eq_some_iff hleft).mp hentity
    obtain ⟨other, hother, rfl | rfl⟩ := exists_right_of_forall₂ hturned.relations hrelation
    · exact Or.inl ((linkEntity?_eq_some_iff hright).mpr ⟨other, hother, hbetween, rfl⟩).symm
    · have hback := (linkEntity?_eq_some_iff hright).mpr
        ⟨_, hother, Relation.between_turned_iff.mpr hbetween, rfl⟩
      refine Or.inr ⟨relation.left.symbol, relation.right.symbol, ?_, rfl, hback⟩
      rcases hbetween with ⟨rfl, rfl⟩ | ⟨rfl, rfl⟩
      · exact List.mem_cons_self
      · exact List.mem_cons_of_mem _ List.mem_cons_self

/-- The side of a table in its relation to another one. -/
theorem endpoint?_link?_eq_some_iff {document : Document} {schema : Schema}
    (hbuild : Schema.ofDocument document = .ok schema) {source target : String}
    {endpoint : Endpoint} :
    ((schema.graph.link? source target).bind fun link ↦ link.endpoint? source) = some endpoint ↔
      ∃ relation ∈ document.relations, relation.Between source target ∧
        relation.link.endpoint? source = some endpoint := by
  rw [Option.bind_eq_some_iff]
  simp only [link?_eq_some_iff hbuild]
  constructor
  · rintro ⟨link, ⟨relation, hrelation, hbetween, rfl⟩, hendpoint⟩
    exact ⟨relation, hrelation, hbetween, hendpoint⟩
  · rintro ⟨relation, hrelation, hbetween, hendpoint⟩
    exact ⟨relation.link, ⟨relation, hrelation, hbetween, rfl⟩, hendpoint⟩

theorem relatedTo_of_turned (hleft : Schema.ofDocument first = .ok left)
    (hright : Schema.ofDocument second = .ok right) (hturned : first.Turned second)
    (table : String) : left.graph.relatedTo table = right.graph.relatedTo table := by
  have hpartners := hturned.map_eq (fun relation ↦ relation.partner? table) fun _ hrelation _ ↦
    Relation.partner?_turned (Relation.symbol_ne (valid_of_ofDocument hleft) hrelation) table
  have hfilter : ∀ relations : List Relation,
      (relations.filterMap fun relation ↦ relation.partner? table) =
        (relations.map fun relation ↦ relation.partner? table).filterMap id := by
    intro relations
    rw [List.filterMap_map]
    rfl
  rw [relatedTo_eq hleft, relatedTo_eq hright, hfilter, hfilter, hpartners]

/-- Whichever relations are turned, the graph gives the same answers. -/
theorem sameAnswers_of_turned (hleft : Schema.ofDocument first = .ok left)
    (hright : Schema.ofDocument second = .ok right) (hturned : first.Turned second)
    (halike : ∀ name, first.Declares name →
      Option.Rel Table.Alike (left.table? name) (right.table? name)) :
    left.SameAnswers right := by
  have howned : ∀ owner target,
      left.graph.owned? owner target = right.graph.owned? owner target := by
    intro owner target
    have howns : first.Owns owner target ↔ second.Owns owner target :=
      hturned.exists_iff _ fun relation _ ↦ by simp only [Relation.joins_turned_iff]
    ext name
    rw [owned?_eq_some_iff hleft, owned?_eq_some_iff hright, howns]
  have hsymbol : ∀ lower, left.graph.resolve? lower = right.graph.resolve? lower := by
    intro lower
    ext table
    rw [resolve?_eq_some_iff hleft, resolve?_eq_some_iff hright, Document.Declares,
      Document.Declares, hturned.tables_eq]
  refine ⟨relatedTo_of_turned hleft hright hturned, ?_, howned, ?_, ?_,
    linkEntity?_of_turned hleft hright hturned, hsymbol, ?_⟩
  · intro owner target
    rw [RelationGraph.owns, RelationGraph.owns, howned]
  · intro source target
    ext name
    rw [collection?_eq_some_iff hleft, collection?_eq_some_iff hright,
      hturned.exists_iff _ fun _ _ ↦ Relation.between_turned_iff]
  · intro source target
    ext endpoint
    rw [endpoint?_link?_eq_some_iff hleft, endpoint?_link?_eq_some_iff hright]
    refine hturned.exists_iff _ fun relation hrelation ↦ ?_
    rw [Relation.between_turned_iff,
      Relation.endpoint?_turned (Relation.symbol_ne (valid_of_ofDocument hleft) hrelation)]
  · intro lower
    unfold Schema.resolve?
    rw [← hsymbol]
    cases hname : left.graph.resolve? lower with
    | none => exact .none
    | some name => exact halike name ((resolve?_eq_some_iff hleft).mp hname).2

/-! ### Tables -/

/-- What a relation gives to a declared table does not depend on its orientation, but for where the
accessor leads. -/
theorem steps_gifts_turned {relation : Relation}
    (hapart : relation.left.symbol ≠ relation.right.symbol) {name : String}
    (hname : relation.linkName ≠ name) (hback : relation.turned.linkName ≠ name) :
    (relation.turned.link.gifts name).map Accessor.step =
      (relation.link.gifts name).map Accessor.step := by
  have hnone : ∀ other : Relation, other.linkName ≠ name → other.link.gifts name =
      (if name = other.left.symbol
        then [other.link.collection other.left.endpoint other.right.endpoint] else []) ++
      if name = other.right.symbol
        then [other.link.collection other.right.endpoint other.left.endpoint] else [] := by
    intro other hother
    simp only [Link.gifts, Relation.link, hother.symm, if_false, List.nil_append]
    rfl
  rw [hnone _ hname, hnone _ hback]
  by_cases hleft : name = relation.left.symbol
  · simp [Relation.turned, hleft, hapart, Link.collection, Accessor.step]
  · by_cases hright : name = relation.right.symbol
    · simp [Relation.turned, hright, hapart.symm, Link.collection, Accessor.step]
    · simp [Relation.turned, hleft, hright]

/-- The tables of a definition in two schemas that differ in the orientation of relations. -/
theorem alike_of_turned (hleft : Schema.ofDocument first = .ok left)
    (hright : Schema.ofDocument second = .ok right) (hturned : first.Turned second)
    {definition : TableDefinition} (hdefinition : definition ∈ first.tables) :
    ∃ table other, left.table? definition.name = some table ∧
      right.table? definition.name = some other ∧ table.Alike other := by
  have hmember := hdefinition
  rw [hturned.tables_eq] at hmember
  obtain ⟨table, htable, hdescribes⟩ :=
    (ofDocument_follows hleft).1.tables _ (Document.mem_tables_iff.mp hdefinition)
  obtain ⟨other, hother, hsame⟩ :=
    (ofDocument_follows hright).1.tables _ (Document.mem_tables_iff.mp hmember)
  have hsteps := hturned.map_eq
    (fun relation ↦ (relation.link.gifts definition.name).map Accessor.step)
    fun relation hrelation hback ↦ steps_gifts_turned
      (Relation.symbol_ne (valid_of_ofDocument hleft) hrelation)
      ((valid_of_ofDocument hleft).linkName_ne hrelation ⟨definition, hdefinition, rfl⟩)
      ((valid_of_ofDocument hright).linkName_ne hback ⟨definition, hmember, rfl⟩)
  refine ⟨table, other, htable, hother, hdescribes.sameContent hsame, ?_⟩
  rw [entries_accessors hleft htable, entries_accessors hright hother, List.map_flatMap,
    List.map_flatMap, List.flatMap_def, List.flatMap_def]
  exact congrArg List.flatten hsteps

/-- The link entities of a relation in its two orientations. -/
theorem mirrored_of_turned (hleft : Schema.ofDocument first = .ok left)
    (hright : Schema.ofDocument second = .ok right) {relation : Relation}
    (hrelation : relation ∈ first.relations) (hback : relation.turned ∈ second.relations) :
    ∃ table other, left.table? relation.linkName = some table ∧
      right.table? relation.turned.linkName = some other ∧ table.Mirrored other := by
  obtain ⟨table, htable, hdescribes⟩ :=
    (ofDocument_follows hleft).1.tables _ (Document.mem_relations_iff.mp hrelation)
  obtain ⟨other, hother, hsame⟩ :=
    (ofDocument_follows hright).1.tables _ (Document.mem_relations_iff.mp hback)
  exact ⟨table, other, htable, hother,
    { kind := ⟨_, _, hdescribes.kind, hsame.kind⟩
      primary := by
        rw [hdescribes.primary_values, hsame.primary_values]
        simp [Statement.columns, Relation.turned, List.filter_map, Table.keyColumn, Field.column,
          Function.comp_def]
      ordinary := by
        rw [hdescribes.ordinary_values, hsame.ordinary_values, hsame.name]
        simp [Statement.columns, Statement.name, Relation.turned, List.filter_map,
          Table.keyColumn, Field.column, Function.comp_def, apply_ite]
      accessors := by
        rw [entries_accessors_link hleft hrelation htable,
          entries_accessors_link hright hback hother]
        rfl }⟩

/-- The link entity of a relation that is not turned. -/
theorem table?_eq_of_kept (hleft : Schema.ofDocument first = .ok left)
    (hright : Schema.ofDocument second = .ok right) {relation : Relation}
    (hrelation : relation ∈ first.relations) (hkept : relation ∈ second.relations) :
    ∃ table, left.table? relation.linkName = some table ∧
      right.table? relation.linkName = some table := by
  obtain ⟨table, htable, hdescribes⟩ :=
    (ofDocument_follows hleft).1.tables _ (Document.mem_relations_iff.mp hrelation)
  obtain ⟨other, hother, hsame⟩ :=
    (ofDocument_follows hright).1.tables _ (Document.mem_relations_iff.mp hkept)
  have heq : table = other := hdescribes.eq_of_accessors_eq hsame <|
    OrderedMap.eq_of_entries_eq <| by
      rw [entries_accessors_link hleft hrelation htable,
        entries_accessors_link hright hkept hother]
  exact ⟨table, htable, heq ▸ hother⟩

/-- Relations may be written in either orientation: if two documents differ in this only and both
have a schema, the schemas give the same answers and have the same declared tables, and each link
entity is the same or, if its relation is turned, the mirrored one. -/
theorem answers_of_turned (hturned : first.Turned second)
    (hleft : Schema.ofDocument first = .ok left) (hright : Schema.ofDocument second = .ok right) :
    left.SameAnswers right ∧
      (∀ definition ∈ first.tables, ∃ table other, left.table? definition.name = some table ∧
        right.table? definition.name = some other ∧ table.Alike other) ∧
      (∀ relation ∈ first.relations, relation ∈ second.relations → ∃ table,
        left.table? relation.linkName = some table ∧
          right.table? relation.linkName = some table) ∧
      ∀ relation ∈ first.relations, relation.turned ∈ second.relations → ∃ table other,
        left.table? relation.linkName = some table ∧
          right.table? relation.turned.linkName = some other ∧ table.Mirrored other := by
  refine ⟨sameAnswers_of_turned hleft hright hturned ?_,
    fun _ ↦ alike_of_turned hleft hright hturned, fun _ ↦ table?_eq_of_kept hleft hright,
    fun _ ↦ mirrored_of_turned hleft hright⟩
  rintro name ⟨definition, hdefinition, rfl⟩
  obtain ⟨table, other, htable, hother, halike⟩ := alike_of_turned hleft hright hturned hdefinition
  rw [htable, hother]
  exact .some halike

/-- Clubs own their teams, which have players; the relation of clubs and teams has a sequence. -/
def league : Document :=
  ⟨[.table ⟨"Club", [⟨"id", "int", [.sequence], none⟩], [], none⟩,
    .relation ⟨⟨"Club", 2, 1⟩, ⟨"Team", 1, 2⟩, [⟨"rank", "int", [.sequence], none⟩]⟩,
    .table ⟨"Team", [⟨"id", "int", [], none⟩], [⟨"name", "NameStr", [], none⟩], none⟩,
    .relation ⟨⟨"Team", 0, 1⟩, ⟨"Player", 0, 2⟩, []⟩,
    .table ⟨"Player", [⟨"id", "Integer", [], none⟩], [], some .all⟩]⟩

/-- The same tables, with the first relation written from its other side. -/
def turnedLeague : Document :=
  ⟨[.table ⟨"Club", [⟨"id", "int", [.sequence], none⟩], [], none⟩,
    .relation ⟨⟨"Team", 1, 2⟩, ⟨"Club", 2, 1⟩, [⟨"rank", "int", [.sequence], none⟩]⟩,
    .table ⟨"Team", [⟨"id", "int", [], none⟩], [⟨"name", "NameStr", [], none⟩], none⟩,
    .relation ⟨⟨"Team", 0, 1⟩, ⟨"Player", 0, 2⟩, []⟩,
    .table ⟨"Player", [⟨"id", "Integer", [], none⟩], [], some .all⟩]⟩

theorem answers_of_turned_league : ∃ left right table other,
    Schema.ofDocument league = .ok left ∧ Schema.ofDocument turnedLeague = .ok right ∧
      left.SameAnswers right ∧ left.table? "ClubTeam" = some table ∧
      right.table? "TeamClub" = some other ∧ table.Mirrored other := by
  have hturned : league.Turned turnedLeague :=
    .cons (.same _) (.cons (.turned _) (.cons (.same _) (.cons (.same _) (.cons (.same _) .nil))))
  obtain ⟨left, hleft⟩ :=
    exists_of_isOk (by decide +kernel : (Schema.ofDocument league).isOk = true)
  obtain ⟨right, hright⟩ :=
    exists_of_isOk (by decide +kernel : (Schema.ofDocument turnedLeague).isOk = true)
  obtain ⟨hanswers, -, -, hmirrored⟩ := answers_of_turned hturned hleft hright
  obtain ⟨table, other, htable, hother, hsame⟩ := hmirrored
    ⟨⟨"Club", 2, 1⟩, ⟨"Team", 1, 2⟩, [⟨"rank", "int", [.sequence], none⟩]⟩ (by decide) (by decide)
  exact ⟨left, right, table, other, hleft, hright, hanswers, htable, hother, hsame⟩

end Schema

end SchemaCompiler
