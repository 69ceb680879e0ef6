import SchemaCompiler.Proofs.SchemaContent

/-!
# Accessors lead back

The first pass leaves the tables without accessors, and a relation that is resolved gives four of
them: the link entity gets one to each side, and each side gets one to its link rows
(`Link.Gives`). Nothing else adds an accessor, so in a schema whose relations were all resolved
every accessor is given by a link of the graph (`Schema.Grounded`), whatever names the tables and
the link entities have. The accessors of a link lead to one another, hence every accessor leads to a
table whose accessor of the inverse name leads back (`Schema.Grounded.exists_inverse`).

With that, nothing is left for the last look to find. `Schema.resolved_passes_last_look` says so of
both of its checks and of all that it takes for granted, for every document whose two passes
succeed.
-/

set_option autoImplicit false
set_option relaxedAutoImplicit false

namespace SchemaCompiler

/-- The accessors that a link gives, by the table and the name under which they are filed. -/
inductive Link.Gives (link : Link) : String → String → Accessor → Prop
  /-- The link entity leads to each side. -/
  | back {near far : Endpoint} (hjoins : link.Joins near far) :
    link.Gives link.name near.lower
      ⟨near.table, false, Name.key near.lower, Name.collection far.lower⟩
  /-- Each side leads to its link rows. -/
  | collection {near far : Endpoint} (hjoins : link.Joins near far) :
    link.Gives near.table (Name.collection far.lower)
      ⟨link.name, true, Name.key near.lower, near.lower⟩

namespace Schema

/-! ### Where accessors come from -/

/-- Every accessor is given by a link. -/
def Grounded (schema : Schema) : Prop :=
  ∀ ⦃name : String⦄ ⦃table : Table⦄ ⦃key : String⦄ ⦃accessor : Accessor⦄,
    schema.table? name = some table → table.accessors.get? key = some accessor →
      ∃ link ∈ schema.graph.links, link.Gives name key accessor

theorem get?_ite_insert {condition : Prop} [Decidable condition] {accessors : OrderedMap Accessor}
    {name key : String} {added found : Accessor}
    (hget : (if condition then accessors.insert name added else accessors).get? key =
      some found) :
    accessors.get? key = some found ∨ (condition ∧ key = name ∧ found = added) := by
  by_cases hcondition : condition
  · rw [if_pos hcondition, OrderedMap.get?_insert] at hget
    by_cases hkey : key = name
    · rw [if_pos hkey] at hget
      exact Or.inr ⟨hcondition, hkey, (Option.some.inj hget).symm⟩
    · rw [if_neg hkey] at hget
      exact Or.inl hget
  · rw [if_neg hcondition] at hget
    exact Or.inl hget

/-- An accessor was there before a link was attached, or the link gives it. -/
theorem gives_of_get?_attached {link : Link} {name key : String}
    {accessors : OrderedMap Accessor} {accessor : Accessor}
    (hget : (attached link name accessors).get? key = some accessor) :
    accessors.get? key = some accessor ∨ link.Gives name key accessor := by
  have hforth : link.Joins link.left link.right := Or.inl ⟨rfl, rfl⟩
  rcases get?_ite_insert hget with hget | ⟨rfl, rfl, rfl⟩
  · rcases get?_ite_insert hget with hget | ⟨rfl, rfl, rfl⟩
    · rcases get?_ite_insert hget with hget | ⟨rfl, rfl, rfl⟩
      · rcases get?_ite_insert hget with hget | ⟨rfl, rfl, rfl⟩
        · exact Or.inl hget
        · exact Or.inr (.back hforth)
      · exact Or.inr (.back hforth.symm)
    · exact Or.inr (.collection hforth)
  · exact Or.inr (.collection hforth.symm)

/-- The first pass gives no accessors. -/
theorem accessors_eq_empty_of_declareAll {document : Document} {declared : Schema}
    (hdeclare : declareAll document = .ok declared) {name : String} {table : Table}
    (htable : declared.table? name = some table) : table.accessors = .empty := by
  have hbare : ∀ name table, declared.table? name = some table → table.accessors = .empty := by
    refine foldlM_ok_invariant
      (fun schema : Schema ↦ ∀ name table, schema.table? name = some table →
        table.accessors = .empty) ?_ _ _ _ (fun _ _ hget ↦ by cases hget) hdeclare
    intro schema statement next hschema hnext name table hget
    obtain ⟨added, hbuild, -, -, rfl⟩ := declare_eq_ok_iff.mp hnext
    have hadd : (schema.add statement added).table? name =
        if name = statement.name then some added else schema.table? name :=
      table?_insert schema _ _ _ _
    rw [hadd] at hget
    by_cases hname : name = statement.name
    · rw [if_pos hname] at hget
      cases hget
      exact (Statement.build_eq_ok_iff.mp hbuild).2.2
    · rw [if_neg hname] at hget
      exact hschema name table hget
  exact hbare name table htable

/-- One more link gives the accessors that are added with it. -/
theorem Grounded.join {schema : Schema} (hschema : schema.Grounded) (link : Link) :
    (schema.join link).Grounded := by
  intro name table key accessor htable haccessor
  rw [table?_join] at htable
  obtain ⟨before, hbefore, rfl⟩ := Option.map_eq_some_iff.mp htable
  have hlinks : (schema.join link).graph.links = schema.graph.links ++ [link] :=
    RelationGraph.links_insert schema.graph link
  rw [hlinks]
  rcases gives_of_get?_attached haccessor with hold | hgives
  · obtain ⟨other, hother, hgives⟩ := hschema hbefore hold
    exact ⟨other, List.mem_append_left _ hother, hgives⟩
  · exact ⟨link, List.mem_append_right _ List.mem_cons_self, hgives⟩

theorem Grounded.relateAll {relations : List Relation} : ∀ {schema last : Schema},
    schema.Grounded → schema.relateAll relations = (last, none) → last.Grounded := by
  induction relations with
  | nil =>
    intro schema last hschema hall
    cases hall
    exact hschema
  | cons relation rest ih =>
    intro schema last hschema hall
    unfold Schema.relateAll at hall
    split at hall
    next next hnext =>
      obtain ⟨-, -, rfl⟩ := relate_eq_ok_iff.mp hnext
      exact ih (hschema.join relation.link) hall
    next => cases hall

/-- In a schema whose relations were all resolved, every accessor is given by a link. -/
theorem grounded_of_relateAll {document : Document} {declared schema : Schema}
    (hdeclare : declareAll document = .ok declared)
    (hall : declared.relateAll document.relations = (schema, none)) : schema.Grounded := by
  refine Grounded.relateAll ?_ hall
  intro name table key accessor htable haccessor
  rw [accessors_eq_empty_of_declareAll hdeclare htable] at haccessor
  cases haccessor

theorem grounded_of_ofDocument {document : Document} {schema : Schema}
    (hbuild : Schema.ofDocument document = .ok schema) : schema.Grounded := by
  obtain ⟨declared, hdeclare, hall, -⟩ := ofDocument_eq_ok_iff.mp hbuild
  exact grounded_of_relateAll hdeclare hall

/-! ### Where accessors lead -/

/-- Every accessor leads to a table that has an accessor back, and the two are inverse to each
other. -/
theorem Grounded.exists_inverse {schema : Schema} (hgrounded : schema.Grounded)
    (hsound : schema.Sound) {name key : String} {table : Table} {accessor : Accessor}
    (htable : schema.table? name = some table)
    (haccessor : table.accessors.get? key = some accessor) :
    ∃ target inverse, schema.table? accessor.target = some target ∧
      target.accessors.get? accessor.inverse = some inverse ∧
      inverse.target = name ∧ inverse.inverse = key := by
  obtain ⟨link, hlink, hgives⟩ := hgrounded htable haccessor
  cases hgives with
  | back hjoins =>
    obtain ⟨-, -, target, hget, -, -, hcollection⟩ := hsound.attached link hlink _ _ hjoins
    exact ⟨target, _, hget, hcollection, rfl, rfl⟩
  | collection hjoins =>
    obtain ⟨-, ⟨entity, hget, -, hback⟩, -⟩ := hsound.attached link hlink _ _ hjoins
    exact ⟨entity, _, hget, hback, rfl, rfl⟩

/-- The graph of a sound schema knows each link from both of its sides. -/
theorem Sound.knowsBothSides {schema : Schema} (hsound : schema.Sound) {link : Link}
    (hlink : link ∈ schema.graph.links) : schema.knowsBothSides link = true := by
  have hrelates : ∀ {near far : Endpoint}, link.Joins near far →
      schema.graph.Relates link near far near.table far.table :=
    fun hjoins ↦ ⟨hlink, hjoins, rfl, rfl⟩
  have hrelated : ∀ {near far : Endpoint}, link.Joins near far →
      far.lower ∈ schema.graph.relatedTo near.table :=
    fun hjoins ↦ hsound.graph.related.mpr ⟨link, _, _, hrelates hjoins, rfl⟩
  have hcollection : ∀ {near far : Endpoint}, link.Joins near far →
      schema.graph.collection? near.table far.table = some (Name.collection far.lower) :=
    fun hjoins ↦ hsound.graph.collection.mpr ⟨link, _, _, hrelates hjoins, rfl⟩
  have hentity : ∀ {near far : Endpoint}, link.Joins near far →
      schema.graph.linkEntity? near.table far.table = some link.name :=
    fun hjoins ↦ hsound.graph.entity.mpr ⟨link, _, _, hrelates hjoins, rfl⟩
  have hforth : link.Joins link.left link.right := Or.inl ⟨rfl, rfl⟩
  simp [Schema.knowsBothSides, hrelated hforth, hrelated hforth.symm, hcollection hforth,
    hcollection hforth.symm, hentity hforth, hentity hforth.symm]

/-- All that the last look takes for granted holds. -/
theorem Grounded.isReciprocal {schema : Schema} (hgrounded : schema.Grounded)
    (hsound : schema.Sound) : schema.isReciprocal = true := by
  refine (Bool.and_eq_true _ _).mpr ⟨List.all_eq_true.mpr fun link hlink ↦
    hsound.knowsBothSides hlink, List.all_eq_true.mpr fun table htable ↦
      List.all_eq_true.mpr fun accessor haccessor ↦ ?_⟩
  obtain ⟨name, hname⟩ := OrderedMap.mem_values_iff.mp htable
  obtain ⟨key, hkey⟩ := OrderedMap.mem_values_iff.mp haccessor
  obtain ⟨target, inverse, htarget, hinverse, hback, -⟩ :=
    hgrounded.exists_inverse hsound hname hkey
  simp [leadsBack, htarget, hinverse, hback, hsound.name_eq hname]

/-! ### The last look -/

/-- The state in which a relation is resolved, between the relations before and after it. -/
theorem exists_middle_of_relateAll {relation : Relation} {before after : List Relation} :
    ∀ {first last : Schema}, first.relateAll (before ++ relation :: after) = (last, none) →
      ∃ middle next, first.relateAll before = (middle, none) ∧
        middle.relate relation = .ok next := by
  induction before with
  | nil =>
    intro first last hall
    simp only [List.nil_append, relateAll] at hall
    split at hall
    next next hnext => exact ⟨first, next, rfl, hnext⟩
    next => cases hall
  | cons earlier rest ih =>
    intro first last hall
    simp only [List.cons_append, relateAll] at hall ⊢
    split at hall
    next next hnext =>
      obtain ⟨middle, reached, hmiddle, hreached⟩ := ih hall
      exact ⟨middle, reached, hmiddle, hreached⟩
    next => cases hall

/-- Where a relation is resolved, its link entity and both of its sides are there to be given
accessors. -/
theorem exists_tables_of_relate {document : Document} {middle next : Schema} {relation : Relation}
    (hfollows : middle.Follows document) (hrelation : relation ∈ document.relations)
    (hrelate : middle.relate relation = .ok next) :
    ∀ name ∈ [relation.linkName, relation.left.symbol, relation.right.symbol],
      (middle.table? name).isSome = true := by
  obtain ⟨⟨⟨left, hleft, -⟩, right, hright, -⟩, -, -⟩ := relate_eq_ok_iff.mp hrelate
  obtain ⟨entity, hentity, -⟩ := hfollows.tables _ (Document.mem_relations_iff.mp hrelation)
  have hlink : middle.table? relation.linkName = some entity := hentity
  simp [hlink, hleft, hright]

/-- For every document whose tables and link entities were declared and whose relations were all
resolved, the last look finds nothing and what it takes for granted holds; every table that is given
an accessor on the way is there; and every accessor of the schema leads to a table that has an
accessor back, inverse to it. -/
theorem resolved_passes_last_look {document : Document} {declared schema : Schema}
    (hdeclare : declareAll document = .ok declared)
    (hall : declared.relateAll document.relations = (schema, none)) :
    schema.check = .ok () ∧ schema.isReciprocal = true ∧
      (∀ before relation after, document.relations = before ++ relation :: after →
        ∃ middle next, declared.relateAll before = (middle, none) ∧
          middle.relate relation = .ok next ∧
          ∀ name ∈ [relation.linkName, relation.left.symbol, relation.right.symbol],
            (middle.table? name).isSome = true) ∧
      ∀ name table key accessor, schema.table? name = some table →
        table.accessors.get? key = some accessor →
          ∃ target inverse, schema.table? accessor.target = some target ∧
            target.accessors.get? accessor.inverse = some inverse ∧
            inverse.target = name ∧ inverse.inverse = key := by
  have hsound := sound_of_relateAll hdeclare hall
  have hgrounded := grounded_of_relateAll hdeclare hall
  refine ⟨check_of_relateAll hdeclare hall, hgrounded.isReciprocal hsound, ?_,
    fun name table key accessor htable haccessor ↦
      hgrounded.exists_inverse hsound htable haccessor⟩
  intro before relation after hsplit
  rw [hsplit] at hall
  obtain ⟨middle, next, hmiddle, hnext⟩ := exists_middle_of_relateAll hall
  have hdeclared : declared.Follows document := follows_empty.foldlM_declare hdeclare
  have hrelation : relation ∈ document.relations := by simp [hsplit]
  exact ⟨middle, next, hmiddle, hnext,
    exists_tables_of_relate (hdeclared.relateAll hmiddle).1 hrelation hnext⟩

/-- Readers own their loans of books; the relation stands before its tables. -/
def library : Document :=
  ⟨[.relation ⟨⟨"Reader", 1, 1⟩, ⟨"Book", 0, 2⟩, [⟨"due", "Date", [], none⟩]⟩,
    .table ⟨"Book", [⟨"id", "int", [.sequence], none⟩], [], none⟩,
    .table ⟨"Reader", [⟨"id", "int", [], none⟩], [], some .all⟩]⟩

theorem resolved_passes_last_look_library : ∃ declared schema,
    declareAll library = .ok declared ∧ declared.relateAll library.relations = (schema, none) ∧
      schema.check = .ok () ∧ schema.isReciprocal = true := by
  have hbuild : (Schema.ofDocument library).isOk = true := by decide +kernel
  match hlibrary : Schema.ofDocument library with
  | .ok schema =>
    obtain ⟨declared, hdeclare, hall, -⟩ := ofDocument_eq_ok_iff.mp hlibrary
    obtain ⟨hcheck, hreciprocal, -⟩ := resolved_passes_last_look hdeclare hall
    exact ⟨declared, schema, hdeclare, hall, hcheck, hreciprocal⟩
  | .error fault =>
    rw [hlibrary] at hbuild
    cases hbuild

end Schema

end SchemaCompiler
