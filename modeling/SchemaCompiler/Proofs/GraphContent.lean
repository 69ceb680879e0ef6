import SchemaCompiler.Proofs.SchemaContent
import SchemaCompiler.Schema.Read

/-!
# What the relation graph says of a document

The graph of a schema is read off the relations of its document, and answers for nothing else:
`RelationGraph.Mirrors` says so for every look-up. Two tables have a link entity, a collection and a
link, and each is among the related tables of the other, exactly if a relation of the document
relates them; there is one such relation then, and the answers are those that follow from its two
sides. Ownership follows from the weights of the sides, and the related tables are listed in the
order of the relations.

The look-ups of a graph are those of its links (`Describes`, in the module on the shape of graphs),
and the links are those of the relations, one for each (`exists_relates_iff`). What is left is to
tell the relations apart by what the graph keeps of them: by the two tables, by the name of the link
entity, and by the small name of the other side. Each of the three is a rule of valid documents.
-/

set_option autoImplicit false
set_option relaxedAutoImplicit false

namespace SchemaCompiler

/-! ### Relations between two tables -/

namespace Relation

/-- A relation in one of its two directions. -/
def Joins (relation : Relation) (near far : Side) : Prop :=
  (near = relation.left ∧ far = relation.right) ∨ (near = relation.right ∧ far = relation.left)

/-- A relation relates two tables, in either order. -/
def Between (relation : Relation) (first second : String) : Prop :=
  (relation.left.symbol = first ∧ relation.right.symbol = second) ∨
    (relation.left.symbol = second ∧ relation.right.symbol = first)

instance (relation : Relation) (first second : String) :
    Decidable (relation.Between first second) :=
  inferInstanceAs (Decidable ((_ ∧ _) ∨ (_ ∧ _)))

/-- The table that a relation relates to a table. -/
def partner? (relation : Relation) (table : String) : Option String :=
  if relation.left.symbol = table then some relation.right.symbol
  else if relation.right.symbol = table then some relation.left.symbol
  else none

theorem Joins.symm {relation : Relation} {near far : Side} (hjoins : relation.Joins near far) :
    relation.Joins far near := by
  rcases hjoins with ⟨hnear, hfar⟩ | ⟨hnear, hfar⟩
  · exact Or.inr ⟨hfar, hnear⟩
  · exact Or.inl ⟨hfar, hnear⟩

theorem between_iff {relation : Relation} {first second : String} :
    relation.Between first second ↔
      ∃ near far, relation.Joins near far ∧ near.symbol = first ∧ far.symbol = second := by
  constructor
  · rintro (⟨hleft, hright⟩ | ⟨hleft, hright⟩)
    · exact ⟨_, _, Or.inl ⟨rfl, rfl⟩, hleft, hright⟩
    · exact ⟨_, _, Or.inr ⟨rfl, rfl⟩, hright, hleft⟩
  · rintro ⟨near, far, ⟨rfl, rfl⟩ | ⟨rfl, rfl⟩, hnear, hfar⟩
    · exact Or.inl ⟨hnear, hfar⟩
    · exact Or.inr ⟨hfar, hnear⟩

theorem between_of_partner?_eq_some {relation : Relation} {table other : String}
    (hpartner : relation.partner? table = some other) : relation.Between table other := by
  unfold partner? at hpartner
  split_ifs at hpartner with hleft hright
  · exact Or.inl ⟨hleft, Option.some.inj hpartner⟩
  · exact Or.inr ⟨Option.some.inj hpartner, hright⟩

/-- Relations between the same two tables relate the same pair. -/
theorem Between.samePair {first second : Relation} {source target : String}
    (hfirst : first.Between source target) (hsecond : second.Between source target) :
    first.SamePair second := by
  rcases hfirst with ⟨rfl, rfl⟩ | ⟨rfl, rfl⟩
  · rcases hsecond with ⟨hleft, hright⟩ | ⟨hleft, hright⟩
    · exact Or.inl ⟨hleft.symm, hright.symm⟩
    · exact Or.inr ⟨hright.symm, hleft.symm⟩
  · rcases hsecond with ⟨hleft, hright⟩ | ⟨hleft, hright⟩
    · exact Or.inr ⟨hright.symm, hleft.symm⟩
    · exact Or.inl ⟨hleft.symm, hright.symm⟩

end Relation

namespace Document

/-- A table is declared. -/
def Declares (document : Document) (table : String) : Prop :=
  ∃ definition ∈ document.tables, definition.name = table

/-- A relation of the document relates two declared tables. -/
def Relates (document : Document) (first second : String) : Prop :=
  document.Declares first ∧ document.Declares second ∧
    ∃ relation ∈ document.relations, relation.Between first second

/-- A relation of the document relates two tables, and the first weighs at least as much as the
second and more than nothing. -/
def Owns (document : Document) (owner target : String) : Prop :=
  ∃ relation ∈ document.relations, ∃ near far, relation.Joins near far ∧
    near.symbol = owner ∧ far.symbol = target ∧
    far.weight ≤ near.weight ∧ ¬ (near.weight = 0 ∧ far.weight = 0)

namespace Valid

variable {document : Document}

theorem declares_of_between (hvalid : document.Valid) {relation : Relation}
    (hrelation : relation ∈ document.relations) {first second : String}
    (hbetween : relation.Between first second) :
    document.Declares first ∧ document.Declares second := by
  have hsides : ∀ side ∈ [relation.left, relation.right], document.Declares side.symbol := by
    intro side hside
    obtain ⟨definition, hdefinition, hname, -⟩ :=
      hvalid.sides_declared relation hrelation side hside
    exact ⟨definition, hdefinition, hname⟩
  have hleft := hsides relation.left (by simp)
  have hright := hsides relation.right (by simp)
  rcases hbetween with ⟨rfl, rfl⟩ | ⟨rfl, rfl⟩
  · exact ⟨hleft, hright⟩
  · exact ⟨hright, hleft⟩

theorem relates_iff (hvalid : document.Valid) {first second : String} :
    document.Relates first second ↔
      ∃ relation ∈ document.relations, relation.Between first second := by
  constructor
  · exact fun hrelates ↦ hrelates.2.2
  · rintro ⟨relation, hrelation, hbetween⟩
    obtain ⟨hfirst, hsecond⟩ := hvalid.declares_of_between hrelation hbetween
    exact ⟨hfirst, hsecond, relation, hrelation, hbetween⟩

/-- Small names tell declared tables apart. -/
theorem eq_of_lower_eq (hvalid : document.Valid) {first second : String}
    (hfirst : document.Declares first) (hsecond : document.Declares second)
    (hlower : Name.lower first = Name.lower second) : first = second := by
  obtain ⟨left, hleft, rfl⟩ := hfirst
  obtain ⟨right, hright, rfl⟩ := hsecond
  rw [List.inj_on_of_nodup_map hvalid.lowers_nodup hleft hright hlower]

/-- One relation at most relates two tables. -/
theorem filter_between_eq (hvalid : document.Valid) {relation : Relation}
    (hrelation : relation ∈ document.relations) {first second : String}
    (hbetween : relation.Between first second) :
    (document.relations.filter fun relation ↦ relation.Between first second) = [relation] := by
  have hmember : relation ∈ document.relations.filter fun relation ↦
      relation.Between first second := by
    simpa using ⟨hrelation, hbetween⟩
  have hapart := hvalid.pairs_apart.filter fun relation ↦ decide (relation.Between first second)
  match hfilter : document.relations.filter fun relation ↦ relation.Between first second with
  | [] =>
    rw [hfilter] at hmember
    exact absurd hmember List.not_mem_nil
  | [only] =>
    rw [hfilter, List.mem_singleton] at hmember
    rw [hfilter, hmember]
  | one :: other :: rest =>
    have hall : ∀ found ∈ one :: other :: rest, found.Between first second := by
      intro found hfound
      rw [← hfilter] at hfound
      simpa using (List.mem_filter.mp hfound).2
    rw [hfilter, List.pairwise_cons] at hapart
    exact absurd ((hall one (by simp)).samePair (hall other (by simp)))
      (hapart.1 other (by simp))

/-- The relations of a table relate it to different tables. -/
theorem partners_nodup (hvalid : document.Valid) (table : String) :
    ((document.relations.filterMap fun relation ↦ relation.partner? table).map
      Name.lower).Nodup := by
  rw [List.Nodup, List.pairwise_map, List.pairwise_filterMap]
  refine hvalid.pairs_apart.imp_of_mem ?_
  intro first second hfirst hsecond hapart left hleft right hright hsame
  have hfirstBetween := Relation.between_of_partner?_eq_some hleft
  have hsecondBetween := Relation.between_of_partner?_eq_some hright
  have heq : left = right := hvalid.eq_of_lower_eq
    (hvalid.declares_of_between hfirst hfirstBetween).2
    (hvalid.declares_of_between hsecond hsecondBetween).2 hsame
  rw [← heq] at hsecondBetween
  exact hapart (hfirstBetween.samePair hsecondBetween)

end Valid

end Document

/-! ### Related tables in order -/

theorem OrderedSet.elements_insert (set : OrderedSet) (element : String) :
    (set.insert element).elements =
      if element ∈ set.elements then set.elements else set.elements ++ [element] := by
  unfold insert
  split <;> rfl

/-- The small name of the table that a link links to a table. -/
def Link.partner? (link : Link) (table : String) : Option String :=
  if link.left.table = table then some link.right.lower
  else if link.right.table = table then some link.left.lower
  else none

theorem Relation.partner?_link (relation : Relation) (table : String) :
    relation.link.partner? table = (relation.partner? table).map Name.lower := by
  unfold Link.partner? Relation.partner?
  by_cases hleft : relation.left.symbol = table <;>
    by_cases hright : relation.right.symbol = table <;>
    simp [Relation.link, Side.endpoint, hleft, hright]

theorem Endpoint.owns_iff {near far : Endpoint} :
    near.owns far = true ↔ far.weight ≤ near.weight ∧ ¬ (near.weight = 0 ∧ far.weight = 0) := by
  unfold Endpoint.owns Ownership.ofWeights
  split_ifs <;> simp_all [Ownership.leftOwns] <;> omega

namespace RelationGraph

theorem relatedTo_relate (graph : RelationGraph) (table lower source : String) :
    (graph.relate table lower).relatedTo source =
      if source = table ∧ lower ∉ graph.relatedTo source then graph.relatedTo source ++ [lower]
      else graph.relatedTo source := by
  unfold relatedTo relate OrderedMap.upsert
  simp only [OrderedMap.get?_insert]
  by_cases hsource : source = table
  · subst hsource
    cases graph.related.get? source with
    | none => simp [OrderedSet.elements_insert, OrderedSet.empty]
    | some names =>
      by_cases hlower : lower ∈ names.elements <;> simp [OrderedSet.elements_insert, hlower]
  · simp [hsource]

/-- A link between two tables adds each to the related tables of the other. -/
theorem relatedTo_insert {graph : RelationGraph} {link : Link} {source : String}
    (hapart : link.left.table ≠ link.right.table)
    (hfree : ∀ lower, link.partner? source = some lower → lower ∉ graph.relatedTo source) :
    (graph.insert link).relatedTo source =
      graph.relatedTo source ++ (link.partner? source).toList := by
  have hrelated : (graph.insert link).relatedTo source =
      ((graph.relate link.left.table link.right.lower).relate
        link.right.table link.left.lower).relatedTo source := by
    unfold insert
    split_ifs <;> rfl
  rw [hrelated, relatedTo_relate, relatedTo_relate]
  by_cases hleft : link.left.table = source
  · have hright : source ≠ link.right.table := fun hsame ↦ hapart (hleft.trans hsame)
    have hnew : link.right.lower ∉ graph.relatedTo source :=
      hfree _ (by simp [Link.partner?, hleft])
    simp [Link.partner?, hleft, hright, hnew]
  · by_cases hright : link.right.table = source
    · have hnew : link.left.lower ∉ graph.relatedTo source :=
        hfree _ (by simp [Link.partner?, hleft, hright])
      simp [Link.partner?, hleft, hright, hnew, Ne.symm hleft]
    · simp [Link.partner?, hleft, hright, Ne.symm hleft, Ne.symm hright]

/-- Links add the tables that they link to a table in turn. -/
theorem relatedTo_foldl_insert {links : List Link} {source : String}
    (hapart : ∀ link ∈ links, link.left.table ≠ link.right.table) :
    ∀ {graph : RelationGraph},
      (graph.relatedTo source ++ links.filterMap fun link ↦ link.partner? source).Nodup →
        (links.foldl insert graph).relatedTo source =
          graph.relatedTo source ++ links.filterMap fun link ↦ link.partner? source := by
  induction links with
  | nil =>
    intro graph _
    simp
  | cons link rest ih =>
    intro graph hnodup
    have hsplit : ((link :: rest).filterMap fun link ↦ link.partner? source) =
        (link.partner? source).toList ++ rest.filterMap fun link ↦ link.partner? source := by
      cases hpartner : link.partner? source <;> simp [hpartner]
    obtain ⟨hlink, hrest⟩ := List.forall_mem_cons.mp hapart
    rw [hsplit, ← List.append_assoc] at hnodup ⊢
    have hstep : (graph.insert link).relatedTo source =
        graph.relatedTo source ++ (link.partner? source).toList := by
      refine relatedTo_insert hlink fun lower hlower hmember ↦ ?_
      rw [hlower] at hnodup
      exact (List.nodup_append.mp (List.nodup_append.mp hnodup).1).2.2 _ hmember _ (by simp) rfl
    rw [List.foldl_cons, ih hrest (by rwa [hstep]), hstep]

/-! ### Look-ups -/

/-- The graph answers for the relations of a document and for nothing else. -/
structure Mirrors (graph : RelationGraph) (document : Document) : Prop where
  entity_iff : ∀ first second,
    (graph.linkEntity? first second).isSome = true ↔ document.Relates first second
  collection_iff : ∀ first second,
    (graph.collection? first second).isSome = true ↔ document.Relates first second
  link_iff : ∀ first second,
    (graph.link? first second).isSome = true ↔ document.Relates first second
  related_iff : ∀ first second,
    (∃ lower ∈ graph.relatedTo first, graph.resolve? lower = some second) ↔
      document.Relates first second
  /-- Two related tables have one relation, and the answers follow from its two sides. -/
  relation : ∀ first second, document.Relates first second → ∃ relation near far,
    (document.relations.filter fun relation ↦ relation.Between first second) = [relation] ∧
    relation.Joins near far ∧ near.symbol = first ∧ far.symbol = second ∧
    graph.linkEntity? first second = some (relation.left.symbol ++ relation.right.symbol) ∧
    graph.linkEntity? second first = some (relation.left.symbol ++ relation.right.symbol) ∧
    graph.collection? first second = some ("ref_" ++ Name.lower second ++ "s") ∧
    graph.link? first second = some relation.link ∧
    graph.link? second first = some relation.link ∧
    relation.link.endpoint? first =
      some ⟨first, Name.lower first, near.weight, .ofMarkers near.markers⟩
  owned_iff : ∀ owner target,
    graph.owned? owner target = some (Name.lower target) ↔ document.Owns owner target
  owned_eq_none : ∀ owner target, ¬ document.Owns owner target → graph.owned? owner target = none
  related : ∀ table, (graph.relatedTo table).Nodup ∧ graph.relatedTo table =
    (document.relations.filterMap fun relation ↦ relation.partner? table).map Name.lower
  resolve : ∀ table, graph.resolve? (Name.lower table) = some table ↔ document.Declares table

/-- The links of a graph in their directions are the relations in theirs. -/
theorem exists_relates_iff {graph : RelationGraph} {document : Document}
    (hlinks : graph.links = document.relations.map Relation.link)
    {holds : Link → Endpoint → Endpoint → Prop} {source target : String} :
    (∃ link near far, graph.Relates link near far source target ∧ holds link near far) ↔
      ∃ relation ∈ document.relations, ∃ near far : Side, relation.Joins near far ∧
        near.symbol = source ∧ far.symbol = target ∧
        holds relation.link near.endpoint far.endpoint := by
  unfold Relates
  rw [hlinks]
  constructor
  · rintro ⟨link, near, far, ⟨hlink, hjoins, hnear, hfar⟩, hholds⟩
    obtain ⟨relation, hrelation, rfl⟩ := List.mem_map.mp hlink
    rcases hjoins with ⟨rfl, rfl⟩ | ⟨rfl, rfl⟩
    · exact ⟨relation, hrelation, _, _, Or.inl ⟨rfl, rfl⟩, hnear, hfar, hholds⟩
    · exact ⟨relation, hrelation, _, _, Or.inr ⟨rfl, rfl⟩, hnear, hfar, hholds⟩
  · rintro ⟨relation, hrelation, near, far, hjoins, hnear, hfar, hholds⟩
    refine ⟨relation.link, near.endpoint, far.endpoint,
      ⟨List.mem_map_of_mem hrelation, ?_, hnear, hfar⟩, hholds⟩
    rcases hjoins with ⟨rfl, rfl⟩ | ⟨rfl, rfl⟩
    · exact Or.inl ⟨rfl, rfl⟩
    · exact Or.inr ⟨rfl, rfl⟩

end RelationGraph

namespace Relation

theorem symbol_ne {document : Document} (hvalid : document.Valid) {relation : Relation}
    (hrelation : relation ∈ document.relations) :
    relation.left.symbol ≠ relation.right.symbol :=
  fun hsame ↦ hvalid.sides_apart relation hrelation (congrArg Name.lower hsame)

theorem partner?_eq_some {relation : Relation} {first second : String}
    (hapart : relation.left.symbol ≠ relation.right.symbol)
    (hbetween : relation.Between first second) : relation.partner? first = some second := by
  rcases hbetween with ⟨rfl, rfl⟩ | ⟨rfl, rfl⟩
  · simp [partner?]
  · simp [partner?, hapart]

theorem endpoint?_link {document : Document} (hvalid : document.Valid) {relation : Relation}
    (hrelation : relation ∈ document.relations) {near far : Side}
    (hjoins : relation.Joins near far) :
    relation.link.endpoint? near.symbol = some near.endpoint := by
  have hapart := symbol_ne hvalid hrelation
  rcases hjoins with ⟨rfl, rfl⟩ | ⟨rfl, rfl⟩
  · simp [Link.endpoint?, link, Side.endpoint]
  · simp [Link.endpoint?, link, Side.endpoint, hapart]

end Relation

namespace Schema

variable {document : Document} {schema : Schema}

theorem links_eq (hbuild : Schema.ofDocument document = .ok schema) :
    schema.graph.links = document.relations.map Relation.link := by
  obtain ⟨-, symbols, hgraph⟩ := ofDocument_follows hbuild
  rw [hgraph, RelationGraph.links_foldl_insert]
  rfl

theorem linkEntity?_eq_some_iff (hbuild : Schema.ofDocument document = .ok schema)
    {first second name : String} :
    schema.graph.linkEntity? first second = some name ↔
      ∃ relation ∈ document.relations, relation.Between first second ∧
        name = relation.linkName := by
  have hgraph := (ofDocument_sound hbuild).1.graph
  rw [hgraph.entity, @RelationGraph.exists_relates_iff _ _ (links_eq hbuild)
    fun link _ _ ↦ name = link.name]
  refine exists_congr fun relation ↦ and_congr_right fun _ ↦ ?_
  rw [Relation.between_iff]
  constructor
  · rintro ⟨near, far, hjoins, hnear, hfar, hname⟩
    exact ⟨⟨near, far, hjoins, hnear, hfar⟩, hname⟩
  · rintro ⟨⟨near, far, hjoins, hnear, hfar⟩, hname⟩
    exact ⟨near, far, hjoins, hnear, hfar, hname⟩

theorem collection?_eq_some_iff (hbuild : Schema.ofDocument document = .ok schema)
    {first second name : String} :
    schema.graph.collection? first second = some name ↔
      (∃ relation ∈ document.relations, relation.Between first second) ∧
        name = Name.collection (Name.lower second) := by
  have hgraph := (ofDocument_sound hbuild).1.graph
  rw [hgraph.collection, @RelationGraph.exists_relates_iff _ _ (links_eq hbuild)
    fun _ _ far ↦ name = Name.collection far.lower]
  constructor
  · rintro ⟨relation, hrelation, near, far, hjoins, hnear, rfl, hname⟩
    exact ⟨⟨relation, hrelation, Relation.between_iff.mpr ⟨near, far, hjoins, hnear, rfl⟩⟩, hname⟩
  · rintro ⟨⟨relation, hrelation, hbetween⟩, hname⟩
    obtain ⟨near, far, hjoins, hnear, rfl⟩ := Relation.between_iff.mp hbetween
    exact ⟨relation, hrelation, near, far, hjoins, hnear, rfl, hname⟩

theorem owned?_eq_some_iff (hbuild : Schema.ofDocument document = .ok schema)
    {owner target name : String} :
    schema.graph.owned? owner target = some name ↔
      document.Owns owner target ∧ name = Name.lower target := by
  have hgraph := (ofDocument_sound hbuild).1.graph
  rw [hgraph.owned, @RelationGraph.exists_relates_iff _ _ (links_eq hbuild)
    fun _ near far ↦ near.owns far = true ∧ name = far.lower]
  simp only [Endpoint.owns_iff, Document.Owns]
  constructor
  · rintro ⟨relation, hrelation, near, far, hjoins, hnear, rfl, ⟨hweight, hpositive⟩, hname⟩
    exact ⟨⟨relation, hrelation, near, far, hjoins, hnear, rfl, hweight, hpositive⟩, hname⟩
  · rintro ⟨⟨relation, hrelation, near, far, hjoins, hnear, rfl, hweight, hpositive⟩, hname⟩
    exact ⟨relation, hrelation, near, far, hjoins, hnear, rfl, ⟨hweight, hpositive⟩, hname⟩

/-- The link of two related tables is found by the name of its entity, which no other relation
has. -/
theorem link?_eq_some (hbuild : Schema.ofDocument document = .ok schema) {relation : Relation}
    (hrelation : relation ∈ document.relations) {first second : String}
    (hbetween : relation.Between first second) :
    schema.graph.link? first second = some relation.link := by
  have hentity := (linkEntity?_eq_some_iff hbuild).mpr ⟨relation, hrelation, hbetween, rfl⟩
  have hnames := (List.nodup_append.mp (valid_of_ofDocument hbuild).names_nodup).2.1
  have hfound : (schema.graph.links.find? fun link ↦ link.name == relation.linkName).isSome := by
    rw [List.find?_isSome, links_eq hbuild]
    exact ⟨relation.link, List.mem_map_of_mem hrelation, beq_self_eq_true _⟩
  obtain ⟨link, hlink⟩ := Option.isSome_iff_exists.mp hfound
  have hmember := List.mem_of_find?_eq_some hlink
  rw [links_eq hbuild] at hmember
  obtain ⟨other, hother, rfl⟩ := List.mem_map.mp hmember
  have hname : other.linkName = relation.linkName := by
    simpa [Relation.link] using List.find?_some hlink
  rw [List.inj_on_of_nodup_map hnames hother hrelation hname] at hlink
  simp only [RelationGraph.link?, hentity, hlink]

theorem relatedTo_eq (hbuild : Schema.ofDocument document = .ok schema) (table : String) :
    schema.graph.relatedTo table =
      (document.relations.filterMap fun relation ↦ relation.partner? table).map Name.lower := by
  have hvalid := valid_of_ofDocument hbuild
  have hpartners : ((document.relations.map Relation.link).filterMap
      fun link ↦ link.partner? table) =
        (document.relations.filterMap fun relation ↦ relation.partner? table).map Name.lower := by
    rw [List.filterMap_map, List.map_filterMap]
    exact congrArg (fun find ↦ document.relations.filterMap find)
      (funext fun relation ↦ relation.partner?_link table)
  have hapart : ∀ link ∈ document.relations.map Relation.link,
      link.left.table ≠ link.right.table := by
    intro link hlink
    obtain ⟨relation, hrelation, rfl⟩ := List.mem_map.mp hlink
    exact Relation.symbol_ne hvalid hrelation
  obtain ⟨-, symbols, hgraph⟩ := ofDocument_follows hbuild
  rw [hgraph, RelationGraph.relatedTo_foldl_insert hapart]
  · exact hpartners
  · rw [hpartners]
    exact hvalid.partners_nodup table

theorem resolve?_eq_some_iff (hbuild : Schema.ofDocument document = .ok schema)
    {lower table : String} :
    schema.graph.resolve? lower = some table ↔
      lower = Name.lower table ∧ document.Declares table := by
  obtain ⟨hfollows, -⟩ := ofDocument_follows hbuild
  rw [RelationGraph.resolve?, OrderedMap.get?_eq_some_iff, hfollows.symbols]
  simp only [List.mem_map, Prod.mk.injEq, Document.Declares]
  constructor
  · rintro ⟨definition, hdefinition, rfl, rfl⟩
    exact ⟨rfl, definition, hdefinition, rfl⟩
  · rintro ⟨rfl, definition, hdefinition, rfl⟩
    exact ⟨definition, hdefinition, rfl, rfl⟩

theorem isSome_linkEntity?_iff (hbuild : Schema.ofDocument document = .ok schema)
    {first second : String} :
    (schema.graph.linkEntity? first second).isSome = true ↔ document.Relates first second := by
  rw [Option.isSome_iff_exists, (valid_of_ofDocument hbuild).relates_iff]
  simp only [linkEntity?_eq_some_iff hbuild]
  constructor
  · rintro ⟨name, relation, hrelation, hbetween, -⟩
    exact ⟨relation, hrelation, hbetween⟩
  · rintro ⟨relation, hrelation, hbetween⟩
    exact ⟨_, relation, hrelation, hbetween, rfl⟩

theorem isSome_link?_iff (hbuild : Schema.ofDocument document = .ok schema)
    {first second : String} :
    (schema.graph.link? first second).isSome = true ↔ document.Relates first second := by
  constructor
  · intro hlink
    unfold RelationGraph.link? at hlink
    split at hlink
    next name hname =>
      rw [← isSome_linkEntity?_iff hbuild, hname]
      rfl
    next => cases hlink
  · intro hrelates
    obtain ⟨relation, hrelation, hbetween⟩ := hrelates.2.2
    rw [link?_eq_some hbuild hrelation hbetween]
    rfl

/-- The link of two tables is that of the relation between them. -/
theorem link?_eq_some_iff (hbuild : Schema.ofDocument document = .ok schema)
    {first second : String} {link : Link} :
    schema.graph.link? first second = some link ↔
      ∃ relation ∈ document.relations, relation.Between first second ∧ link = relation.link := by
  constructor
  · intro hlink
    have hrelates : document.Relates first second :=
      (isSome_link?_iff hbuild).mp (Option.isSome_of_eq_some hlink)
    obtain ⟨relation, hrelation, hbetween⟩ := hrelates.2.2
    rw [link?_eq_some hbuild hrelation hbetween] at hlink
    exact ⟨relation, hrelation, hbetween, (Option.some.inj hlink).symm⟩
  · rintro ⟨relation, hrelation, hbetween, rfl⟩
    exact link?_eq_some hbuild hrelation hbetween

/-- The related tables of a table are told apart by their small names. -/
theorem exists_resolve?_iff (hbuild : Schema.ofDocument document = .ok schema)
    {first second : String} :
    (∃ lower ∈ schema.graph.relatedTo first, schema.graph.resolve? lower = some second) ↔
      document.Relates first second := by
  have hvalid := valid_of_ofDocument hbuild
  rw [hvalid.relates_iff, relatedTo_eq hbuild]
  simp only [List.mem_map, List.mem_filterMap, resolve?_eq_some_iff hbuild]
  constructor
  · rintro ⟨_, ⟨other, ⟨relation, hrelation, hpartner⟩, rfl⟩, hlower, hsecond⟩
    have hbetween := Relation.between_of_partner?_eq_some hpartner
    have hother := (hvalid.declares_of_between hrelation hbetween).2
    rw [hvalid.eq_of_lower_eq hother hsecond hlower] at hbetween
    exact ⟨relation, hrelation, hbetween⟩
  · rintro ⟨relation, hrelation, hbetween⟩
    have hpartner := Relation.partner?_eq_some (Relation.symbol_ne hvalid hrelation) hbetween
    exact ⟨_, ⟨second, ⟨relation, hrelation, hpartner⟩, rfl⟩, rfl,
      (hvalid.declares_of_between hrelation hbetween).2⟩

/-- The graph of a schema that was built answers for the relations of its document. -/
theorem mirrors_of_ofDocument (hbuild : Schema.ofDocument document = .ok schema) :
    schema.graph.Mirrors document where
  entity_iff := fun _ _ ↦ isSome_linkEntity?_iff hbuild
  collection_iff := by
    intro first second
    rw [Option.isSome_iff_exists, (valid_of_ofDocument hbuild).relates_iff]
    simp [collection?_eq_some_iff hbuild]
  link_iff := fun _ _ ↦ isSome_link?_iff hbuild
  related_iff := fun _ _ ↦ exists_resolve?_iff hbuild
  relation := by
    intro first second hrelates
    have hvalid := valid_of_ofDocument hbuild
    obtain ⟨relation, hrelation, hbetween⟩ := hrelates.2.2
    obtain ⟨near, far, hjoins, rfl, rfl⟩ := Relation.between_iff.mp hbetween
    have hback : relation.Between far.symbol near.symbol :=
      Relation.between_iff.mpr ⟨far, near, hjoins.symm, rfl, rfl⟩
    exact ⟨relation, near, far, hvalid.filter_between_eq hrelation hbetween, hjoins, rfl, rfl,
      (linkEntity?_eq_some_iff hbuild).mpr ⟨relation, hrelation, hbetween, rfl⟩,
      (linkEntity?_eq_some_iff hbuild).mpr ⟨relation, hrelation, hback, rfl⟩,
      (collection?_eq_some_iff hbuild).mpr ⟨⟨relation, hrelation, hbetween⟩, rfl⟩,
      link?_eq_some hbuild hrelation hbetween, link?_eq_some hbuild hrelation hback,
      Relation.endpoint?_link hvalid hrelation hjoins⟩
  owned_iff := by
    intro owner target
    rw [owned?_eq_some_iff hbuild, and_iff_left rfl]
  owned_eq_none := by
    intro owner target howns
    rw [Option.eq_none_iff_forall_ne_some]
    intro name hname
    exact howns ((owned?_eq_some_iff hbuild).mp hname).1
  related := by
    intro table
    rw [relatedTo_eq hbuild]
    exact ⟨(valid_of_ofDocument hbuild).partners_nodup table, rfl⟩
  resolve := by
    intro table
    rw [resolve?_eq_some_iff hbuild, and_iff_right rfl]

/-- A schema is read from a text by parsing it and building what it describes. -/
theorem read_eq_ok_iff {source : String} :
    Schema.read source = .ok schema ↔
      ∃ document, Document.parse source = .ok document ∧
        Schema.ofDocument document = .ok schema := by
  unfold Schema.read
  rw [bind_eq_ok_iff]
  cases Document.parse source with
  | error fault => simp [Except.mapError]
  | ok document =>
    simp only [Except.mapError, Except.ok.injEq, exists_eq_left']
    cases Schema.ofDocument document <;> simp

/-- The graph of a schema that was read answers for the relations of the text. -/
theorem mirrors_of_read {source : String} (hread : Schema.read source = .ok schema) :
    ∃ document, Document.parse source = .ok document ∧ schema.graph.Mirrors document := by
  obtain ⟨document, hparse, hbuild⟩ := read_eq_ok_iff.mp hread
  exact ⟨document, hparse, mirrors_of_ofDocument hbuild⟩

/-- Users own the items that they are related to, and items own tags. -/
def shop : String :=
  "User^^ <->> Item \x7b\x7d\nItem(id: int) \x7b\x7d\nUser(id: int) \x7b\x7d\n" ++
    "Tag(id: int) \x7b\x7d\nTag <<-> Item^ \x7b\x7d"

theorem mirrors_of_read_shop : ∃ schema, Schema.read shop = .ok schema ∧
    ∃ document, Document.parse shop = .ok document ∧ schema.graph.Mirrors document := by
  have hread : (Schema.read shop).isOk = true := by decide +kernel
  match hshop : Schema.read shop with
  | .ok schema => exact ⟨schema, rfl, mirrors_of_read hshop⟩
  | .error cause =>
    rw [hshop] at hread
    cases hread

end Schema

end SchemaCompiler
