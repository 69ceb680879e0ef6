import SchemaCompiler.Proofs.Entries
import SchemaCompiler.Schema.Graph

/-!
# What a relation adds to the graph

A relation joins its two sides in both directions (`Link.Joins`). Adding it to the graph sets, in
each direction, the link entity, the collection and the related name, and the owned side where the
near side owns the far one; everything else stays as it was. The look-ups are read as relations
between two tables here: `RelationGraph.Describes` says that a graph answers for its links and for
nothing else, and `Describes.insert` that a link between two tables without one keeps it so.
-/

set_option autoImplicit false
set_option relaxedAutoImplicit false

namespace SchemaCompiler

/-- Whether a side of a relation owns the other one. -/
def Endpoint.owns (near far : Endpoint) : Bool :=
  (Ownership.ofWeights near.weight far.weight).leftOwns

/-- A relation in one of its two directions. -/
def Link.Joins (link : Link) (near far : Endpoint) : Prop :=
  (near = link.left ∧ far = link.right) ∨ (near = link.right ∧ far = link.left)

theorem Link.Joins.symm {link : Link} {near far : Endpoint} (hjoins : link.Joins near far) :
    link.Joins far near := by
  rcases hjoins with ⟨hnear, hfar⟩ | ⟨hnear, hfar⟩
  · exact Or.inr ⟨hfar, hnear⟩
  · exact Or.inl ⟨hfar, hnear⟩

theorem Ownership.rightOwns_ofWeights (leftWeight rightWeight : Nat) :
    (ofWeights leftWeight rightWeight).rightOwns = (ofWeights rightWeight leftWeight).leftOwns := by
  unfold ofWeights
  split_ifs <;> first | rfl | omega

theorem Link.leftOwns_ownership (link : Link) :
    link.ownership.leftOwns = link.left.owns link.right := rfl

theorem Link.rightOwns_ownership (link : Link) :
    link.ownership.rightOwns = link.right.owns link.left :=
  Ownership.rightOwns_ofWeights _ _

namespace RelationGraph

/-- A direction of a link of the graph between two tables. -/
def Relates (graph : RelationGraph) (link : Link) (near far : Endpoint) (source target : String) :
    Prop :=
  link ∈ graph.links ∧ link.Joins near far ∧ near.table = source ∧ far.table = target

/-- The graph answers for its links and for nothing else. -/
structure Describes (graph : RelationGraph) : Prop where
  entity : ∀ {source target name : String}, graph.linkEntity? source target = some name ↔
    ∃ link near far, graph.Relates link near far source target ∧ name = link.name
  collection : ∀ {source target name : String}, graph.collection? source target = some name ↔
    ∃ link near far, graph.Relates link near far source target ∧ name = Name.collection far.lower
  owned : ∀ {source target name : String}, graph.owned? source target = some name ↔
    ∃ link near far, graph.Relates link near far source target ∧ near.owns far = true ∧
      name = far.lower
  related : ∀ {source lower : String}, lower ∈ graph.relatedTo source ↔
    ∃ link near far, graph.Relates link near far source far.table ∧ lower = far.lower

theorem describes_empty (symbols : OrderedMap String) :
    ({ symbols := symbols } : RelationGraph).Describes where
  entity := by
    simp [linkEntity?, PairMap.pair?, Relates]
  collection := by
    simp [collection?, PairMap.pair?, Relates]
  owned := by
    simp [owned?, PairMap.pair?, Relates]
  related := by
    simp [relatedTo, Relates]

theorem Describes.congr_symbols {graph : RelationGraph} (hgraph : graph.Describes)
    (symbols : OrderedMap String) : ({ graph with symbols := symbols } : RelationGraph).Describes :=
  ⟨hgraph.entity, hgraph.collection, hgraph.owned, hgraph.related⟩

/-! ### Adding a link -/

theorem links_insert (graph : RelationGraph) (link : Link) :
    (graph.insert link).links = graph.links ++ [link] := by
  unfold insert
  split_ifs <;> rfl

theorem symbols_insert (graph : RelationGraph) (link : Link) :
    (graph.insert link).symbols = graph.symbols := by
  unfold insert
  split_ifs <;> rfl

theorem relates_insert_iff {graph : RelationGraph} {added link : Link} {near far : Endpoint}
    {source target : String} :
    (graph.insert added).Relates link near far source target ↔
      graph.Relates link near far source target ∨
        (link = added ∧ added.Joins near far ∧ near.table = source ∧ far.table = target) := by
  unfold Relates
  rw [links_insert, List.mem_append, List.mem_singleton]
  constructor
  · rintro ⟨hlink | rfl, hjoins⟩
    · exact Or.inl ⟨hlink, hjoins⟩
    · exact Or.inr ⟨rfl, hjoins⟩
  · rintro (⟨hlink, hjoins⟩ | ⟨rfl, hjoins⟩)
    · exact ⟨Or.inl hlink, hjoins⟩
    · exact ⟨Or.inr rfl, hjoins⟩

theorem linkEntity?_insert (graph : RelationGraph) (link : Link) (source target : String) :
    (graph.insert link).linkEntity? source target =
      if source = link.right.table ∧ target = link.left.table then some link.name
      else if source = link.left.table ∧ target = link.right.table then some link.name
      else graph.linkEntity? source target := by
  have hmap : (graph.insert link).linkEntities =
      (graph.linkEntities.insertPair link.left.table link.right.table link.name).insertPair
        link.right.table link.left.table link.name := by
    unfold insert
    split_ifs <;> rfl
  rw [linkEntity?, hmap, PairMap.pair?_insertPair, PairMap.pair?_insertPair, linkEntity?]

theorem collection?_insert (graph : RelationGraph) (link : Link) (source target : String) :
    (graph.insert link).collection? source target =
      if source = link.right.table ∧ target = link.left.table then
        some (Name.collection link.left.lower)
      else if source = link.left.table ∧ target = link.right.table then
        some (Name.collection link.right.lower)
      else graph.collection? source target := by
  have hmap : (graph.insert link).collections =
      (graph.collections.insertPair link.left.table link.right.table
        (Name.collection link.right.lower)).insertPair link.right.table link.left.table
        (Name.collection link.left.lower) := by
    unfold insert
    split_ifs <;> rfl
  rw [collection?, hmap, PairMap.pair?_insertPair, PairMap.pair?_insertPair, collection?]

theorem owned?_insert (graph : RelationGraph) (link : Link) (source target : String) :
    (graph.insert link).owned? source target =
      if (source = link.right.table ∧ target = link.left.table) ∧
          link.right.owns link.left = true then some link.left.lower
      else if (source = link.left.table ∧ target = link.right.table) ∧
          link.left.owns link.right = true then some link.right.lower
      else graph.owned? source target := by
  unfold insert owned?
  rw [Link.leftOwns_ownership, Link.rightOwns_ownership]
  cases link.left.owns link.right <;> cases link.right.owns link.left <;>
    simp only [Bool.false_eq_true, ↓reduceIte, and_true, and_false, insertOwned, insertPairs,
      relate, PairMap.pair?_insertPair]

theorem mem_relatedTo_relate {graph : RelationGraph} {table lower source name : String} :
    name ∈ (graph.relate table lower).relatedTo source ↔
      name ∈ graph.relatedTo source ∨ (source = table ∧ name = lower) := by
  have hinsert (set : OrderedSet) :
      name ∈ (set.insert lower).elements ↔ name ∈ set.elements ∨ name = lower := by
    unfold OrderedSet.insert
    split
    next hmember =>
      constructor
      · exact Or.inl
      · rintro (hname | rfl)
        · exact hname
        · exact hmember
    next => simp
  unfold relatedTo relate OrderedMap.upsert
  simp only [OrderedMap.get?_insert]
  by_cases hsource : source = table
  · subst hsource
    cases graph.related.get? source with
    | none => simp [hinsert, OrderedSet.empty]
    | some names => simp [hinsert]
  · simp [hsource]

theorem mem_relatedTo_insert {graph : RelationGraph} {link : Link} {source name : String} :
    name ∈ (graph.insert link).relatedTo source ↔
      name ∈ graph.relatedTo source ∨ (source = link.left.table ∧ name = link.right.lower) ∨
        (source = link.right.table ∧ name = link.left.lower) := by
  have hrelated : (graph.insert link).relatedTo source =
      ((graph.relate link.left.table link.right.lower).relate
        link.right.table link.left.lower).relatedTo source := by
    unfold insert
    split_ifs <;> rfl
  rw [hrelated, mem_relatedTo_relate, mem_relatedTo_relate, or_assoc]

/-- The directions between two tables after a link was added are those before and its own two. -/
theorem exists_relates_insert_iff {graph : RelationGraph} {added : Link} {source target : String}
    {holds : Link → Endpoint → Endpoint → Prop} :
    (∃ link near far, (graph.insert added).Relates link near far source target ∧
        holds link near far) ↔
      (∃ link near far, graph.Relates link near far source target ∧ holds link near far) ∨
        ((source = added.left.table ∧ target = added.right.table) ∧
          holds added added.left added.right) ∨
        ((source = added.right.table ∧ target = added.left.table) ∧
          holds added added.right added.left) := by
  constructor
  · rintro ⟨link, near, far, hrelates, hholds⟩
    rcases relates_insert_iff.mp hrelates with hold | ⟨rfl, hjoins, rfl, rfl⟩
    · exact Or.inl ⟨link, near, far, hold, hholds⟩
    · rcases hjoins with ⟨rfl, rfl⟩ | ⟨rfl, rfl⟩
      · exact Or.inr (Or.inl ⟨⟨rfl, rfl⟩, hholds⟩)
      · exact Or.inr (Or.inr ⟨⟨rfl, rfl⟩, hholds⟩)
  · rintro (⟨link, near, far, hold, hholds⟩ | ⟨⟨rfl, rfl⟩, hholds⟩ | ⟨⟨rfl, rfl⟩, hholds⟩)
    · exact ⟨link, near, far, relates_insert_iff.mpr (Or.inl hold), hholds⟩
    · exact ⟨added, _, _, relates_insert_iff.mpr (Or.inr ⟨rfl, Or.inl ⟨rfl, rfl⟩, rfl, rfl⟩),
        hholds⟩
    · exact ⟨added, _, _, relates_insert_iff.mpr (Or.inr ⟨rfl, Or.inr ⟨rfl, rfl⟩, rfl, rfl⟩),
        hholds⟩

/-- Two tables without a link entity have no link in either direction. -/
theorem Describes.not_relates {graph : RelationGraph} (hgraph : graph.Describes)
    {source target : String} (hnone : graph.linkEntity? source target = none) (link : Link)
    (near far : Endpoint) :
    ¬ graph.Relates link near far source target ∧ ¬ graph.Relates link near far target source := by
  constructor
  · intro hrelates
    have hsome := hgraph.entity.mpr ⟨link, near, far, hrelates, rfl⟩
    rw [hnone] at hsome
    cases hsome
  · rintro ⟨hlink, hjoins, hnear, hfar⟩
    have hsome := hgraph.entity.mpr ⟨link, far, near, ⟨hlink, hjoins.symm, hfar, hnear⟩, rfl⟩
    rw [hnone] at hsome
    cases hsome

/-- A link between two tables that had none keeps the graph faithful to its links. -/
theorem Describes.insert {graph : RelationGraph} (hgraph : graph.Describes) {added : Link}
    (hapart : added.left.table ≠ added.right.table)
    (hnone : graph.linkEntity? added.left.table added.right.table = none) :
    (graph.insert added).Describes where
  entity := by
    intro source target name
    rw [linkEntity?_insert, exists_relates_insert_iff]
    have hfree := hgraph.not_relates hnone
    split_ifs with hright hleft
    · obtain ⟨rfl, rfl⟩ := hright
      simp [hfree, hapart, hapart.symm, eq_comm]
    · obtain ⟨rfl, rfl⟩ := hleft
      simp [hfree, hapart, eq_comm]
    · simp [hgraph.entity, hright, hleft]
  collection := by
    intro source target name
    rw [collection?_insert, exists_relates_insert_iff]
    have hfree := hgraph.not_relates hnone
    split_ifs with hright hleft
    · obtain ⟨rfl, rfl⟩ := hright
      simp [hfree, hapart, hapart.symm, eq_comm]
    · obtain ⟨rfl, rfl⟩ := hleft
      simp [hfree, hapart, eq_comm]
    · simp [hgraph.collection, hright, hleft]
  owned := by
    intro source target name
    rw [owned?_insert, exists_relates_insert_iff]
    have hfree := hgraph.not_relates hnone
    split_ifs with hright hleft
    · obtain ⟨⟨rfl, rfl⟩, howns⟩ := hright
      rw [Option.some.injEq, @eq_comm _ added.left.lower]
      simp [hfree, hapart, hapart.symm, howns]
    · obtain ⟨⟨rfl, rfl⟩, howns⟩ := hleft
      rw [Option.some.injEq, @eq_comm _ added.right.lower]
      simp [hfree, hapart, howns]
    · rw [hgraph.owned]
      simp only [iff_self_or]
      rintro (⟨htables, howns, -⟩ | ⟨htables, howns, -⟩)
      · exact absurd ⟨htables, howns⟩ hleft
      · exact absurd ⟨htables, howns⟩ hright
  related := by
    intro source lower
    rw [mem_relatedTo_insert, hgraph.related]
    constructor
    · rintro (⟨link, near, far, hrelates, hlower⟩ | ⟨rfl, rfl⟩ | ⟨rfl, rfl⟩)
      · exact ⟨link, near, far, relates_insert_iff.mpr (Or.inl hrelates), hlower⟩
      · exact ⟨added, _, _, relates_insert_iff.mpr (Or.inr ⟨rfl, Or.inl ⟨rfl, rfl⟩, rfl, rfl⟩),
          rfl⟩
      · exact ⟨added, _, _, relates_insert_iff.mpr (Or.inr ⟨rfl, Or.inr ⟨rfl, rfl⟩, rfl, rfl⟩),
          rfl⟩
    · rintro ⟨link, near, far, hrelates, rfl⟩
      rcases relates_insert_iff.mp hrelates with hold | ⟨rfl, hjoins, rfl, -⟩
      · exact Or.inl ⟨link, near, far, hold, rfl⟩
      · rcases hjoins with ⟨rfl, rfl⟩ | ⟨rfl, rfl⟩
        · exact Or.inr (Or.inl ⟨rfl, rfl⟩)
        · exact Or.inr (Or.inr ⟨rfl, rfl⟩)

end RelationGraph

end SchemaCompiler
