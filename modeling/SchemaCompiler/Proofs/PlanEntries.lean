import SchemaCompiler.Proofs.GraphContent
import SchemaCompiler.Proofs.PlanShape

/-!
# The entries of a plan

A plan has one entry for each direction of each link, in the order of the tables and, for each
table, in the order of the tables that it is related to. That there are no more and no fewer is said
in two steps: the directions that a plan goes through are those of the links in another order
(`Schema.perm_directions`), and each gives one entry (`Plan.map_ofDirections`).

`RelationDelete.Agrees` says what an entry has to do with the tables of the schema: the collection
leads from the managing table to the link entity, and the owned side from there to the other table,
each over the column of the primary key of the link entity that refers to the right side.
`Schema.entries_agree` is all of this for a schema that was read.
-/

set_option autoImplicit false
set_option relaxedAutoImplicit false

namespace SchemaCompiler

/-- The two directions of a link: a table and the small name of the other one. -/
def Link.directions (link : Link) : List (String × String) :=
  [(link.left.table, link.right.lower), (link.right.table, link.left.lower)]

theorem Link.mem_directions_iff {link : Link} {managing lower : String} :
    (managing, lower) ∈ link.directions ↔
      ∃ near far, link.Joins near far ∧ near.table = managing ∧ far.lower = lower := by
  simp only [directions, List.mem_pair, Prod.mk.injEq]
  constructor
  · rintro (⟨hnear, hfar⟩ | ⟨hnear, hfar⟩)
    · exact ⟨link.left, link.right, Or.inl ⟨rfl, rfl⟩, hnear.symm, hfar.symm⟩
    · exact ⟨link.right, link.left, Or.inr ⟨rfl, rfl⟩, hnear.symm, hfar.symm⟩
  · rintro ⟨near, far, ⟨rfl, rfl⟩ | ⟨rfl, rfl⟩, hnear, hfar⟩
    · exact Or.inl ⟨hnear.symm, hfar.symm⟩
    · exact Or.inr ⟨hnear.symm, hfar.symm⟩

theorem RelationGraph.relatedTo_nodup (graph : RelationGraph) (table : String) :
    (graph.relatedTo table).Nodup := by
  unfold relatedTo
  cases graph.related.get? table with
  | none => exact List.nodup_nil
  | some names => exact names.nodup

/-! ### Directions -/

namespace Schema

/-- A plan goes through a direction once. -/
theorem Declares.nodup_directions {schema : Schema} (hschema : schema.Declares) :
    (Plan.directions schema).Nodup := by
  refine List.nodup_flatMap.mpr ⟨fun table _ ↦ ?_, ?_⟩
  · refine (schema.graph.relatedTo_nodup table.name).map fun first second hsame ↦ ?_
    exact (Prod.mk.inj hsame).2
  · have hnames := Plan.nodup_names hschema.filed
    rw [List.Nodup, List.pairwise_map] at hnames
    refine hnames.imp fun hapart direction hfirst hsecond ↦ hapart ?_
    obtain ⟨_, -, rfl⟩ := List.mem_map.mp hfirst
    obtain ⟨_, -, hsame⟩ := List.mem_map.mp hsecond
    exact (Prod.mk.inj hsame).1.symm

theorem Sound.mem_directions_iff {schema : Schema} (hschema : schema.Sound)
    {managing lower : String} :
    (managing, lower) ∈ Plan.directions schema ↔
      ∃ link ∈ schema.graph.links, (managing, lower) ∈ link.directions := by
  simp only [Plan.directions, List.mem_flatMap, List.mem_map, Prod.mk.injEq,
    Link.mem_directions_iff]
  constructor
  · rintro ⟨table, -, _, hlower, rfl, rfl⟩
    obtain ⟨link, near, far, ⟨hlink, hjoins, hnear, -⟩, hfar⟩ := hschema.graph.related.mp hlower
    exact ⟨link, hlink, near, far, hjoins, hnear, hfar.symm⟩
  · rintro ⟨link, hlink, near, far, hjoins, rfl, rfl⟩
    obtain ⟨-, -, table, htable, -⟩ := hschema.attached link hlink near far hjoins
    have hname := hschema.name_eq htable
    refine ⟨table, OrderedMap.mem_values_iff.mpr ⟨_, htable⟩, far.lower, ?_, hname, rfl⟩
    rw [hname]
    exact hschema.graph.related.mpr ⟨link, near, far, ⟨hlink, hjoins, rfl, rfl⟩, rfl⟩

/-- The directions of the links are different from one another. -/
theorem nodup_link_directions {document : Document} {schema : Schema}
    (hbuild : Schema.ofDocument document = .ok schema) :
    (schema.graph.links.flatMap Link.directions).Nodup := by
  have hvalid := valid_of_ofDocument hbuild
  rw [links_eq hbuild, List.nodup_flatMap]
  constructor
  · intro link hlink
    obtain ⟨relation, hrelation, rfl⟩ := List.mem_map.mp hlink
    have hapart := Relation.symbol_ne hvalid hrelation
    simp [Link.directions, Relation.link, Side.endpoint, hapart]
  · rw [List.pairwise_map]
    refine hvalid.pairs_apart.imp_of_mem ?_
    intro first second hfirst hsecond hapart direction hleft hright
    -- a direction of both relations has one table on each side, by the small names
    have hbetween : ∀ {relation : Relation}, direction ∈ relation.link.directions →
        ∃ far, relation.Between direction.1 far ∧ Name.lower far = direction.2 := by
      intro relation hdirection
      obtain ⟨near, far, hjoins, hnear, hfar⟩ := Link.mem_directions_iff.mp hdirection
      rcases hjoins with ⟨rfl, rfl⟩ | ⟨rfl, rfl⟩
      · exact ⟨relation.right.symbol, Or.inl ⟨hnear, rfl⟩, hfar⟩
      · exact ⟨relation.left.symbol, Or.inr ⟨rfl, hnear⟩, hfar⟩
    obtain ⟨firstFar, hfirstBetween, hfirstLower⟩ := hbetween hleft
    obtain ⟨secondFar, hsecondBetween, hsecondLower⟩ := hbetween hright
    have hfar : firstFar = secondFar := hvalid.eq_of_lower_eq
      (hvalid.declares_of_between hfirst hfirstBetween).2
      (hvalid.declares_of_between hsecond hsecondBetween).2
      (hfirstLower.trans hsecondLower.symm)
    rw [← hfar] at hsecondBetween
    exact hapart (hfirstBetween.samePair hsecondBetween)

/-- A plan goes through the directions of the links, table by table. -/
theorem perm_directions {document : Document} {schema : Schema}
    (hbuild : Schema.ofDocument document = .ok schema) :
    (Plan.directions schema).Perm (schema.graph.links.flatMap Link.directions) := by
  have hsound := (ofDocument_sound hbuild).1
  rw [List.perm_ext_iff_of_nodup hsound.nodup_directions (nodup_link_directions hbuild)]
  rintro ⟨managing, lower⟩
  rw [hsound.mem_directions_iff, List.mem_flatMap]

theorem length_directions {document : Document} {schema : Schema}
    (hbuild : Schema.ofDocument document = .ok schema) :
    (Plan.directions schema).length = 2 * schema.graph.links.length := by
  rw [(perm_directions hbuild).length_eq, List.length_flatMap]
  simp [Link.directions, Nat.mul_comm]

end Schema

/-- Each direction gives one entry. -/
theorem Plan.map_ofDirections {schema : Schema} {procedures : Procedures}
    {directions : List (String × String)} {entries : List RelationDelete}
    (hall : ofDirections schema procedures directions = .ok entries) :
    (entries.map fun entry ↦ (entry.managing, entry.lower)) = directions := by
  have hdirections : List.Forall₂ (fun direction (entry : RelationDelete) ↦
      direction = (entry.managing, entry.lower)) directions entries := by
    refine (ofDirections_eq_ok_iff.mp hall).1.imp fun direction entry hentry ↦ ?_
    obtain ⟨hmanaging, hlower, -⟩ := ofRelation_eq_ok_iff.mp hentry
    rw [hmanaging, hlower]
  rw [← List.forall₂_map_right_iff, List.forall₂_eq_eq_eq] at hdirections
  exact hdirections.symm

/-- The parts that are filed under a key are those of the items with the key. -/
theorem map_snd_filter_flatMap {Item Part : Type} (items : List Item) (key : Item → String)
    (parts : Item → List Part) (wanted : String) :
    ((items.flatMap fun item ↦ (parts item).map fun part ↦ (key item, part)).filter
      fun filed ↦ filed.1 == wanted).map Prod.snd =
      (items.filter fun item ↦ key item == wanted).flatMap parts := by
  induction items with
  | nil => rfl
  | cons item rest ih =>
    rw [List.flatMap_cons, List.filter_append, List.map_append, ih, List.filter_map, List.map_map]
    by_cases hkey : key item = wanted
    · simp [hkey, Function.comp_def]
    · simp [hkey, Function.comp_def]

/-- The entries of a table are for the tables that it is related to, in their order. -/
theorem Plan.map_lower_relationsOf {schema : Schema} {plan : Plan} (hschema : schema.Declares)
    (hplan : Plan.ofSchema schema = .ok plan) {name : String} {table : Table}
    (htable : schema.table? name = some table) :
    (plan.relationsOf name).map RelationDelete.lower = schema.graph.relatedTo name := by
  obtain ⟨procedures, -, hentries⟩ := ofSchema_eq_ok hplan
  have hfiled := hschema.filed
  have hpairs : (plan.relationsOf name).map RelationDelete.lower =
      ((plan.relationDeletes.map fun entry ↦ (entry.managing, entry.lower)).filter
        fun filed ↦ filed.1 == name).map Prod.snd := by
    rw [List.filter_map, List.map_map]
    rfl
  rw [hpairs, map_ofDirections hentries, directions, map_snd_filter_flatMap,
    filter_key_eq (nodup_names hfiled), find?_values hfiled, htable, Option.toList_some,
    List.flatMap_singleton, hfiled htable]

/-! ### Tables of an entry -/

/-- A column of the primary key that refers to the `id` of a table. -/
def Table.KeyTo (table : Table) (column target : String) : Prop :=
  ∃ key, table.primary.get? column = some key ∧ key.name = column ∧ key.primaryKey = true ∧
    key.foreignKey = some ⟨target, Name.storage target, "id"⟩

/-- The link entity of two tables has a key to each of them. -/
theorem Schema.Declares.keyTo {schema : Schema} (hschema : schema.Declares)
    {name left right side : String} {table : Table} (htable : schema.table? name = some table)
    (hkind : table.kind = .link left right) (hside : side ∈ [left, right]) :
    table.KeyTo (Name.key (Name.lower side)) side := by
  have hvalues := (hschema.link_eq htable hkind).1
  have hkey : Table.keyColumn side ∈ table.primary.values := by
    rw [hvalues, List.mem_pair]
    rcases List.mem_pair.mp hside with rfl | rfl
    · exact Or.inl rfl
    · exact Or.inr rfl
  obtain ⟨column, hcolumn⟩ := OrderedMap.mem_values_iff.mp hkey
  have hname : Name.key (Name.lower side) = column := (hschema.shape htable).primary_name hcolumn
  exact ⟨Table.keyColumn side, hname ▸ hcolumn, rfl, rfl, rfl⟩

/-- An entry agrees with the table that it is filed for and with its link entity. -/
structure RelationDelete.Agrees (schema : Schema) (entry : RelationDelete)
    (managing entity : Table) : Prop where
  get_managing : schema.table? entry.managing = some managing
  get_link : schema.table? entry.link = some entity
  kind : entity.kind = .link entry.managing entry.deleted ∨
    entity.kind = .link entry.deleted entry.managing
  collection : ∃ accessor, managing.accessors.get? entry.collection = some accessor ∧
    accessor.many = true ∧ accessor.target = entry.link ∧
    entity.KeyTo accessor.column entry.managing
  owned_iff : entry.owned.isSome = true ↔ schema.graph.owns entry.managing entry.deleted = true
  owned : ∀ name, entry.owned = some name → ∃ accessor,
    entity.accessors.get? name = some accessor ∧ accessor.many = false ∧
      accessor.target = entry.deleted ∧ entity.KeyTo accessor.column entry.deleted

namespace Plan

/-- The entries of a sound schema agree with its tables. -/
theorem exists_agrees {schema : Schema} {plan : Plan} (hschema : schema.Sound)
    (hplan : Plan.ofSchema schema = .ok plan) {entry : RelationDelete}
    (hentry : entry ∈ plan.relationDeletes) :
    ∃ managing entity, entry.Agrees schema managing entity := by
  have htable := table?_eq hschema.toDeclares hplan
  obtain ⟨link, near, far, hdirects⟩ := exists_directs hschema hplan hentry
  obtain ⟨⟨managing, inverse, hmanaging, -, -, hcollection⟩, entity, hentity, hkind, howned⟩ :=
    resolves_of_directs hschema htable hdirects
  rw [htable] at hmanaging hentity
  have hkey : ∀ side ∈ [entry.managing, entry.deleted],
      entity.KeyTo (Name.key (Name.lower side)) side := by
    intro side hside
    rcases hkind with hkind | hkind
    · exact hschema.keyTo hentity hkind hside
    · exact hschema.keyTo hentity hkind ((List.Perm.swap _ _ _).mem_iff.mp hside)
  refine ⟨managing, entity, hmanaging, hentity, hkind,
    ⟨_, hcollection, rfl, rfl, hkey _ (by simp)⟩, ?_, fun name hname ↦ ?_⟩
  · rw [hdirects.owned_eq]
    rfl
  · obtain ⟨back, hback⟩ := howned name hname
    exact ⟨_, hback, rfl, rfl, hkey _ (by simp)⟩

/-- A sound schema has an entry for two tables exactly if a link joins them. -/
theorem mem_map_pair_iff {schema : Schema} {plan : Plan} (hschema : schema.Sound)
    (hplan : Plan.ofSchema schema = .ok plan) {first second : String} :
    (first, second) ∈ plan.relationDeletes.map (fun entry ↦ (entry.managing, entry.deleted)) ↔
      ∃ link near far, schema.graph.Relates link near far first second := by
  simp only [List.mem_map, Prod.mk.injEq]
  constructor
  · rintro ⟨entry, hentry, rfl, rfl⟩
    obtain ⟨link, near, far, hdirects⟩ := exists_directs hschema hplan hentry
    exact ⟨link, near, far, hdirects.relates⟩
  · rintro ⟨link, near, far, hrelates⟩
    exact exists_entry hschema hplan hrelates

/-- No two entries are for the same two tables. -/
theorem nodup_map_pair {schema : Schema} {plan : Plan} (hschema : schema.Sound)
    (hplan : Plan.ofSchema schema = .ok plan) :
    (plan.relationDeletes.map fun entry ↦ (entry.managing, entry.deleted)).Nodup := by
  obtain ⟨procedures, -, hentries⟩ := ofSchema_eq_ok hplan
  have hnodup := hschema.nodup_directions
  rw [← map_ofDirections hentries, List.Nodup, List.pairwise_map] at hnodup
  rw [List.Nodup, List.pairwise_map]
  refine hnodup.imp_of_mem fun {first second} hfirst hsecond hapart hsame ↦ hapart ?_
  obtain ⟨hmanaging, hdeleted⟩ := Prod.mk.inj hsame
  obtain ⟨_, _, _, hfirst⟩ := exists_directs hschema hplan hfirst
  obtain ⟨_, _, _, hsecond⟩ := exists_directs hschema hplan hsecond
  rw [hmanaging, hfirst.lower_eq, hsecond.lower_eq, hdeleted]

end Plan

namespace Schema

/-- The entries of the plan of a schema that was read: one for each of two tables that a link joins,
in either order, table by table and in the order of the related tables; and each agrees with the
tables that it leads over. -/
theorem entries_agree {source : String} {schema : Schema} {plan : Plan}
    (hread : Schema.read source = .ok schema) (hplan : Plan.ofSchema schema = .ok plan) :
    ((plan.relationDeletes.map fun entry ↦ (entry.managing, entry.deleted)).Nodup ∧
      ∀ first second,
        (first, second) ∈ plan.relationDeletes.map (fun entry ↦ (entry.managing, entry.deleted)) ↔
          ∃ link near far, schema.graph.Relates link near far first second) ∧
    plan.relationDeletes.length = 2 * schema.graph.links.length ∧
    (plan.relationDeletes.map fun entry ↦ (entry.managing, entry.lower)) =
      schema.tables.values.flatMap (fun table ↦
        (schema.graph.relatedTo table.name).map fun lower ↦ (table.name, lower)) ∧
    ∀ entry ∈ plan.relationDeletes,
      schema.graph.resolve? entry.lower = some entry.deleted ∧
        ∃ managing entity, entry.Agrees schema managing entity := by
  obtain ⟨document, -, hbuild⟩ := read_eq_ok_iff.mp hread
  have hsound := (ofDocument_sound hbuild).1
  obtain ⟨procedures, -, hentries⟩ := Plan.ofSchema_eq_ok hplan
  have hmap := Plan.map_ofDirections hentries
  refine ⟨⟨Plan.nodup_map_pair hsound hplan, fun first second ↦
    Plan.mem_map_pair_iff hsound hplan⟩, ?_, hmap, fun entry hentry ↦
      ⟨?_, Plan.exists_agrees hsound hplan hentry⟩⟩
  · rw [← length_directions hbuild, ← hmap, List.length_map]
  · obtain ⟨link, near, far, hdirects⟩ := Plan.exists_directs hsound hplan hentry
    obtain ⟨hlink, hjoins, -, hfar⟩ := hdirects.relates
    obtain ⟨-, -, deleted, hdeleted, hkind, -⟩ :=
      hsound.attached link hlink far near hjoins.symm
    rw [hfar] at hdeleted
    exact hsound.symbol.mpr ⟨hdirects.lower_eq, deleted, hdeleted, hkind⟩

theorem entries_agree_shop : ∃ schema plan, Schema.read shop = .ok schema ∧
    Plan.ofSchema schema = .ok plan ∧ plan.relationDeletes.length = 2 * schema.graph.links.length ∧
      ∀ entry ∈ plan.relationDeletes, ∃ managing entity, entry.Agrees schema managing entity := by
  have hplanned : ((Schema.read shop).toOption.bind fun schema ↦
      (Plan.ofSchema schema).toOption).isSome = true := by decide +kernel
  match hread : Schema.read shop with
  | .ok schema =>
    match hplan : Plan.ofSchema schema with
    | .ok plan =>
      obtain ⟨-, hlength, -, hagree⟩ := entries_agree hread hplan
      exact ⟨schema, plan, rfl, hplan, hlength, fun entry hentry ↦ (hagree entry hentry).2⟩
    | .error stop => simp [hread, hplan, Except.toOption] at hplanned
  | .error cause => simp [hread, Except.toOption] at hplanned

end Schema

end SchemaCompiler
