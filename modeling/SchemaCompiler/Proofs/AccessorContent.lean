import SchemaCompiler.Proofs.AccessorShape
import SchemaCompiler.Proofs.GraphContent

/-!
# The accessors of a table, in their order

A link gives accessors to three tables: its entity and its two sides. `Link.gifts` lists what it
gives to the table of a name, in the order in which the accessors are added. Every table of a schema
has the gifts of all links one after the other, in the order of the relations, and nothing besides
(`Schema.entries_accessors`): no gift replaces an earlier one, because a valid document never gives
one name twice to a table (`Document.Valid.nodup_gifts`).

So the accessors of a schema, with their order, are known from the relations of its document alone.
-/

set_option autoImplicit false
set_option relaxedAutoImplicit false

namespace SchemaCompiler

namespace OrderedMap

variable {Value : Type}

/-- Sets the values of a list of entries in turn. -/
def insertAll (map : OrderedMap Value) (entries : List (String × Value)) : OrderedMap Value :=
  entries.foldl (fun map entry ↦ map.insert entry.1 entry.2) map

theorem insertAll_append (map : OrderedMap Value) (first second : List (String × Value)) :
    map.insertAll (first ++ second) = (map.insertAll first).insertAll second :=
  List.foldl_append

/-- A map that is filled with entries under different keys holds these entries. -/
theorem entries_insertAll_empty {entries : List (String × Value)}
    (hnodup : (entries.map Prod.fst).Nodup) :
    ((empty : OrderedMap Value).insertAll entries).entries = entries := by
  rw [insertAll, entries_foldl_insert hnodup fun _ _ ↦ rfl]
  exact (List.nil_append _).trans (List.map_id' _)

end OrderedMap

namespace Link

/-- The accessor of a link entity to a side, under its name. -/
def back (near far : Endpoint) : String × Accessor :=
  (near.lower, ⟨near.table, false, Name.key near.lower, Name.collection far.lower⟩)

/-- The accessor of a side to its link rows, under its name. -/
def collection (link : Link) (near far : Endpoint) : String × Accessor :=
  (Name.collection far.lower, ⟨link.name, true, Name.key near.lower, near.lower⟩)

/-- The accessors that a link gives to the table of a name, in the order in which they are added. -/
def gifts (link : Link) (name : String) : List (String × Accessor) :=
  (if name = link.name then [back link.left link.right, back link.right link.left] else []) ++
    (if name = link.left.table then [link.collection link.left link.right] else []) ++
    (if name = link.right.table then [link.collection link.right link.left] else [])

theorem attached_eq_insertAll (link : Link) (name : String) (accessors : OrderedMap Accessor) :
    Schema.attached link name accessors = accessors.insertAll (link.gifts name) := by
  simp only [Schema.attached, gifts]
  split_ifs <;> rfl

/-- What a link gives to a table is listed among its gifts. -/
theorem gives_of_mem_gifts {link : Link} {name : String} {entry : String × Accessor}
    (hentry : entry ∈ link.gifts name) : link.Gives name entry.1 entry.2 := by
  have hforth : link.Joins link.left link.right := Or.inl ⟨rfl, rfl⟩
  simp only [gifts, List.mem_append, List.mem_ite_nil_right, List.mem_cons, List.not_mem_nil,
    or_false] at hentry
  rcases hentry with (⟨rfl, rfl | rfl⟩ | ⟨rfl, rfl⟩) | ⟨rfl, rfl⟩
  · exact .back hforth
  · exact .back hforth.symm
  · exact .collection hforth
  · exact .collection hforth.symm

end Link

/-! ### No name is given twice -/

namespace Document.Valid

variable {document : Document}

theorem linkName_ne (hvalid : document.Valid) {relation : Relation}
    (hrelation : relation ∈ document.relations) {name : String}
    (hdeclares : document.Declares name) : relation.linkName ≠ name := by
  obtain ⟨definition, hdefinition, rfl⟩ := hdeclares
  exact fun hsame ↦ (List.nodup_append.mp hvalid.names_nodup).2.2 _ (List.mem_map_of_mem hdefinition)
    _ (List.mem_map_of_mem hrelation) hsame.symm

theorem declares_side (hvalid : document.Valid) {relation : Relation}
    (hrelation : relation ∈ document.relations) {near far : Endpoint}
    (hjoins : relation.link.Joins near far) :
    document.Declares near.table ∧ near.lower = Name.lower near.table := by
  have hsides := hvalid.declares_of_between hrelation (Or.inl ⟨rfl, rfl⟩)
  rcases hjoins with ⟨rfl, -⟩ | ⟨rfl, -⟩
  · exact ⟨hsides.1, rfl⟩
  · exact ⟨hsides.2, rfl⟩

/-- The names that one relation gives to a table differ. -/
theorem nodup_gifts_link (hvalid : document.Valid) {relation : Relation}
    (hrelation : relation ∈ document.relations) (name : String) :
    ((relation.link.gifts name).map Prod.fst).Nodup := by
  have hsides := hvalid.declares_of_between hrelation (Or.inl ⟨rfl, rfl⟩)
  have hleft : relation.left.symbol ≠ relation.linkName :=
    (hvalid.linkName_ne hrelation hsides.1).symm
  have hright : relation.right.symbol ≠ relation.linkName :=
    (hvalid.linkName_ne hrelation hsides.2).symm
  have hapart := Relation.symbol_ne hvalid hrelation
  have hlowers := hvalid.sides_apart relation hrelation
  simp only [Link.gifts, Relation.link, Side.endpoint]
  by_cases hlink : name = relation.linkName
  · simp [hlink, hleft.symm, hright.symm, Link.back, hlowers]
  · by_cases hname : name = relation.left.symbol
    · simp [hname, hleft, hapart]
    · by_cases hother : name = relation.right.symbol
      · simp [hother, hright, hapart.symm]
      · simp [hlink, hname, hother]

/-- Two relations that give one name to one table relate the same pair. -/
theorem samePair_of_gives (hvalid : document.Valid) {first second : Relation}
    (hfirst : first ∈ document.relations) (hsecond : second ∈ document.relations)
    {name key : String} {left right : Accessor} (hleft : first.link.Gives name key left)
    (hright : second.link.Gives name key right) : first.SamePair second := by
  have hnames := (List.nodup_append.mp hvalid.names_nodup).2.1
  generalize hkey : key = other at hright
  cases hleft with
  | back hjoins =>
    generalize hname : first.link.name = table at hright
    cases hright with
    | back _ =>
      rw [List.inj_on_of_nodup_map hnames hfirst hsecond hname]
      exact Or.inl ⟨rfl, rfl⟩
    | collection hother =>
      exact absurd hname (hvalid.linkName_ne hfirst (hvalid.declares_side hsecond hother).1)
  | @collection near far hjoins =>
    obtain ⟨hnear, -⟩ := hvalid.declares_side hfirst hjoins
    obtain ⟨hfar, hfarLower⟩ := hvalid.declares_side hfirst hjoins.symm
    generalize hname : near.table = table at hright
    cases hright with
    | back _ => exact absurd hname.symm (hvalid.linkName_ne hsecond hnear)
    | @collection otherNear otherFar hother =>
      obtain ⟨hdeclares, hlower⟩ := hvalid.declares_side hsecond hother.symm
      -- the names of collections tell the other sides apart
      have hsame : far.table = otherFar.table := hvalid.eq_of_lower_eq hfar hdeclares <| by
        rw [← hfarLower, ← hlower]
        exact Name.collection_injective hkey
      have hbetween : ∀ {relation : Relation} {near far : Endpoint},
          relation.link.Joins near far → relation.Between near.table far.table := by
        rintro relation near far (⟨rfl, rfl⟩ | ⟨rfl, rfl⟩)
        · exact Or.inl ⟨rfl, rfl⟩
        · exact Or.inr ⟨rfl, rfl⟩
      refine (hbetween hjoins).samePair ?_
      rw [hname, hsame]
      exact hbetween hother

/-- No table is given one name twice. -/
theorem nodup_gifts (hvalid : document.Valid) (name : String) :
    ((document.relations.flatMap fun relation ↦ relation.link.gifts name).map Prod.fst).Nodup := by
  rw [List.map_flatMap, List.nodup_flatMap]
  refine ⟨fun relation hrelation ↦ hvalid.nodup_gifts_link hrelation name, ?_⟩
  refine hvalid.pairs_apart.imp_of_mem fun {first second} hfirst hsecond hapart ↦ ?_
  intro key hfirstKey hsecondKey
  obtain ⟨left, hleft, rfl⟩ := List.mem_map.mp hfirstKey
  obtain ⟨right, hright, hkey⟩ := List.mem_map.mp hsecondKey
  have hgives := Link.gives_of_mem_gifts hright
  rw [hkey] at hgives
  exact hapart (hvalid.samePair_of_gives hfirst hsecond (Link.gives_of_mem_gifts hleft) hgives)

end Document.Valid

/-! ### All gifts of all relations -/

namespace Schema

/-- Resolving relations in turn adds their gifts in turn. -/
theorem table?_relateAll {relations : List Relation} : ∀ {schema last : Schema},
    schema.relateAll relations = (last, none) → ∀ name,
      last.table? name = (schema.table? name).map fun table ↦
        { table with
          accessors := table.accessors.insertAll
            (relations.flatMap fun relation ↦ relation.link.gifts name) } := by
  induction relations with
  | nil =>
    intro schema last hall name
    cases hall
    exact Option.map_id'.symm
  | cons relation rest ih =>
    intro schema last hall name
    unfold Schema.relateAll at hall
    split at hall
    next next hnext =>
      obtain ⟨-, -, rfl⟩ := relate_eq_ok_iff.mp hnext
      rw [ih hall, table?_join, Option.map_map, List.flatMap_cons]
      congr 1
      funext table
      rw [Function.comp_apply, OrderedMap.insertAll_append, Link.attached_eq_insertAll]
    next => cases hall

/-- A table has the gifts of all relations, one after the other. -/
theorem entries_accessors {document : Document} {schema : Schema}
    (hbuild : Schema.ofDocument document = .ok schema) {name : String} {table : Table}
    (htable : schema.table? name = some table) :
    table.accessors.entries =
      document.relations.flatMap fun relation ↦ relation.link.gifts name := by
  obtain ⟨declared, hdeclare, hall, -⟩ := ofDocument_eq_ok_iff.mp hbuild
  rw [table?_relateAll hall] at htable
  obtain ⟨bare, hbare, rfl⟩ := Option.map_eq_some_iff.mp htable
  rw [accessors_eq_empty_of_declareAll hdeclare hbare]
  exact OrderedMap.entries_insertAll_empty ((valid_of_ofDocument hbuild).nodup_gifts name)

/-- A link entity has the accessors to its two sides only. -/
theorem entries_accessors_link {document : Document} {schema : Schema}
    (hbuild : Schema.ofDocument document = .ok schema) {relation : Relation}
    (hrelation : relation ∈ document.relations) {table : Table}
    (htable : schema.table? relation.linkName = some table) :
    table.accessors.entries = [Link.back relation.left.endpoint relation.right.endpoint,
      Link.back relation.right.endpoint relation.left.endpoint] := by
  have hvalid := valid_of_ofDocument hbuild
  have hsides : ∀ other ∈ document.relations, relation.linkName ≠ other.left.symbol ∧
      relation.linkName ≠ other.right.symbol := by
    intro other hother
    obtain ⟨hleft, hright⟩ := hvalid.declares_of_between hother (Or.inl ⟨rfl, rfl⟩)
    exact ⟨hvalid.linkName_ne hrelation hleft, hvalid.linkName_ne hrelation hright⟩
  obtain ⟨before, after, hsplit⟩ := List.append_of_mem hrelation
  have hnames := (List.nodup_append.mp hvalid.names_nodup).2.1
  rw [hsplit, List.map_append, List.map_cons, List.nodup_middle, List.nodup_cons,
    ← List.map_append] at hnames
  have hnone : ∀ others : List Relation, (∀ other ∈ others, other ∈ before ++ after) →
      (others.flatMap fun other ↦ other.link.gifts relation.linkName) = [] := by
    intro others hothers
    refine List.flatMap_eq_nil_iff.mpr fun other hother ↦ ?_
    have hname : relation.linkName ≠ other.linkName := fun hsame ↦
      hnames.1 (hsame ▸ List.mem_map_of_mem (hothers other hother))
    have hmember : other ∈ document.relations := by
      rw [hsplit, List.mem_append, List.mem_cons]
      exact (List.mem_append.mp (hothers other hother)).imp_right Or.inr
    obtain ⟨hleft, hright⟩ := hsides other hmember
    simp [Link.gifts, Relation.link, Side.endpoint, hname, hleft, hright]
  obtain ⟨hleft, hright⟩ := hsides relation hrelation
  rw [entries_accessors hbuild htable, hsplit, List.flatMap_append, List.flatMap_cons,
    hnone before fun _ ↦ List.mem_append_left _, hnone after fun _ ↦ List.mem_append_right _]
  simp [Link.gifts, Relation.link, Side.endpoint, hleft, hright]

end Schema

end SchemaCompiler
