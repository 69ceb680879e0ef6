import SchemaCompiler.Proofs.GraphShape
import SchemaCompiler.Proofs.TableShape

/-!
# The shape of schemas

A schema that was built from a document hangs together. Its tables are filed under their names, the
declared ones also under their small names, and the link entities have the key columns of their two
sides (`Schema.Declares`). Its graph answers for its links and for nothing else, and over each link
the accessors of the three tables lead to one another (`Schema.Attached`). `Schema.Sound` is all of
this together.

The first pass establishes what concerns the tables, statement by statement (`declares_foldlM`);
the second pass keeps it and adds one link at a time (`Sound.relate`). The last look then tells that
every link entity belongs to a link of the graph (`ofDocument_sound`).
-/

set_option autoImplicit false
set_option relaxedAutoImplicit false

namespace SchemaCompiler

/-! ### Names -/

theorem Name.collection_injective {first second : String}
    (heq : Name.collection first = Name.collection second) : first = second := by
  have hlist := congrArg String.toList heq
  simp only [Name.collection, String.toList_append] at hlist
  exact String.toList_inj.mp (List.append_cancel_left (List.append_cancel_right hlist))

theorem Name.key_injective {first second : String} (heq : Name.key first = Name.key second) :
    first = second := by
  have hlist := congrArg String.toList heq
  simp only [Name.key, String.toList_append] at hlist
  exact String.toList_inj.mp (List.append_cancel_right hlist)

namespace Schema

/-- What the first pass establishes: tables are filed under their names, declared ones also under
their small names, and link entities have the keys of two different sides. -/
structure Declares (schema : Schema) : Prop where
  shape : ∀ {name : String} {table : Table}, schema.table? name = some table → table.WellFormed
  name_eq : ∀ {name : String} {table : Table}, schema.table? name = some table → table.name = name
  link_eq : ∀ {name left right : String} {table : Table}, schema.table? name = some table →
    table.kind = .link left right →
      table.primary.values = [Table.keyColumn left, Table.keyColumn right] ∧
        Name.lower left ≠ Name.lower right ∧ name = Name.link left right
  symbol : ∀ {lower name : String}, schema.graph.resolve? lower = some name ↔
    lower = Name.lower name ∧ ∃ table, schema.table? name = some table ∧ table.kind = .declared

/-- Tables are filed under their names. -/
def Filed (schema : Schema) : Prop :=
  ∀ ⦃name : String⦄ ⦃table : Table⦄, schema.table? name = some table → table.name = name

theorem Filed.mem_values_iff {schema : Schema} (hfiled : schema.Filed) {table : Table} :
    table ∈ schema.tables.values ↔ schema.table? table.name = some table := by
  rw [OrderedMap.mem_values_iff]
  constructor
  · rintro ⟨name, hname⟩
    rw [hfiled hname]
    exact hname
  · intro htable
    exact ⟨table.name, htable⟩

theorem Declares.filed {schema : Schema} (hschema : schema.Declares) : schema.Filed :=
  fun _ _ ↦ hschema.name_eq

/-- Small names tell declared tables apart. -/
theorem Declares.eq_of_lower_eq {schema : Schema} (hschema : schema.Declares)
    {first second : String} {firstTable secondTable : Table}
    (hfirst : schema.table? first = some firstTable) (hfirstKind : firstTable.kind = .declared)
    (hsecond : schema.table? second = some secondTable) (hsecondKind : secondTable.kind = .declared)
    (hlower : Name.lower first = Name.lower second) : first = second := by
  have hleft := hschema.symbol.mpr ⟨rfl, firstTable, hfirst, hfirstKind⟩
  have hright := hschema.symbol.mpr ⟨hlower, secondTable, hsecond, hsecondKind⟩
  exact Option.some.inj (hleft.symm.trans hright)

/-- The link entity of a relation is among the tables. -/
def DeclaresLink (schema : Schema) (relation : Relation) : Prop :=
  ∃ table, schema.table? (Name.link relation.left.symbol relation.right.symbol) = some table ∧
    table.kind = .link relation.left.symbol relation.right.symbol

/-! ### The first pass -/

theorem declares_empty : ({} : Schema).Declares where
  shape := by intro _ _ hget; cases hget
  name_eq := by intro _ _ hget; cases hget
  link_eq := by intro _ _ _ _ hget; cases hget
  symbol := by
    intro lower name
    constructor
    · intro hget
      cases hget
    · rintro ⟨-, table, hget, -⟩
      cases hget

/-- The facts of a successful declaration of a table. -/
theorem declareTable_eq_ok {schema next : Schema} {definition : TableDefinition}
    (hdeclare : schema.declareTable definition = .ok next) :
    ∃ table, Table.ofDefinition definition = .ok table ∧
      schema.table? definition.name = none ∧
      schema.graph.resolve? (Name.lower definition.name) = none ∧
      next = { tables := schema.tables.insert definition.name table
               graph := { schema.graph with symbols :=
                 schema.graph.symbols.insert (Name.lower definition.name) definition.name } } := by
  unfold declareTable at hdeclare
  dsimp only at hdeclare
  split at hdeclare
  · cases hdeclare
  next hcontains =>
    split at hdeclare
    · cases hdeclare
    next hresolve =>
      obtain ⟨table, htable, hnext⟩ := bind_eq_ok_iff.mp hdeclare
      cases hnext
      exact ⟨table, htable, OrderedMap.contains_eq_false_iff.mp (by simpa using hcontains),
        hresolve, rfl⟩

/-- The facts of a successful declaration of a link entity. -/
theorem declareLink_eq_ok {schema next : Schema} {relation : Relation}
    (hdeclare : schema.declareLink relation = .ok next) :
    ∃ table, Table.ofRelation relation = .ok table ∧
      Name.lower relation.left.symbol ≠ Name.lower relation.right.symbol ∧
      schema.table? (Name.link relation.left.symbol relation.right.symbol) = none ∧
      next = { schema with
        tables := schema.tables.insert (Name.link relation.left.symbol relation.right.symbol)
          table } := by
  unfold declareLink at hdeclare
  dsimp only at hdeclare
  split at hdeclare
  · cases hdeclare
  next hself =>
    split at hdeclare
    · cases hdeclare
    next hcontains =>
      obtain ⟨table, htable, hnext⟩ := bind_eq_ok_iff.mp hdeclare
      cases hnext
      exact ⟨table, htable, hself, OrderedMap.contains_eq_false_iff.mp (by simpa using hcontains),
        rfl⟩

theorem table?_insert (schema : Schema) (graph : RelationGraph) (name other : String)
    (table : Table) :
    ({ tables := schema.tables.insert name table, graph := graph } : Schema).table? other =
      if other = name then some table else schema.table? other :=
  OrderedMap.get?_insert schema.tables name other table

theorem Declares.declareTable {schema next : Schema} {definition : TableDefinition}
    (hschema : schema.Declares) (hdeclare : schema.declareTable definition = .ok next) :
    next.Declares := by
  obtain ⟨table, htable, hfree, hlower, rfl⟩ := declareTable_eq_ok hdeclare
  obtain ⟨hshape, hname, hkind, -⟩ := Table.ofDefinition_shape htable
  refine ⟨?_, ?_, ?_, ?_⟩
  · intro name other hget
    rw [table?_insert] at hget
    split_ifs at hget with heq
    · cases hget
      exact hshape
    · exact hschema.shape hget
  · intro name other hget
    rw [table?_insert] at hget
    split_ifs at hget with heq
    · cases hget
      exact hname.trans heq.symm
    · exact hschema.name_eq hget
  · intro name left right other hget hlink
    rw [table?_insert] at hget
    split_ifs at hget with heq
    · cases hget
      rw [hkind] at hlink
      cases hlink
    · exact hschema.link_eq hget hlink
  · intro lower name
    simp only [RelationGraph.resolve?, OrderedMap.get?_insert, table?_insert]
    -- the new small name was free, so no declared table had it
    by_cases hlow : lower = Name.lower definition.name
    · subst hlow
      simp only [↓reduceIte, Option.some.injEq]
      constructor
      · rintro rfl
        exact ⟨rfl, table, if_pos rfl, hkind⟩
      · rintro ⟨hsame, other, hget, hdeclared⟩
        split_ifs at hget with heq
        · exact heq.symm
        · have hresolve := hschema.symbol.mpr ⟨hsame, other, hget, hdeclared⟩
          rw [hlower] at hresolve
          cases hresolve
    · rw [if_neg hlow]
      have hold : schema.graph.symbols.get? lower = some name ↔ _ := hschema.symbol
      rw [hold]
      refine and_congr_right fun hsame ↦ ?_
      have hother : name ≠ definition.name := by
        rintro rfl
        exact hlow hsame
      rw [if_neg hother]

theorem Declares.declareLink {schema next : Schema} {relation : Relation}
    (hschema : schema.Declares) (hdeclare : schema.declareLink relation = .ok next) :
    next.Declares ∧ next.DeclaresLink relation := by
  obtain ⟨table, htable, hapart, hfree, rfl⟩ := declareLink_eq_ok hdeclare
  obtain ⟨hshape, hname, hkind, -, hprimary⟩ := Table.ofRelation_shape htable
  refine ⟨⟨?_, ?_, ?_, ?_⟩, table, by rw [table?_insert, if_pos rfl], hkind⟩
  · intro name other hget
    rw [table?_insert] at hget
    split_ifs at hget with heq
    · cases hget
      exact hshape
    · exact hschema.shape hget
  · intro name other hget
    rw [table?_insert] at hget
    split_ifs at hget with heq
    · cases hget
      exact hname.trans heq.symm
    · exact hschema.name_eq hget
  · intro name left right other hget hlink
    rw [table?_insert] at hget
    split_ifs at hget with heq
    · cases hget
      rw [hkind] at hlink
      cases hlink
      exact ⟨hprimary, hapart, heq⟩
    · exact hschema.link_eq hget hlink
  · intro lower name
    rw [hschema.symbol]
    refine and_congr_right fun hsame ↦ ?_
    simp only [table?_insert]
    split_ifs with heq
    · subst heq
      constructor
      · rintro ⟨other, hget, -⟩
        rw [hfree] at hget
        cases hget
      · rintro ⟨other, hget, hdeclared⟩
        cases hget
        rw [hkind] at hdeclared
        cases hdeclared
    · rfl

/-- A declaration keeps the tables that are there. -/
theorem table?_declare {schema next : Schema} {statement : Statement}
    (hdeclare : schema.declare statement = .ok next) {name : String} {table : Table}
    (hget : schema.table? name = some table) : next.table? name = some table := by
  cases statement with
  | table definition =>
    obtain ⟨added, -, hfree, -, rfl⟩ := declareTable_eq_ok hdeclare
    rw [table?_insert, if_neg, hget]
    rintro rfl
    rw [hfree] at hget
    cases hget
  | relation relation =>
    obtain ⟨added, -, -, hfree, rfl⟩ := declareLink_eq_ok hdeclare
    rw [table?_insert, if_neg, hget]
    rintro rfl
    rw [hfree] at hget
    cases hget

/-- The first pass: all tables are declared, link entities among them, and there is no link. -/
theorem declares_foldlM {statements : List Statement} : ∀ {first last : Schema},
    first.Declares → first.graph.Describes ∧ first.graph.links = [] →
    statements.foldlM declare first = .ok last →
      last.Declares ∧ (last.graph.Describes ∧ last.graph.links = []) ∧
        (∀ name table, first.table? name = some table → last.table? name = some table) ∧
        ∀ relation, .relation relation ∈ statements → last.DeclaresLink relation := by
  induction statements with
  | nil =>
    intro first last hfirst hgraph hfold
    cases hfold
    exact ⟨hfirst, hgraph, fun _ _ hget ↦ hget, fun _ hmember ↦ absurd hmember List.not_mem_nil⟩
  | cons statement rest ih =>
    intro first last hfirst hgraph hfold
    rw [List.foldlM_cons] at hfold
    obtain ⟨next, hnext, hrest⟩ := bind_eq_ok_iff.mp hfold
    have hstep : next.Declares ∧ (next.graph.Describes ∧ next.graph.links = []) ∧
        ∀ relation, statement = .relation relation → next.DeclaresLink relation := by
      cases statement with
      | table definition =>
        refine ⟨hfirst.declareTable hnext, ?_, fun _ hrelation ↦ by cases hrelation⟩
        obtain ⟨table, -, -, -, rfl⟩ := declareTable_eq_ok hnext
        exact ⟨hgraph.1.congr_symbols _, hgraph.2⟩
      | relation relation =>
        obtain ⟨hdeclares, hlink⟩ := hfirst.declareLink hnext
        refine ⟨hdeclares, ?_, fun _ hrelation ↦ by cases hrelation; exact hlink⟩
        obtain ⟨table, -, -, -, rfl⟩ := declareLink_eq_ok hnext
        exact hgraph
    obtain ⟨hdeclares, hempty, hkept, hlinks⟩ := ih hstep.1 hstep.2.1 hrest
    refine ⟨hdeclares, hempty, fun name table hget ↦ hkept name table (table?_declare hnext hget),
      ?_⟩
    intro relation hmember
    rcases List.mem_cons.mp hmember with hhead | hmember
    · obtain ⟨table, hget, hkind⟩ := hstep.2.2 relation hhead.symm
      exact ⟨table, hkept _ table hget, hkind⟩
    · exact hlinks relation hmember

/-! ### Accessors of a link -/

/-- The accessors of a table of a name after those of a link were added. -/
def attached (link : Link) (name : String) (accessors : OrderedMap Accessor) :
    OrderedMap Accessor :=
  let back := fun (near far : Endpoint) (map : OrderedMap Accessor) ↦
    if name = link.name then
      map.insert near.lower ⟨near.table, false, Name.key near.lower, Name.collection far.lower⟩
    else map
  let collection := fun (near far : Endpoint) (map : OrderedMap Accessor) ↦
    if name = near.table then
      map.insert (Name.collection far.lower) ⟨link.name, true, Name.key near.lower, near.lower⟩
    else map
  collection link.right link.left (collection link.left link.right
    (back link.right link.left (back link.left link.right accessors)))

theorem table?_attachAccessors (schema : Schema) (link : Link) (name : String) :
    (schema.attachAccessors link).table? name = (schema.table? name).map fun table ↦
      { table with accessors := attached link name table.accessors } := by
  unfold attachAccessors attachCollection attachBack Schema.table?
  simp only [OrderedMap.get?_modify, Option.map_map]
  congr 1
  funext table
  simp only [Function.comp_apply, attached, Table.addAccessor]
  split_ifs <;> rfl

theorem table?_attachAccessors_of_some {schema : Schema} {name : String} {table : Table}
    (link : Link) (hget : schema.table? name = some table) :
    (schema.attachAccessors link).table? name =
      some { table with accessors := attached link name table.accessors } := by
  rw [table?_attachAccessors, hget, Option.map_some]

theorem get?_attached_of_ne {link : Link} {name key : String} {accessors : OrderedMap Accessor}
    (hname : name ≠ link.name)
    (hkey : ∀ near far, link.Joins near far → name = near.table → key ≠ Name.collection far.lower) :
    (attached link name accessors).get? key = accessors.get? key := by
  have hleft := hkey link.left link.right (Or.inl ⟨rfl, rfl⟩)
  have hright := hkey link.right link.left (Or.inr ⟨rfl, rfl⟩)
  simp only [attached, if_neg hname]
  split_ifs with hfirst hsecond hsecond
  · rw [OrderedMap.get?_insert, if_neg (hright hfirst), OrderedMap.get?_insert,
      if_neg (hleft hsecond)]
  · rw [OrderedMap.get?_insert, if_neg (hright hfirst)]
  · rw [OrderedMap.get?_insert, if_neg (hleft hsecond)]
  · rfl

theorem get?_attached_back {link : Link} {near far : Endpoint} {accessors : OrderedMap Accessor}
    (hjoins : link.Joins near far) (hlower : near.lower ≠ far.lower)
    (hnear : link.name ≠ near.table) (hfar : link.name ≠ far.table) :
    (attached link link.name accessors).get? near.lower =
      some ⟨near.table, false, Name.key near.lower, Name.collection far.lower⟩ := by
  rcases hjoins with ⟨rfl, rfl⟩ | ⟨rfl, rfl⟩
  · simp only [attached, if_neg hnear, if_neg hfar, if_true, OrderedMap.get?_insert, if_neg hlower]
  · simp only [attached, if_neg hnear, if_neg hfar, if_true, OrderedMap.get?_insert]

theorem get?_attached_collection {link : Link} {near far : Endpoint}
    {accessors : OrderedMap Accessor} (hjoins : link.Joins near far)
    (htable : near.table ≠ far.table) (hname : near.table ≠ link.name) :
    (attached link near.table accessors).get? (Name.collection far.lower) =
      some ⟨link.name, true, Name.key near.lower, near.lower⟩ := by
  rcases hjoins with ⟨rfl, rfl⟩ | ⟨rfl, rfl⟩
  · simp only [attached, if_neg hname, if_neg htable, if_true, OrderedMap.get?_insert]
  · simp only [attached, if_neg hname, if_neg htable, if_true, OrderedMap.get?_insert]

/-- Over a direction of a link, the accessors of the three tables lead to one another. -/
structure Attached (schema : Schema) (link : Link) (near far : Endpoint) : Prop where
  lower_eq : near.lower = Name.lower near.table
  entity : ∃ table, schema.table? link.name = some table ∧
    table.kind = .link link.left.table link.right.table ∧
    table.accessors.get? near.lower =
      some ⟨near.table, false, Name.key near.lower, Name.collection far.lower⟩
  side : ∃ table, schema.table? near.table = some table ∧ table.kind = .declared ∧
    table.hasIntegerId = true ∧
    table.accessors.get? (Name.collection far.lower) =
      some ⟨link.name, true, Name.key near.lower, near.lower⟩

/-- What holds of a schema at every moment of the second pass. -/
structure Sound (schema : Schema) : Prop extends schema.Declares where
  graph : schema.graph.Describes
  attached : ∀ link ∈ schema.graph.links, ∀ near far, link.Joins near far →
    schema.Attached link near far

/-! ### The second pass -/

theorem endpoint_eq_ok {schema : Schema} {relation : Relation} {side : Side} {found : Endpoint}
    (hfound : schema.endpoint relation side = .ok found) :
    found.table = side.symbol ∧ found.lower = Name.lower side.symbol ∧
      ∃ table, schema.table? side.symbol = some table ∧ table.kind = .declared ∧
        table.hasIntegerId = true := by
  unfold endpoint at hfound
  split at hfound
  next table hget =>
    split_ifs at hfound with hlink hid
    cases hfound
    refine ⟨rfl, rfl, table, hget, ?_, hid⟩
    cases hkind : table.kind with
    | declared => rfl
    | link left right => simp [Table.isLink, hkind] at hlink
  next => cases hfound

/-- The facts of a relation that is resolved. -/
theorem relate_eq_ok {schema next : Schema} {relation : Relation}
    (hrelate : schema.relate relation = .ok next) :
    ∃ link : Link, schema.endpoint relation relation.left = .ok link.left ∧
      schema.endpoint relation relation.right = .ok link.right ∧
      link.name = Name.link link.left.table link.right.table ∧
      schema.graph.linkEntity? link.left.table link.right.table = none ∧
      next = { schema.attachAccessors link with graph := schema.graph.insert link } := by
  obtain ⟨left, hleft, hrest⟩ := bind_eq_ok_iff.mp hrelate
  obtain ⟨right, hright, hrest⟩ := bind_eq_ok_iff.mp hrest
  split at hrest
  · cases hrest
  next hnone =>
    cases hrest
    exact ⟨⟨_, left, right⟩, hleft, hright, rfl, hnone, rfl⟩

/-- Accessors do not matter to what the first pass establishes. -/
theorem Declares.attachAccessors {schema : Schema} (hschema : schema.Declares) (link : Link)
    (graph : RelationGraph) (hsymbols : graph.symbols = schema.graph.symbols) :
    ({ schema.attachAccessors link with graph := graph } : Schema).Declares := by
  have htable : ∀ name, ({ schema.attachAccessors link with graph := graph } : Schema).table? name =
      (schema.table? name).map fun table ↦
        { table with accessors := Schema.attached link name table.accessors } :=
    table?_attachAccessors schema link
  refine ⟨?_, ?_, ?_, ?_⟩
  · intro name table hget
    rw [htable] at hget
    obtain ⟨before, hbefore, rfl⟩ := Option.map_eq_some_iff.mp hget
    have hshape := hschema.shape hbefore
    exact ⟨hshape.primary_name, hshape.primary_marked, hshape.primary_present,
      hshape.ordinary_name, hshape.ordinary_unmarked, hshape.apart⟩
  · intro name table hget
    rw [htable] at hget
    obtain ⟨before, hbefore, rfl⟩ := Option.map_eq_some_iff.mp hget
    have hname := hschema.name_eq hbefore
    exact hname
  · intro name left right table hget hkind
    rw [htable] at hget
    obtain ⟨before, hbefore, rfl⟩ := Option.map_eq_some_iff.mp hget
    have hlink := hschema.link_eq hbefore hkind
    exact hlink
  · intro lower name
    have hold : schema.graph.symbols.get? lower = some name ↔ _ := hschema.symbol
    rw [RelationGraph.resolve?, hsymbols, hold]
    simp only [htable]
    refine and_congr_right fun _ ↦ ?_
    constructor
    · rintro ⟨table, hget, hkind⟩
      refine ⟨_, Option.map_eq_some_iff.mpr ⟨table, hget, rfl⟩, hkind⟩
    · rintro ⟨table, hget, hkind⟩
      obtain ⟨before, hbefore, rfl⟩ := Option.map_eq_some_iff.mp hget
      exact ⟨before, hbefore, hkind⟩

theorem declaresLink_attachAccessors {schema : Schema} {relation : Relation} (link : Link)
    (graph : RelationGraph) (hlink : schema.DeclaresLink relation) :
    ({ schema.attachAccessors link with graph := graph } : Schema).DeclaresLink relation := by
  obtain ⟨table, hget, hkind⟩ := hlink
  exact ⟨_, table?_attachAccessors_of_some link hget, hkind⟩

/-- Resolving a relation keeps the schema sound. -/
theorem Sound.relate {schema next : Schema} {relation : Relation} (hschema : schema.Sound)
    (hdeclared : schema.DeclaresLink relation) (hrelate : schema.relate relation = .ok next) :
    next.Sound := by
  obtain ⟨added, hleft, hright, hname, hnone, rfl⟩ := relate_eq_ok hrelate
  obtain ⟨hleftName, hleftLower, leftTable, hleftGet, hleftKind, hleftId⟩ := endpoint_eq_ok hleft
  obtain ⟨hrightName, hrightLower, rightTable, hrightGet, hrightKind, hrightId⟩ :=
    endpoint_eq_ok hright
  obtain ⟨entity, hentity, hentityKind⟩ := hdeclared
  rw [← hleftName, ← hrightName] at hentity hentityKind
  rw [← hname] at hentity
  rw [← hleftName] at hleftGet hleftLower
  rw [← hrightName] at hrightGet hrightLower
  have hlowers : added.left.lower ≠ added.right.lower := by
    rw [hleftLower, hrightLower]
    exact (hschema.link_eq hentity hentityKind).2.1
  have htables : added.left.table ≠ added.right.table := by
    intro hsame
    rw [hleftLower, hrightLower, hsame] at hlowers
    exact hlowers rfl
  -- the two sides of a link are declared tables, in both directions
  have hsides : ∀ near far, added.Joins near far → near.lower = Name.lower near.table ∧
      near.lower ≠ far.lower ∧ near.table ≠ far.table ∧ ∃ table,
        schema.table? near.table = some table ∧ table.kind = .declared ∧
          table.hasIntegerId = true := by
    rintro near far (⟨rfl, rfl⟩ | ⟨rfl, rfl⟩)
    · exact ⟨hleftLower, hlowers, htables, leftTable, hleftGet, hleftKind, hleftId⟩
    · exact ⟨hrightLower, hlowers.symm, htables.symm, rightTable, hrightGet, hrightKind, hrightId⟩
  have hapart : ∀ near far, added.Joins near far → added.name ≠ near.table := by
    intro near far hjoins hsame
    obtain ⟨-, -, -, table, hget, hkind, -⟩ := hsides near far hjoins
    rw [← hsame, hentity] at hget
    cases hget
    rw [hentityKind] at hkind
    cases hkind
  refine ⟨hschema.toDeclares.attachAccessors added _ (RelationGraph.symbols_insert _ _),
    hschema.graph.insert htables hnone, ?_⟩
  intro link hlink near far hjoins
  rw [RelationGraph.links_insert, List.mem_append, List.mem_singleton] at hlink
  rcases hlink with hlink | rfl
  · obtain ⟨hlower, ⟨linkTable, hlinkGet, hlinkKind, hback⟩,
      ⟨sideTable, hsideGet, hsideKind, hsideId, hcollection⟩⟩ :=
      hschema.attached link hlink near far hjoins
    obtain ⟨hfarLower, -, ⟨farTable, hfarGet, hfarKind, -, -⟩⟩ :=
      hschema.attached link hlink far near hjoins.symm
    -- a link with the sides of the new one would have been found
    have hfresh : ∀ first second, added.Joins first second →
        ¬ (near.table = first.table ∧ far.table = second.table) := by
      rintro first second hadded ⟨hfirst, hsecond⟩
      rcases hadded with ⟨rfl, rfl⟩ | ⟨rfl, rfl⟩
      · exact (hschema.graph.not_relates hnone link near far).1 ⟨hlink, hjoins, hfirst, hsecond⟩
      · exact (hschema.graph.not_relates hnone link near far).2 ⟨hlink, hjoins, hfirst, hsecond⟩
    have hlinkName : link.name ≠ added.name := by
      intro hsame
      rw [hsame, hentity] at hlinkGet
      cases hlinkGet
      rw [hentityKind] at hlinkKind
      obtain ⟨hleftSame, hrightSame⟩ := TableKind.link.inj hlinkKind
      rcases hjoins with ⟨rfl, rfl⟩ | ⟨rfl, rfl⟩
      · exact hfresh _ _ (Or.inl ⟨rfl, rfl⟩) ⟨hleftSame.symm, hrightSame.symm⟩
      · exact hfresh _ _ (Or.inr ⟨rfl, rfl⟩) ⟨hrightSame.symm, hleftSame.symm⟩
    refine ⟨hlower, ⟨_, table?_attachAccessors_of_some added hlinkGet, hlinkKind, ?_⟩,
      ⟨_, table?_attachAccessors_of_some added hsideGet, hsideKind, hsideId, ?_⟩⟩
    · refine (get?_attached_of_ne hlinkName fun first second hadded hsame ↦ ?_).trans hback
      obtain ⟨-, -, -, table, hget, hkind, -⟩ := hsides first second hadded
      rw [← hsame, hlinkGet] at hget
      cases hget
      rw [hlinkKind] at hkind
      cases hkind
    · refine (get?_attached_of_ne ?_ fun first second hadded hsame hkey ↦ ?_).trans hcollection
      · intro hsame
        rw [hsame, hentity] at hsideGet
        cases hsideGet
        rw [hentityKind] at hsideKind
        cases hsideKind
      · obtain ⟨hsecondLower, -, -, table, hget, hkind, -⟩ := hsides second first hadded.symm
        refine hfresh first second hadded
          ⟨hsame, hschema.eq_of_lower_eq hfarGet hfarKind hget hkind ?_⟩
        rw [← hfarLower, ← hsecondLower]
        exact Name.collection_injective hkey
  · obtain ⟨hlower, hlowerNe, htableNe, table, hget, hkind, hid⟩ := hsides near far hjoins
    exact ⟨hlower, ⟨_, table?_attachAccessors_of_some link hentity, hentityKind,
        get?_attached_back hjoins hlowerNe (hapart near far hjoins) (hapart far near hjoins.symm)⟩,
      ⟨_, table?_attachAccessors_of_some link hget, hkind, hid,
        get?_attached_collection hjoins htableNe (hapart near far hjoins).symm⟩⟩

theorem Sound.relateAll {relations : List Relation} : ∀ {schema last : Schema}, schema.Sound →
    (∀ relation ∈ relations, schema.DeclaresLink relation) →
    schema.relateAll relations = (last, none) → last.Sound := by
  induction relations with
  | nil =>
    intro schema last hschema _ hall
    cases hall
    exact hschema
  | cons relation rest ih =>
    intro schema last hschema hdeclared hall
    unfold Schema.relateAll at hall
    split at hall
    next next hnext =>
      refine ih (hschema.relate (hdeclared relation List.mem_cons_self) hnext) ?_ hall
      intro other hother
      obtain ⟨link, -, -, -, -, rfl⟩ := relate_eq_ok hnext
      exact declaresLink_attachAccessors link _ (hdeclared other (List.mem_cons_of_mem _ hother))
    next => cases hall

/-! ### The whole -/

theorem firstFault_eq_ok {schema : Schema} {find : Table → Option SchemaFault}
    (hcheck : schema.firstFault find = .ok ()) {table : Table}
    (htable : table ∈ schema.tables.values) : find table = none := by
  unfold firstFault at hcheck
  split at hcheck
  · cases hcheck
  next hnone => exact List.findSome?_eq_none_iff.mp hnone table htable

/-- A schema whose relations were all resolved is sound. -/
theorem sound_of_relateAll {document : Document} {declared last : Schema}
    (hdeclare : declareAll document = .ok declared)
    (hall : declared.relateAll document.relations = (last, none)) : last.Sound := by
  obtain ⟨hdeclares, ⟨hgraph, hnolinks⟩, -, hlinks⟩ :=
    declares_foldlM declares_empty ⟨RelationGraph.describes_empty _, rfl⟩ hdeclare
  refine Sound.relateAll ⟨hdeclares, hgraph, ?_⟩ ?_ hall
  · rw [hnolinks]
    intro link hlink
    exact absurd hlink List.not_mem_nil
  · intro relation hrelation
    obtain ⟨statement, hstatement, hsome⟩ := List.mem_filterMap.mp hrelation
    cases statement with
    | table definition => cases hsome
    | relation other =>
      cases hsome
      exact hlinks _ hstatement

/-- A schema is built by the two passes over the document and the last look at what they leave. -/
theorem ofDocument_eq_ok_iff {document : Document} {schema : Schema} :
    Schema.ofDocument document = .ok schema ↔
      ∃ declared, declareAll document = .ok declared ∧
        declared.relateAll document.relations = (schema, none) ∧ schema.check = .ok () := by
  refine bind_eq_ok_iff.trans (exists_congr fun declared ↦ and_congr_right fun _ ↦ ?_)
  constructor
  · intro hrest
    split at hrest
    next built hall =>
      obtain ⟨⟨⟩, hcheck, hpure⟩ := bind_eq_ok_iff.mp hrest
      cases hpure
      exact ⟨hall, hcheck⟩
    next => cases hrest
  · rintro ⟨hall, hcheck⟩
    simp only [hall, hcheck]
    rfl

/-- A schema that was built is sound, and each of its link entities belongs to a link. -/
theorem ofDocument_sound {document : Document} {schema : Schema}
    (hbuild : Schema.ofDocument document = .ok schema) :
    schema.Sound ∧ ∀ name table left right, schema.table? name = some table →
      table.kind = .link left right → ∃ link ∈ schema.graph.links, link.name = name ∧
        link.left.table = left ∧ link.right.table = right := by
  obtain ⟨declared, hdeclare, hall, hcheck⟩ := ofDocument_eq_ok_iff.mp hbuild
  have hsound := sound_of_relateAll hdeclare hall
  refine ⟨hsound, fun name table left right hget hkind ↦ ?_⟩
  obtain ⟨⟨⟩, hbacked, -⟩ := bind_eq_ok_iff.mp hcheck
  have hfind := firstFault_eq_ok hbacked (OrderedMap.mem_values_iff.mpr ⟨name, hget⟩)
  simp only [unbackedLink?, hkind] at hfind
  split_ifs at hfind with hentity
  obtain ⟨link, near, far, ⟨hlink, hjoins, -, -⟩, hname⟩ := hsound.graph.entity.mp hentity
  rw [hsound.name_eq hget] at hname
  obtain ⟨-, ⟨linkTable, hlinkGet, hlinkKind, -⟩, -⟩ := hsound.attached link hlink near far hjoins
  rw [← hname, hget] at hlinkGet
  cases hlinkGet
  rw [hkind] at hlinkKind
  obtain ⟨hleft, hright⟩ := TableKind.link.inj hlinkKind
  exact ⟨link, hlink, hname.symm, hleft.symm, hright.symm⟩

end Schema

end SchemaCompiler
