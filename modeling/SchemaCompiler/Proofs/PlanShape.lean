import SchemaCompiler.Code.Plan
import SchemaCompiler.Proofs.RowShape
import SchemaCompiler.Proofs.SchemaShape

/-!
# The shape of plans

The plan of a schema has the tables of the schema (`Plan.table?_eq`) and one entry for each
direction of each link (`Plan.exists_directs`, `Plan.exists_entry`). `Plan.Coherent` says, in terms
of the plan alone, what the delete procedures rely on: storage names tell tables apart, since
otherwise two procedures had one name; an entry leads from its managing table over the link entity
to the other side and back; and every link entity is reached from both of its sides. A schema that
was built has a coherent plan (`Plan.coherent`).
-/

set_option autoImplicit false
set_option relaxedAutoImplicit false

namespace SchemaCompiler

namespace RelationDelete

/-- The column of the link rows that refers to the managing side. -/
def nearColumn (entry : RelationDelete) : String := Name.key (Name.lower entry.managing)

/-- The column of the link rows that refers to the other side. -/
def farColumn (entry : RelationDelete) : String := Name.key (Name.lower entry.deleted)

/-- Whether the managing side owns the other one. -/
def Owns (entry : RelationDelete) : Prop := entry.owned.isSome = true

instance (entry : RelationDelete) : Decidable entry.Owns :=
  inferInstanceAs (Decidable (entry.owned.isSome = true))

end RelationDelete

namespace Plan

/-- The table of a symbol. -/
def table? (plan : Plan) (name : String) : Option Table :=
  (plan.tables.get? name).map TablePlan.table

/-! ### Procedures -/

theorem addProcedure_eq_ok_iff {procedures next : Procedures} {procedure : Target.Identifier}
    {origin : String} :
    addProcedure procedures procedure origin = .ok next ↔
      procedures.get? procedure.text = none ∧ next = procedures.insert procedure.text origin := by
  unfold addProcedure
  cases procedures.get? procedure.text with
  | none => simp [@eq_comm _ _ next]
  | some existing => simp

/-- Names that no procedure has and that differ from one another. -/
def Free (procedures : Procedures) (names : List String) : Prop :=
  names.Nodup ∧ ∀ name ∈ names, procedures.get? name = none

theorem free_nil (procedures : Procedures) : Free procedures [] := ⟨List.nodup_nil, by simp⟩

/-- Names are free exactly if the first is, and after it was taken the others are. -/
theorem free_cons_iff {procedures : Procedures} {name : String} {rest : List String}
    (origin : String) :
    Free procedures (name :: rest) ↔
      procedures.get? name = none ∧ Free (procedures.insert name origin) rest := by
  have hinsert : (∀ other ∈ rest, (procedures.insert name origin).get? other = none) ↔
      name ∉ rest ∧ ∀ other ∈ rest, procedures.get? other = none := by
    simp only [OrderedMap.get?_insert_eq_none_iff]
    constructor
    · intro hall
      exact ⟨fun hmember ↦ (hall name hmember).1 rfl, fun other hother ↦ (hall other hother).2⟩
    · rintro ⟨hname, hfree⟩ other hother
      exact ⟨fun hsame ↦ hname (hsame ▸ hother), hfree other hother⟩
  rw [Free, Free, List.nodup_cons, List.forall_mem_cons, hinsert]
  tauto

/-! ### Tables of a plan -/

/-- The facts of a table that is resolved: its procedure is named after its storage name, and no
other procedure has that name. -/
theorem ofTable_eq_ok {procedures next : Procedures} {table : Table} {plan : TablePlan}
    (hplan : ofTable procedures table = .ok (next, plan)) :
    plan.table = table ∧ identifier ("delete_" ++ table.storage) = .ok plan.procedure ∧
      procedures.get? plan.procedure.text = none ∧
      next = procedures.insert plan.procedure.text table.name := by
  unfold ofTable at hplan
  dsimp only at hplan
  split at hplan
  · cases hplan
  obtain ⟨procedure, hprocedure, hrest⟩ := bind_eq_ok_iff.mp hplan
  obtain ⟨added, hadded, hrest⟩ := bind_eq_ok_iff.mp hrest
  obtain ⟨columns, -, hrest⟩ := bind_eq_ok_iff.mp hrest
  obtain ⟨accessors, -, hrest⟩ := bind_eq_ok_iff.mp hrest
  obtain ⟨rowType, -, hpure⟩ := bind_eq_ok_iff.mp hrest
  cases hpure
  obtain ⟨hfree, hnext⟩ := addProcedure_eq_ok_iff.mp hadded
  exact ⟨rfl, hprocedure, hfree, hnext⟩

/-- Each table has the procedure that its storage name gives, and the procedures tell whose they
are. -/
def NamesProcedures (procedures : Procedures) (plans : OrderedMap TablePlan) : Prop :=
  ∀ (name : String) (plan : TablePlan), plans.get? name = some plan →
    identifier ("delete_" ++ plan.table.storage) = .ok plan.procedure ∧
      procedures.get? plan.procedure.text = some name

theorem namesProcedures_insert {procedures next : Procedures} {plans : OrderedMap TablePlan}
    {table : Table} {plan : TablePlan} (hnames : NamesProcedures procedures plans)
    (hplan : ofTable procedures table = .ok (next, plan)) :
    NamesProcedures next (plans.insert table.name plan) := by
  obtain ⟨htable, hidentifier, hfree, rfl⟩ := ofTable_eq_ok hplan
  intro name other hget
  rw [OrderedMap.get?_insert] at hget
  split_ifs at hget with heq
  · cases hget
    rw [htable]
    exact ⟨hidentifier, by rw [OrderedMap.get?_insert, if_pos rfl, heq]⟩
  · obtain ⟨hother, hprocedure⟩ := hnames name other hget
    refine ⟨hother, ?_⟩
    rw [OrderedMap.get?_insert, if_neg, hprocedure]
    intro htext
    rw [htext, hfree] at hprocedure
    cases hprocedure

theorem ofTables_eq_ok {tables : List Table} : ∀ {procedures last : Procedures}
    {plans result : OrderedMap TablePlan}, NamesProcedures procedures plans →
    (tables.map Table.name).Nodup → ofTables procedures plans tables = .ok (last, result) →
      NamesProcedures last result ∧ ∀ name, (result.get? name).map TablePlan.table =
        (tables.find? fun table ↦ table.name == name).or
          ((plans.get? name).map TablePlan.table) := by
  induction tables with
  | nil =>
    intro procedures last plans result hnames _ hall
    cases hall
    exact ⟨hnames, fun name ↦ rfl⟩
  | cons table rest ih =>
    intro procedures last plans result hnames hnodup hall
    obtain ⟨⟨next, plan⟩, hplan, hrest⟩ := bind_eq_ok_iff.mp hall
    rw [List.map_cons, List.nodup_cons] at hnodup
    obtain ⟨hlast, hresult⟩ := ih (namesProcedures_insert hnames hplan) hnodup.2 hrest
    refine ⟨hlast, fun name ↦ ?_⟩
    rw [hresult, OrderedMap.get?_insert, List.find?_cons]
    by_cases hname : name = table.name
    · have hnone : rest.find? (fun other ↦ other.name == name) = none := by
        refine List.find?_eq_none.mpr fun other hother hsame ↦ hnodup.1 ?_
        rw [← hname, ← beq_iff_eq.mp hsame]
        exact List.mem_map_of_mem hother
      rw [hnone, if_pos hname, beq_iff_eq.mpr hname.symm, Option.map_some, (ofTable_eq_ok hplan).1]
      rfl
    · rw [if_neg hname, beq_eq_false_iff_ne.mpr (Ne.symm hname)]

theorem find?_values {schema : Schema} (hfiled : schema.Filed) (name : String) :
    (schema.tables.values.find? fun table ↦ table.name == name) = schema.table? name := by
  cases hfind : schema.tables.values.find? fun table ↦ table.name == name with
  | none =>
    cases hget : schema.table? name with
    | none => rfl
    | some table =>
      have hvalue := OrderedMap.mem_values_iff.mpr ⟨name, hget⟩
      exact absurd (by simpa using hfiled hget) (List.find?_eq_none.mp hfind table hvalue)
  | some table =>
    obtain ⟨key, hget⟩ := OrderedMap.mem_values_iff.mp (List.mem_of_find?_eq_some hfind)
    have hname : table.name = name := by simpa using List.find?_some hfind
    rw [← hname, hfiled hget]
    exact hget.symm

theorem nodup_names {schema : Schema} (hfiled : schema.Filed) :
    (schema.tables.values.map Table.name).Nodup := by
  have hkeys : schema.tables.values.map Table.name = schema.tables.entries.map Prod.fst := by
    rw [OrderedMap.values, List.map_map]
    refine List.map_congr_left fun entry hentry ↦ ?_
    exact hfiled (OrderedMap.get?_eq_some_of_mem hentry)
  rw [hkeys]
  exact schema.tables.nodup

/-- The two parts of a plan. -/
theorem ofSchema_eq_ok {schema : Schema} {plan : Plan} (hplan : Plan.ofSchema schema = .ok plan) :
    ∃ procedures, ofTables .empty .empty schema.tables.values = .ok (procedures, plan.tables) ∧
      ofDirections schema procedures (directions schema) = .ok plan.relationDeletes := by
  obtain ⟨⟨procedures, tables⟩, htables, hrest⟩ := bind_eq_ok_iff.mp hplan
  obtain ⟨entries, hentries, hpure⟩ := bind_eq_ok_iff.mp hrest
  cases hpure
  exact ⟨procedures, htables, hentries⟩

/-- A plan has the tables of its schema. -/
theorem table?_eq {schema : Schema} {plan : Plan} (hschema : schema.Declares)
    (hplan : Plan.ofSchema schema = .ok plan) (name : String) :
    plan.table? name = schema.table? name := by
  obtain ⟨procedures, htables, -⟩ := ofSchema_eq_ok hplan
  have hfind := (ofTables_eq_ok (fun _ _ hget ↦ by cases hget) (nodup_names hschema.filed) htables).2 name
  rw [table?, hfind, find?_values hschema.filed]
  cases schema.table? name <;> rfl

/-- Storage names tell the tables of a plan apart. -/
theorem eq_of_storage_eq {schema : Schema} {plan : Plan} (hschema : schema.Declares)
    (hplan : Plan.ofSchema schema = .ok plan) {first second : String} {left right : Table}
    (hleft : plan.table? first = some left) (hright : plan.table? second = some right)
    (hstorage : left.storage = right.storage) : first = second := by
  obtain ⟨procedures, htables, -⟩ := ofSchema_eq_ok hplan
  have hnames := (ofTables_eq_ok (fun _ _ hget ↦ by cases hget) (nodup_names hschema.filed) htables).1
  obtain ⟨firstPlan, hfirst, rfl⟩ := Option.map_eq_some_iff.mp hleft
  obtain ⟨secondPlan, hsecond, rfl⟩ := Option.map_eq_some_iff.mp hright
  obtain ⟨hfirstText, hfirstOwner⟩ := hnames _ _ hfirst
  obtain ⟨hsecondText, hsecondOwner⟩ := hnames _ _ hsecond
  rw [hstorage, hsecondText] at hfirstText
  rw [← Except.ok.inj hfirstText, hsecondOwner] at hfirstOwner
  exact (Option.some.inj hfirstOwner).symm

/-! ### Directions of a plan -/

theorem require_eq_ok_iff {managing lower name : String} {part : RelationPart}
    {holds : String → Bool} {found : Option String} :
    require managing lower part holds found = .ok name ↔ found = some name ∧ holds name = true := by
  cases found with
  | none => simp [require]
  | some candidate =>
    simp only [require, Option.some.injEq]
    by_cases hholds : holds candidate = true
    · rw [if_pos hholds, Except.ok.injEq]
      exact ⟨fun hsame ↦ ⟨hsame, hsame ▸ hholds⟩, And.left⟩
    · rw [if_neg hholds]
      constructor
      · intro herror
        cases herror
      · rintro ⟨rfl, hname⟩
        exact absurd hname hholds

end Plan

/-- An entry whose every part leads somewhere in the schema. -/
structure RelationDelete.Resolved (schema : Schema) (entry : RelationDelete) : Prop where
  target : ∃ table, schema.resolve? entry.lower = some table ∧ entry.deleted = table.name
  link : schema.graph.linkEntity? entry.managing entry.deleted = some entry.link
  link_table : (schema.table? entry.link).isSome = true
  collection : schema.graph.collection? entry.managing entry.deleted = some entry.collection
  has_collection : Plan.hasAccessor schema entry.managing entry.collection = true
  owned : schema.graph.owned? entry.managing entry.deleted = entry.owned
  has_owned : ∀ accessor, entry.owned = some accessor →
    Plan.hasAccessor schema entry.link accessor = true
  procedure : Plan.identifier ("delete_" ++ entry.lower ++ "_from_" ++ Name.lower entry.managing) =
    .ok entry.procedure

namespace Plan

/-- The owned side has to be there only if there is one. -/
theorem ownedSide_eq_ok_iff {Value : Type} {managing lower : String} {holds : String → Bool}
    {found : Option String} {next : Option String → Except GenerationStop Value} {value : Value} :
    (match found with
      | none => pure none >>= next
      | some accessor =>
        some <$> require managing lower .ownedSide holds (some accessor) >>= next) = .ok value ↔
      (∀ accessor, found = some accessor → holds accessor = true) ∧ next found = .ok value := by
  cases found with
  | none => exact ⟨fun hnext ↦ ⟨fun _ hsome ↦ (by cases hsome), hnext⟩, And.right⟩
  | some accessor =>
    simp only [map_eq_pure_bind, bind_assoc, pure_bind, bind_eq_ok_iff, require_eq_ok_iff,
      Option.some.injEq]
    constructor
    · rintro ⟨_, ⟨rfl, hholds⟩, hnext⟩
      exact ⟨fun other hother ↦ hother ▸ hholds, hnext⟩
    · rintro ⟨hholds, hnext⟩
      exact ⟨accessor, ⟨rfl, hholds accessor rfl⟩, hnext⟩

/-- A direction gives an entry exactly if every part of the entry leads somewhere. -/
theorem ofRelation_eq_ok_iff {schema : Schema} {managing lower : String} {entry : RelationDelete} :
    ofRelation schema managing lower = .ok entry ↔
      entry.managing = managing ∧ entry.lower = lower ∧ entry.Resolved schema := by
  unfold ofRelation
  constructor
  · intro hentry
    split at hentry
    · cases hentry
    next target htarget =>
      obtain ⟨link, hlink, hrest⟩ := bind_eq_ok_iff.mp hentry
      obtain ⟨collection, hcollection, hrest⟩ := bind_eq_ok_iff.mp hrest
      obtain ⟨hhasOwned, hrest⟩ := ownedSide_eq_ok_iff.mp hrest
      obtain ⟨procedure, hprocedure, ⟨⟩⟩ := bind_eq_ok_iff.mp hrest
      obtain ⟨hlink, hlinkTable⟩ := require_eq_ok_iff.mp hlink
      obtain ⟨hcollection, hhasCollection⟩ := require_eq_ok_iff.mp hcollection
      exact ⟨rfl, rfl, ⟨target, htarget, rfl⟩, hlink, hlinkTable, hcollection, hhasCollection,
        rfl, hhasOwned, hprocedure⟩
  · rintro ⟨rfl, rfl, hresolved⟩
    obtain ⟨target, htarget, hdeleted⟩ := hresolved.target
    rw [htarget]
    dsimp only
    rw [← hdeleted, hresolved.owned]
    refine bind_eq_ok_iff.mpr ⟨entry.link,
      require_eq_ok_iff.mpr ⟨hresolved.link, hresolved.link_table⟩, ?_⟩
    refine bind_eq_ok_iff.mpr ⟨entry.collection,
      require_eq_ok_iff.mpr ⟨hresolved.collection, hresolved.has_collection⟩, ?_⟩
    refine ownedSide_eq_ok_iff.mpr ⟨hresolved.has_owned, ?_⟩
    exact bind_eq_ok_iff.mpr ⟨entry.procedure, hresolved.procedure, rfl⟩

/-- Directions can be resolved in turn exactly if each can and their procedures have names of their
own. -/
theorem ofDirections_eq_ok_iff {schema : Schema} {directions : List (String × String)} :
    ∀ {procedures : Procedures} {entries : List RelationDelete},
      ofDirections schema procedures directions = .ok entries ↔
        List.Forall₂ (fun direction entry ↦ ofRelation schema direction.1 direction.2 = .ok entry)
          directions entries ∧
        Free procedures (entries.map fun entry ↦ entry.procedure.text) := by
  induction directions with
  | nil =>
    intro procedures entries
    rw [List.forall₂_nil_left_iff]
    constructor
    · rintro ⟨⟩
      exact ⟨rfl, free_nil procedures⟩
    · rintro ⟨rfl, -⟩
      rfl
  | cons direction rest ih =>
    intro procedures entries
    rw [List.forall₂_cons_left_iff]
    constructor
    · intro hall
      obtain ⟨entry, hentry, hrest⟩ := bind_eq_ok_iff.mp hall
      obtain ⟨next, hnext, hrest⟩ := bind_eq_ok_iff.mp hrest
      obtain ⟨others, hothers, ⟨⟩⟩ := bind_eq_ok_iff.mp hrest
      obtain ⟨hfree, rfl⟩ := addProcedure_eq_ok_iff.mp hnext
      obtain ⟨hresolved, hnames⟩ := ih.mp hothers
      exact ⟨⟨entry, others, hentry, hresolved, rfl⟩, (free_cons_iff _).mpr ⟨hfree, hnames⟩⟩
    · rintro ⟨⟨entry, others, hentry, hresolved, rfl⟩, hnames⟩
      obtain ⟨hfree, hnames⟩ := (free_cons_iff _).mp hnames
      exact bind_eq_ok_iff.mpr ⟨entry, hentry, bind_eq_ok_iff.mpr
        ⟨_, addProcedure_eq_ok_iff.mpr ⟨hfree, rfl⟩, bind_eq_ok_iff.mpr
          ⟨others, ih.mpr ⟨hresolved, hnames⟩, rfl⟩⟩⟩

theorem exists_mem_ofDirections {schema : Schema} {procedures : Procedures}
    {directions : List (String × String)} {entries : List RelationDelete}
    (hall : ofDirections schema procedures directions = .ok entries)
    {direction : String × String} (hdirection : direction ∈ directions) :
    ∃ entry ∈ entries, ofRelation schema direction.1 direction.2 = .ok entry :=
  exists_right_of_forall₂ (ofDirections_eq_ok_iff.mp hall).1 hdirection

theorem mem_ofDirections_iff {schema : Schema} {procedures : Procedures}
    {directions : List (String × String)} {entries : List RelationDelete}
    (hall : ofDirections schema procedures directions = .ok entries) (entry : RelationDelete) :
    entry ∈ entries ↔
      ∃ direction ∈ directions, ofRelation schema direction.1 direction.2 = .ok entry := by
  constructor
  · intro hentry
    exact exists_left_of_forall₂ (ofDirections_eq_ok_iff.mp hall).1 hentry
  · rintro ⟨direction, hdirection, hentry⟩
    obtain ⟨other, hother, hresolved⟩ := exists_mem_ofDirections hall hdirection
    rw [hentry] at hresolved
    exact Except.ok.inj hresolved ▸ hother

/-- An entry is a direction of a link. -/
structure Directs (schema : Schema) (entry : RelationDelete) (link : Link) (near far : Endpoint) :
    Prop where
  relates : schema.graph.Relates link near far entry.managing entry.deleted
  link_eq : entry.link = link.name
  lower_eq : entry.lower = Name.lower entry.deleted
  collection_eq : entry.collection = Name.collection far.lower
  owned_eq : entry.owned = schema.graph.owned? entry.managing entry.deleted
  owned_lower : ∀ accessor, entry.owned = some accessor → accessor = far.lower

/-- In a sound schema, the small name of a side is that of its table. -/
theorem lower_of_relates {schema : Schema} (hschema : schema.Sound) {link : Link}
    {near far : Endpoint} {source target : String}
    (hrelates : schema.graph.Relates link near far source target) :
    near.lower = Name.lower source ∧ far.lower = Name.lower target := by
  obtain ⟨hlink, hjoins, rfl, rfl⟩ := hrelates
  exact ⟨(hschema.attached link hlink near far hjoins).lower_eq,
    (hschema.attached link hlink far near hjoins.symm).lower_eq⟩

theorem exists_directs {schema : Schema} {plan : Plan} (hschema : schema.Sound)
    (hplan : Plan.ofSchema schema = .ok plan) {entry : RelationDelete}
    (hentry : entry ∈ plan.relationDeletes) :
    ∃ link near far, Directs schema entry link near far := by
  obtain ⟨procedures, -, hentries⟩ := ofSchema_eq_ok hplan
  obtain ⟨direction, -, hdirection⟩ := (mem_ofDirections_iff hentries entry).mp hentry
  obtain ⟨-, -, hresolved⟩ := ofRelation_eq_ok_iff.mp hdirection
  obtain ⟨target, htarget, hdeleted⟩ := hresolved.target
  obtain ⟨link, near, far, hrelates, hname⟩ := hschema.graph.entity.mp hresolved.link
  have hfar := (lower_of_relates hschema hrelates).2
  refine ⟨link, near, far, hrelates, hname, ?_, ?_, hresolved.owned.symm, ?_⟩
  · unfold Schema.resolve? at htarget
    split at htarget
    next name hresolve =>
      rw [hdeleted, hschema.name_eq htarget]
      exact (hschema.symbol.mp hresolve).1
    next => cases htarget
  · obtain ⟨other, otherNear, otherFar, hother, heq⟩ :=
      hschema.graph.collection.mp hresolved.collection
    rw [heq, (lower_of_relates hschema hother).2, hfar]
  · intro accessor haccessor
    have howned := hresolved.owned
    rw [haccessor] at howned
    obtain ⟨other, otherNear, otherFar, hother, -, heq⟩ := hschema.graph.owned.mp howned
    rw [heq, (lower_of_relates hschema hother).2, hfar]

/-- The link entity of an entry is that of any link between its sides. -/
theorem link_eq_of_relates {schema : Schema} {plan : Plan} (hschema : schema.Sound)
    (hplan : Plan.ofSchema schema = .ok plan) {entry : RelationDelete}
    (hentry : entry ∈ plan.relationDeletes) {link : Link} {near far : Endpoint}
    (hrelates : schema.graph.Relates link near far entry.managing entry.deleted) :
    entry.link = link.name := by
  obtain ⟨other, otherNear, otherFar, hdirects⟩ := exists_directs hschema hplan hentry
  have hfirst := hschema.graph.entity.mpr ⟨_, _, _, hrelates, rfl⟩
  have hsecond := hschema.graph.entity.mpr ⟨_, _, _, hdirects.relates, rfl⟩
  rw [hdirects.link_eq]
  exact Option.some.inj (hsecond.symm.trans hfirst)

/-- Every direction of a link has an entry. -/
theorem exists_entry {schema : Schema} {plan : Plan} (hschema : schema.Sound)
    (hplan : Plan.ofSchema schema = .ok plan) {link : Link} {near far : Endpoint}
    {source target : String} (hrelates : schema.graph.Relates link near far source target) :
    ∃ entry ∈ plan.relationDeletes, entry.managing = source ∧ entry.deleted = target := by
  obtain ⟨procedures, -, hentries⟩ := ofSchema_eq_ok hplan
  obtain ⟨hlink, hjoins, rfl, rfl⟩ := hrelates
  obtain ⟨-, -, table, hget, -, -, -⟩ := hschema.attached link hlink near far hjoins
  have hdirection : (near.table, far.lower) ∈ directions schema := by
    refine List.mem_flatMap.mpr ⟨table, OrderedMap.mem_values_iff.mpr ⟨_, hget⟩, ?_⟩
    rw [hschema.name_eq hget]
    refine List.mem_map.mpr ⟨far.lower, hschema.graph.related.mpr ?_, rfl⟩
    exact ⟨link, near, far, ⟨hlink, hjoins, rfl, rfl⟩, rfl⟩
  obtain ⟨entry, hentry, hresolved⟩ := exists_mem_ofDirections hentries hdirection
  obtain ⟨hmanaging, hentryLower, -⟩ := ofRelation_eq_ok_iff.mp hresolved
  refine ⟨entry, hentry, hmanaging, ?_⟩
  obtain ⟨other, otherNear, otherFar, hdirects⟩ := exists_directs hschema hplan hentry
  obtain ⟨hother, hotherJoins, -, hotherFar⟩ := hdirects.relates
  -- both far sides are declared tables of one small name
  obtain ⟨hlower, -, farTable, hfarGet, hfarKind, -, -⟩ :=
    hschema.attached link hlink far near hjoins.symm
  obtain ⟨-, -, otherTable, hotherGet, hotherKind, -, -⟩ :=
    hschema.attached other hother otherFar otherNear hotherJoins.symm
  rw [hotherFar] at hotherGet
  refine hschema.eq_of_lower_eq hotherGet hotherKind hfarGet hfarKind ?_
  rw [← hdirects.lower_eq, hentryLower, hlower]

/-! ### Coherent plans -/

/-- An entry leads from the managing table over the link entity to the other table. -/
structure Resolves (plan : Plan) (entry : RelationDelete) : Prop where
  near : ∃ table inverse, plan.table? entry.managing = some table ∧ table.kind = .declared ∧
    table.hasIntegerId = true ∧
    table.accessors.get? entry.collection = some ⟨entry.link, true, entry.nearColumn, inverse⟩
  link : ∃ table, plan.table? entry.link = some table ∧
    (table.kind = .link entry.managing entry.deleted ∨
      table.kind = .link entry.deleted entry.managing) ∧
    ∀ accessor, entry.owned = some accessor → ∃ inverse,
      table.accessors.get? accessor = some ⟨entry.deleted, false, entry.farColumn, inverse⟩

/-- What the delete procedures of a plan rely on. -/
structure Coherent (plan : Plan) : Prop where
  shape : ∀ {name : String} {table : Table}, plan.table? name = some table → table.WellFormed
  name_eq : ∀ {name : String} {table : Table}, plan.table? name = some table → table.name = name
  storage_eq : ∀ {first second : String} {left right : Table}, plan.table? first = some left →
    plan.table? second = some right → left.storage = right.storage → first = second
  link_key : ∀ {name left right : String} {table : Table}, plan.table? name = some table →
    table.kind = .link left right → table.Tracked ∧ Name.lower left ≠ Name.lower right ∧
      table.keyColumns = [Name.key (Name.lower left), Name.key (Name.lower right)]
  resolves : ∀ {entry : RelationDelete}, entry ∈ plan.relationDeletes → plan.Resolves entry
  unique : ∀ {first second : RelationDelete}, first ∈ plan.relationDeletes →
    second ∈ plan.relationDeletes → first.managing = second.managing →
      first.deleted = second.deleted → first = second
  back : ∀ {entry : RelationDelete}, entry ∈ plan.relationDeletes →
    ∃ back ∈ plan.relationDeletes, back.managing = entry.deleted ∧ back.deleted = entry.managing ∧
      back.link = entry.link
  reached : ∀ {name left right : String} {table : Table}, plan.table? name = some table →
    table.kind = .link left right → ∃ entry ∈ plan.relationDeletes,
      entry.managing = left ∧ entry.deleted = right ∧ entry.link = name

theorem resolves_of_directs {schema : Schema} {plan : Plan} (hschema : schema.Sound)
    (htable : ∀ name, plan.table? name = schema.table? name) {entry : RelationDelete} {link : Link}
    {near far : Endpoint} (hdirects : Directs schema entry link near far) :
    plan.Resolves entry := by
  obtain ⟨hlink, hjoins, hnear, hfar⟩ := hdirects.relates
  obtain ⟨hnearLower, hfarLower⟩ := lower_of_relates hschema hdirects.relates
  obtain ⟨-, ⟨entity, hentityGet, hentityKind, -⟩,
    ⟨table, hget, hkind, hid, hcollection⟩⟩ := hschema.attached link hlink near far hjoins
  obtain ⟨-, ⟨twin, htwinGet, -, hback⟩, -⟩ := hschema.attached link hlink far near hjoins.symm
  rw [hentityGet] at htwinGet
  cases htwinGet
  refine ⟨⟨table, near.lower, ?_, hkind, hid, ?_⟩, entity, ?_, ?_, ?_⟩
  · rw [htable, ← hnear, hget]
  · rw [hdirects.collection_eq, hcollection, hdirects.link_eq, hnearLower]
    rfl
  · rw [htable, hdirects.link_eq, hentityGet]
  · rw [hentityKind, ← hnear, ← hfar]
    rcases hjoins with ⟨rfl, rfl⟩ | ⟨rfl, rfl⟩
    · exact Or.inl rfl
    · exact Or.inr rfl
  · intro accessor haccessor
    refine ⟨Name.collection near.lower, ?_⟩
    rw [hdirects.owned_lower accessor haccessor, hback, hfar, hfarLower]
    rfl

/-- There is one entry for a direction. -/
theorem eq_of_direction_eq {schema : Schema} {plan : Plan} (hschema : schema.Sound)
    (hplan : Plan.ofSchema schema = .ok plan) {first second : RelationDelete}
    (hfirst : first ∈ plan.relationDeletes) (hsecond : second ∈ plan.relationDeletes)
    (hmanaging : first.managing = second.managing) (hdeleted : first.deleted = second.deleted) :
    first = second := by
  obtain ⟨procedures, -, hentries⟩ := ofSchema_eq_ok hplan
  have hresolved : ∀ entry ∈ plan.relationDeletes,
      ofRelation schema entry.managing (Name.lower entry.deleted) = .ok entry := by
    intro entry hentry
    obtain ⟨direction, -, hresolved⟩ := (mem_ofDirections_iff hentries entry).mp hentry
    obtain ⟨link, near, far, hdirects⟩ := exists_directs hschema hplan hentry
    obtain ⟨hmanaging, hlower, -⟩ := ofRelation_eq_ok_iff.mp hresolved
    rw [← hdirects.lower_eq, hmanaging, hlower]
    exact hresolved
  have hleft := hresolved first hfirst
  rw [hmanaging, hdeleted, hresolved second hsecond] at hleft
  exact (Except.ok.inj hleft).symm

/-- A schema that was built has a coherent plan. -/
theorem coherent {document : Document} {schema : Schema} {plan : Plan}
    (hbuild : Schema.ofDocument document = .ok schema) (hplan : Plan.ofSchema schema = .ok plan) :
    plan.Coherent := by
  obtain ⟨hschema, hbacked⟩ := Schema.ofDocument_sound hbuild
  have htable := table?_eq hschema.toDeclares hplan
  refine ⟨?_, ?_, eq_of_storage_eq hschema.toDeclares hplan, ?_, ?_,
    eq_of_direction_eq hschema hplan, ?_, ?_⟩
  · intro name table hget
    exact hschema.shape (htable name ▸ hget)
  · intro name table hget
    exact hschema.name_eq (htable name ▸ hget)
  · intro name left right table hget hkind
    rw [htable] at hget
    obtain ⟨hprimary, hlower, -⟩ := hschema.link_eq hget hkind
    have hshape := hschema.shape hget
    have hkeys : table.keyColumns = [Name.key (Name.lower left), Name.key (Name.lower right)] := by
      rw [hshape.keyColumns_eq, hprimary]
      rfl
    refine ⟨fun column hcolumn hkey ↦ ?_, hlower, hkeys⟩
    rcases hshape.mem_columns_iff.mp hcolumn with hget | hget
    · have hmember := OrderedMap.mem_values_iff.mpr ⟨_, hget⟩
      rw [hprimary, List.mem_pair] at hmember
      rcases hmember with rfl | rfl <;> rfl
    · rw [hshape.ordinary_unmarked hget] at hkey
      cases hkey
  · intro entry hentry
    obtain ⟨link, near, far, hdirects⟩ := exists_directs hschema hplan hentry
    exact resolves_of_directs hschema htable hdirects
  · intro entry hentry
    obtain ⟨link, near, far, hdirects⟩ := exists_directs hschema hplan hentry
    obtain ⟨hlink, hjoins, hnear, hfar⟩ := hdirects.relates
    have hreverse : schema.graph.Relates link far near entry.deleted entry.managing :=
      ⟨hlink, hjoins.symm, hfar, hnear⟩
    obtain ⟨back, hback, hmanaging, hdeleted⟩ := exists_entry hschema hplan hreverse
    refine ⟨back, hback, hmanaging, hdeleted, ?_⟩
    rw [← hmanaging, ← hdeleted] at hreverse
    rw [link_eq_of_relates hschema hplan hback hreverse, hdirects.link_eq]
  · intro name left right table hget hkind
    rw [htable] at hget
    obtain ⟨link, hlink, hname, hleft, hright⟩ := hbacked name table left right hget hkind
    have hrelates : schema.graph.Relates link link.left link.right left right :=
      ⟨hlink, Or.inl ⟨rfl, rfl⟩, hleft, hright⟩
    obtain ⟨entry, hentry, rfl, rfl⟩ := exists_entry hschema hplan hrelates
    exact ⟨entry, hentry, rfl, rfl, (link_eq_of_relates hschema hplan hentry hrelates).trans hname⟩

/-! ### Entries of a coherent plan -/

theorem mem_relationsOf_iff {plan : Plan} {name : String} {entry : RelationDelete} :
    entry ∈ plan.relationsOf name ↔ entry ∈ plan.relationDeletes ∧ entry.managing = name := by
  rw [relationsOf, List.mem_filter, beq_iff_eq]

/-- What the link entity of an entry is like: both columns of its key hold integers, one for each
side. -/
structure LinkShape (entry : RelationDelete) (table : Table) : Prop where
  kind : table.kind ≠ .declared
  tracked : table.Tracked
  mem_key : ∀ {column : String}, column ∈ table.keyColumns ↔
    column = entry.nearColumn ∨ column = entry.farColumn

namespace Coherent

variable {plan : Plan} {entry : RelationDelete}

theorem exists_link (hplan : plan.Coherent) (hentry : entry ∈ plan.relationDeletes) :
    ∃ table, plan.table? entry.link = some table ∧ LinkShape entry table := by
  obtain ⟨table, hget, hkind, -⟩ := (hplan.resolves hentry).link
  refine ⟨table, hget, ?_, ?_, ?_⟩
  · rcases hkind with hkind | hkind <;> rw [hkind] <;> exact TableKind.noConfusion
  · rcases hkind with hkind | hkind <;> exact (hplan.link_key hget hkind).1
  · intro column
    rcases hkind with hkind | hkind <;> rw [(hplan.link_key hget hkind).2.2, List.mem_pair]
    · rfl
    · exact or_comm

theorem lower_ne (hplan : plan.Coherent) (hentry : entry ∈ plan.relationDeletes) :
    Name.lower entry.managing ≠ Name.lower entry.deleted := by
  obtain ⟨table, hget, hkind, -⟩ := (hplan.resolves hentry).link
  rcases hkind with hkind | hkind
  · exact (hplan.link_key hget hkind).2.1
  · exact (hplan.link_key hget hkind).2.1.symm

theorem nearColumn_ne_farColumn (hplan : plan.Coherent) (hentry : entry ∈ plan.relationDeletes) :
    entry.nearColumn ≠ entry.farColumn := fun heq ↦
  hplan.lower_ne hentry (Name.key_injective heq)

theorem managing_ne_deleted (hplan : plan.Coherent) (hentry : entry ∈ plan.relationDeletes) :
    entry.managing ≠ entry.deleted := fun heq ↦
  hplan.lower_ne hentry (congrArg Name.lower heq)

/-- The tables that take part in relations are declared and have an integer `id`. -/
theorem exists_managing (hplan : plan.Coherent) (hentry : entry ∈ plan.relationDeletes) :
    ∃ table, plan.table? entry.managing = some table ∧ table.kind = .declared ∧
      table.hasIntegerId = true := by
  obtain ⟨table, -, hget, hkind, hid, -⟩ := (hplan.resolves hentry).near
  exact ⟨table, hget, hkind, hid⟩

theorem exists_deleted (hplan : plan.Coherent) (hentry : entry ∈ plan.relationDeletes) :
    ∃ table, plan.table? entry.deleted = some table ∧ table.kind = .declared ∧
      table.hasIntegerId = true := by
  obtain ⟨back, hback, hmanaging, -⟩ := hplan.back hentry
  rw [← hmanaging]
  exact hplan.exists_managing hback

/-- A table that entries lead to has entries of its own. -/
theorem exists_mem_relationsOf_deleted (hplan : plan.Coherent)
    (hentry : entry ∈ plan.relationDeletes) : ∃ back, back ∈ plan.relationsOf entry.deleted := by
  obtain ⟨back, hback, hmanaging, -⟩ := hplan.back hentry
  exact ⟨back, mem_relationsOf_iff.mpr ⟨hback, hmanaging⟩⟩

theorem declared_deleted (hplan : plan.Coherent) (hentry : entry ∈ plan.relationDeletes)
    (table : Table) (htable : plan.table? entry.deleted = some table) : table.kind = .declared := by
  obtain ⟨other, hget, hkind, -⟩ := hplan.exists_deleted hentry
  rw [htable] at hget
  cases hget
  exact hkind

/-- Link entities are not declared. -/
theorem link_ne_of_declared (hplan : plan.Coherent) (hentry : entry ∈ plan.relationDeletes)
    {name : String} {table : Table} (htable : plan.table? name = some table)
    (hkind : table.kind = .declared) : entry.link ≠ name := by
  rintro rfl
  obtain ⟨other, hget, hshape⟩ := hplan.exists_link hentry
  rw [htable] at hget
  cases hget
  exact hshape.kind hkind

theorem link_ne_managing (hplan : plan.Coherent) {other : RelationDelete}
    (hentry : entry ∈ plan.relationDeletes) (hother : other ∈ plan.relationDeletes) :
    entry.link ≠ other.managing := by
  obtain ⟨table, htable, hkind, -⟩ := hplan.exists_managing hother
  exact hplan.link_ne_of_declared hentry htable hkind

/-- Link entities take part in no relations. -/
theorem relationsOf_eq_nil (hplan : plan.Coherent) {name : String} {table : Table}
    (htable : plan.table? name = some table) (hkind : table.kind ≠ .declared) :
    plan.relationsOf name = [] := by
  rw [List.eq_nil_iff_forall_not_mem]
  intro entry hentry
  obtain ⟨hmember, rfl⟩ := mem_relationsOf_iff.mp hentry
  obtain ⟨other, hget, hdeclared, -⟩ := hplan.exists_managing hmember
  rw [htable] at hget
  cases hget
  exact hkind hdeclared

/-- Two entries over one link entity are one entry or the two directions of a link. -/
theorem eq_or_back_of_link_eq (hplan : plan.Coherent) {other : RelationDelete}
    (hentry : entry ∈ plan.relationDeletes) (hother : other ∈ plan.relationDeletes)
    (hlink : other.link = entry.link) :
    other = entry ∨ (other.managing = entry.deleted ∧ other.deleted = entry.managing) := by
  obtain ⟨table, hget, hkind, -⟩ := (hplan.resolves hentry).link
  obtain ⟨otherTable, hotherGet, hotherKind, -⟩ := (hplan.resolves hother).link
  rw [hlink, hget] at hotherGet
  cases hotherGet
  rcases hkind with hkind | hkind <;> rcases hotherKind with hotherKind | hotherKind <;>
    rw [hkind] at hotherKind <;> obtain ⟨hleft, hright⟩ := TableKind.link.inj hotherKind
  · exact Or.inl (hplan.unique hother hentry hleft.symm hright.symm)
  · exact Or.inr ⟨hright.symm, hleft.symm⟩
  · exact Or.inr ⟨hleft.symm, hright.symm⟩
  · exact Or.inl (hplan.unique hother hentry hright.symm hleft.symm)

/-- What a table with directions is like. -/
theorem of_mem_relationsOf (hplan : plan.Coherent) {name : String} {table : Table}
    (htable : plan.table? name = some table) (hentry : entry ∈ plan.relationsOf name) :
    table.kind = .declared ∧ table.hasIntegerId = true ∧ "id" ∈ table.keyColumns := by
  obtain ⟨hmember, rfl⟩ := mem_relationsOf_iff.mp hentry
  obtain ⟨other, hget, hkind, hid⟩ := hplan.exists_managing hmember
  rw [htable] at hget
  cases hget
  obtain ⟨column, hcolumn, hname, hkey, -⟩ := (hplan.shape htable).exists_id hid
  exact ⟨hkind, hid, Table.mem_keyColumns_iff.mpr ⟨column, hcolumn, hkey, hname⟩⟩

end Coherent

end Plan

end SchemaCompiler
