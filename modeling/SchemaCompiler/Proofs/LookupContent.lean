import SchemaCompiler.Proofs.OutputContent
import SchemaCompiler.Proofs.PlanEntries

/-!
# What the lookup tables answer

The written code carries constant tables that are searched for the first entry under a name. For a
schema that was read and written, each table answers as the schema does
(`Output.lookup_answers`): the tables of pairs as the relation graph, the columns as the tables, and
the procedures with those that were written, of which there is one for each table and one for each
direction of a relation.

That the first entry is the only one follows from the maps that the tables are written from. Keys of
a map never repeat, tables have names of their own, and no two entries of a plan are for the same
two tables. The procedures are written from the same plan as the tables of their names, entry by
entry.
-/

set_option autoImplicit false
set_option relaxedAutoImplicit false

namespace SchemaCompiler

/-! ### Searching tables -/

/-- The two tables that an entry is for. -/
def RelationDelete.pair (entry : RelationDelete) : String × String :=
  (entry.managing, entry.deleted)

namespace Lookup

variable {Value : Type}

theorem get?_eq_some_iff {dataset : Dataset Value} (hnodup : (dataset.map Prod.fst).Nodup)
    {key : String} {value : Value} : get? dataset key = some value ↔ (key, value) ∈ dataset :=
  @OrderedMap.get?_eq_some_iff Value ⟨dataset, hnodup⟩ key value

/-- A table with an entry for each of some items is searched by searching the items. -/
theorem get?_map {Item : Type} (items : List Item) (name : Item → String) (content : Item → Value)
    (key : String) :
    get? (items.map fun item ↦ (name item, content item)) key =
      (items.find? fun item ↦ name item == key).map content := by
  rw [get?, List.find?_map, Option.map_map]
  rfl

theorem getPair?_ofPairMap (map : PairMap) (first second : String) :
    getPair? (ofPairMap map) first second = map.pair? first second := by
  rw [getPair?, ofPairMap, get?_map]
  unfold PairMap.pair? OrderedMap.get?
  cases map.entries.find? fun entry ↦ entry.1 == first <;> rfl

theorem pair?_foldl_insertPair {entries : List RelationDelete} {map : PairMap}
    (hnodup : (entries.map RelationDelete.pair).Nodup) (first second : String) :
    (entries.foldl (fun map entry ↦
        PairMap.insertPair map entry.managing entry.deleted entry.procedure.text) map).pair?
        first second =
      ((entries.find? fun entry ↦ entry.pair == (first, second)).map
        fun entry ↦ entry.procedure.text).or (map.pair? first second) := by
  induction entries generalizing map with
  | nil => rfl
  | cons entry rest ih =>
    rw [List.map_cons, List.nodup_cons] at hnodup
    rw [List.foldl_cons, ih hnodup.2, PairMap.pair?_insertPair]
    by_cases hpair : entry.pair = (first, second)
    · have hrest : rest.find? (fun other ↦ other.pair == (first, second)) = none :=
        List.find?_eq_none.mpr (key_beq_eq_false (hpair ▸ hnodup.1))
      obtain ⟨hfirst, hsecond⟩ := Prod.mk.inj hpair
      rw [hrest, if_pos ⟨hfirst.symm, hsecond.symm⟩, List.find?_cons, beq_iff_eq.mpr hpair]
      rfl
    · have hother : ¬(first = entry.managing ∧ second = entry.deleted) := by
        rintro ⟨rfl, rfl⟩
        exact hpair rfl
      simp [hpair, hother]

theorem pair?_relationProcedures {plan : Plan}
    (hnodup : (plan.relationDeletes.map RelationDelete.pair).Nodup) (first second : String) :
    (relationProcedures plan).pair? first second =
      (plan.relationDeletes.find? fun entry ↦ entry.pair == (first, second)).map
        fun entry ↦ entry.procedure.text := by
  rw [relationProcedures, pair?_foldl_insertPair hnodup]
  exact Option.or_none

end Lookup

/-! ### Written items -/

/-- What was written, and the plan that it was written by. -/
structure Schema.WrittenBy (schema : Schema) (plan : Plan) (output : Output) : Prop where
  planned : Plan.ofSchema schema = .ok plan
  entityDeletes : (output.entityDeletes.map fun item ↦ (item.table, item.procedure.text)) =
    plan.tables.values.map fun entry ↦ (entry.table.name, entry.procedure.text)
  linkDeletes : output.linkDeletes.map LinkDelete.entry = plan.relationDeletes
  lookup : output.lookup = .ofPlan schema plan

namespace Schema

/-- One of the small names that a table is related to is that of another table. -/
def RelatesTo (schema : Schema) (first second : String) : Prop :=
  ∃ lower ∈ schema.graph.relatedTo first, schema.graph.resolve? lower = some second

theorem Sound.relatesTo_iff {schema : Schema} (hschema : schema.Sound) {first second : String} :
    schema.RelatesTo first second ↔
      ∃ link near far, schema.graph.Relates link near far first second := by
  -- the small name of a side leads to the table of that side
  have hresolve : ∀ {link : Link} {near far : Endpoint} {source target : String},
      schema.graph.Relates link near far source target →
        schema.graph.resolve? far.lower = some target := by
    intro link near far source target hrelates
    have hlower := (Plan.lower_of_relates hschema hrelates).2
    obtain ⟨hlink, hjoins, -, rfl⟩ := hrelates
    obtain ⟨-, -, table, htable, hkind, -⟩ := hschema.attached link hlink far near hjoins.symm
    exact hschema.symbol.mpr ⟨hlower, table, htable, hkind⟩
  constructor
  · rintro ⟨lower, hlower, htarget⟩
    obtain ⟨link, near, far, hrelates, rfl⟩ := hschema.graph.related.mp hlower
    rw [hresolve hrelates, Option.some.injEq] at htarget
    exact ⟨link, near, far, htarget ▸ hrelates⟩
  · rintro ⟨link, near, far, hrelates⟩
    refine ⟨far.lower, hschema.graph.related.mpr ⟨link, near, far, ?_, rfl⟩, hresolve hrelates⟩
    obtain ⟨hlink, hjoins, hnear, -⟩ := hrelates
    exact ⟨hlink, hjoins, hnear, rfl⟩

/-- A table that is related to another one is a table. -/
theorem Sound.exists_table_of_related {schema : Schema} (hschema : schema.Sound) {name : String}
    (hrelated : schema.graph.relatedTo name ≠ []) : ∃ table, schema.table? name = some table := by
  obtain ⟨lower, hlower⟩ := List.exists_mem_of_ne_nil _ hrelated
  obtain ⟨link, near, far, ⟨hlink, hjoins, hnear, -⟩, -⟩ := hschema.graph.related.mp hlower
  obtain ⟨-, -, table, htable, -⟩ := hschema.attached link hlink near far hjoins
  exact ⟨table, hnear ▸ htable⟩

end Schema

namespace Lookup

variable {schema : Schema} {plan : Plan}

/-- Tables that are related to no other one are left out. -/
theorem relationSpec_eq : (ofPlan schema plan).relationSpec =
    (schema.tables.values.filter fun table ↦ !(schema.graph.relatedTo table.name).isEmpty).map
      fun table ↦ (table.name, schema.graph.relatedTo table.name) := by
  rw [← List.filterMap_eq_map, List.filterMap_filter]
  refine List.filterMap_congr fun table _ ↦ ?_
  by_cases hnone : (schema.graph.relatedTo table.name).isEmpty = true <;> simp [hnone]

theorem get?_relationSpec (hschema : schema.Sound) (name : String) :
    get? (ofPlan schema plan).relationSpec name =
      if schema.graph.relatedTo name = [] then none else some (schema.graph.relatedTo name) := by
  have hnodup : ((ofPlan schema plan).relationSpec.map Prod.fst).Nodup := by
    rw [relationSpec_eq, List.map_map]
    exact (Plan.nodup_names hschema.filed).sublist (List.filter_sublist.map Table.name)
  split_ifs with hrelated
  · rw [Option.eq_none_iff_forall_ne_some]
    intro names hnames
    rw [get?_eq_some_iff hnodup, relationSpec_eq, List.mem_map] at hnames
    obtain ⟨table, htable, hentry⟩ := hnames
    obtain ⟨hname, -⟩ := Prod.mk.inj hentry
    have hsome := (List.mem_filter.mp htable).2
    rw [hname, hrelated] at hsome
    cases hsome
  · obtain ⟨table, htable⟩ := hschema.exists_table_of_related hrelated
    rw [get?_eq_some_iff hnodup, relationSpec_eq, List.mem_map]
    have hname := hschema.name_eq htable
    refine ⟨table, List.mem_filter.mpr ⟨OrderedMap.mem_values_iff.mpr ⟨name, htable⟩, ?_⟩, ?_⟩
    · simp [hname, hrelated]
    · rw [hname]

theorem get?_columns (hschema : schema.Sound) (name : String) :
    get? (ofPlan schema plan).columns name = (schema.table? name).map Table.columnNames := by
  rw [← Plan.find?_values hschema.filed name]
  exact get?_map schema.tables.values Table.name Table.columnNames name

end Lookup

/-- The constant tables of an output answer as the schema does, and those of procedures name the one
procedure of the output that is for the table or for the two tables. -/
structure Output.Answers (output : Output) (schema : Schema) : Prop where
  collections : ∀ first second,
    Lookup.getPair? output.lookup.collections first second = schema.graph.collection? first second
  owned : ∀ first second,
    Lookup.getPair? output.lookup.owned first second = schema.graph.owned? first second
  linkEntities : ∀ first second,
    Lookup.getPair? output.lookup.linkEntities first second = schema.graph.linkEntity? first second
  related : ∀ name, Lookup.get? output.lookup.relationSpec name =
    if schema.graph.relatedTo name = [] then none else some (schema.graph.relatedTo name)
  columns : ∀ name,
    Lookup.get? output.lookup.columns name = (schema.table? name).map Table.columnNames
  entityDeletes_isSome : ∀ name,
    (Lookup.get? output.lookup.entityDeletes name).isSome = (schema.table? name).isSome
  entityDeletes : ∀ name text, Lookup.get? output.lookup.entityDeletes name = some text →
    ∃ item, output.entityDeletes.filter (fun item ↦ item.table == name) = [item] ∧
      item.procedure.text = text
  relationDeletes_isSome : ∀ first second,
    (Lookup.getPair? output.lookup.relationDeletes first second).isSome = true ↔
      schema.RelatesTo first second
  relationDeletes : ∀ first second text,
    Lookup.getPair? output.lookup.relationDeletes first second = some text →
      ∃ item, output.linkDeletes.filter (fun item ↦
          item.entry.managing == first && item.entry.deleted == second) = [item] ∧
        item.entry.procedure.text = text

namespace Schema.WrittenBy

variable {schema : Schema} {plan : Plan} {output : Output}

/-- There is one procedure for each table. -/
theorem map_table (hwritten : schema.WrittenBy plan output) (hschema : schema.Regular) :
    output.entityDeletes.map EntityDelete.table = schema.tables.values.map Table.name := by
  obtain ⟨-, hplans, -⟩ := (Plan.ofSchema_eq_ok_iff hschema).mp hwritten.planned
  have hnames := congrArg (List.map Prod.fst) hwritten.entityDeletes
  rw [List.map_map, List.map_map, hplans.values_eq, List.map_map] at hnames
  exact hnames

/-- The table of procedures is searched by searching the procedures. -/
theorem get?_entityDeletes (hwritten : schema.WrittenBy plan output) (name : String) :
    Lookup.get? output.lookup.entityDeletes name =
      (output.entityDeletes.find? fun item ↦ item.table == name).map
        fun item ↦ item.procedure.text := by
  have hlookup : output.lookup.entityDeletes =
      output.entityDeletes.map fun item ↦ (item.table, item.procedure.text) := by
    rw [hwritten.lookup, hwritten.entityDeletes]
    rfl
  rw [hlookup]
  exact Lookup.get?_map output.entityDeletes EntityDelete.table _ name

theorem entityDeletes_isSome (hwritten : schema.WrittenBy plan output) (hschema : schema.Regular)
    (name : String) :
    (Lookup.get? output.lookup.entityDeletes name).isSome = (schema.table? name).isSome := by
  have hitems : (output.entityDeletes.find? fun item ↦ item.table == name).isSome =
      ((output.entityDeletes.map EntityDelete.table).find? fun table ↦ table == name).isSome := by
    rw [List.find?_map, Option.isSome_map]
    rfl
  have htables : (schema.table? name).isSome =
      ((schema.tables.values.map Table.name).find? fun table ↦ table == name).isSome := by
    rw [← Plan.find?_values hschema.filed, List.find?_map, Option.isSome_map]
    rfl
  rw [hwritten.get?_entityDeletes, Option.isSome_map, hitems, hwritten.map_table hschema, htables]

theorem exists_entityDelete (hwritten : schema.WrittenBy plan output) (hschema : schema.Regular)
    {name text : String} (htext : Lookup.get? output.lookup.entityDeletes name = some text) :
    ∃ item, output.entityDeletes.filter (fun item ↦ item.table == name) = [item] ∧
      item.procedure.text = text := by
  have hkeys : (output.entityDeletes.map EntityDelete.table).Nodup := by
    rw [hwritten.map_table hschema]
    exact Plan.nodup_names hschema.filed
  rw [hwritten.get?_entityDeletes] at htext
  obtain ⟨item, hitem, htext⟩ := Option.map_eq_some_iff.mp htext
  refine ⟨item, ?_, htext⟩
  rw [filter_key_eq hkeys, hitem, Option.toList_some]

/-- The table of procedures for two tables is searched by searching the procedures. -/
theorem getPair?_relationDeletes (hwritten : schema.WrittenBy plan output) (hschema : schema.Sound)
    (first second : String) :
    Lookup.getPair? output.lookup.relationDeletes first second =
      (output.linkDeletes.find? fun item ↦ item.entry.pair == (first, second)).map
        fun item ↦ item.entry.procedure.text := by
  have hmap : Lookup.getPair? output.lookup.relationDeletes first second =
      (Lookup.relationProcedures plan).pair? first second := by
    rw [hwritten.lookup]
    exact Lookup.getPair?_ofPairMap _ first second
  rw [hmap, Lookup.pair?_relationProcedures (Plan.nodup_map_pair hschema hwritten.planned),
    ← hwritten.linkDeletes, List.find?_map, Option.map_map]
  rfl

theorem relationDeletes_isSome_iff (hwritten : schema.WrittenBy plan output)
    (hschema : schema.Sound) (first second : String) :
    (Lookup.getPair? output.lookup.relationDeletes first second).isSome = true ↔
      schema.RelatesTo first second := by
  have hmember : (output.linkDeletes.find? fun item ↦
        item.entry.pair == (first, second)).isSome = true ↔
      (first, second) ∈ plan.relationDeletes.map RelationDelete.pair := by
    rw [← hwritten.linkDeletes, List.map_map, List.find?_isSome, List.mem_map]
    simp only [beq_iff_eq, Function.comp_apply]
  rw [hwritten.getPair?_relationDeletes hschema, Option.isSome_map, hmember,
    hschema.relatesTo_iff]
  exact Plan.mem_map_pair_iff hschema hwritten.planned

theorem exists_linkDelete (hwritten : schema.WrittenBy plan output) (hschema : schema.Sound)
    {first second text : String}
    (htext : Lookup.getPair? output.lookup.relationDeletes first second = some text) :
    ∃ item, output.linkDeletes.filter (fun item ↦
        item.entry.managing == first && item.entry.deleted == second) = [item] ∧
      item.entry.procedure.text = text := by
  have hkeys : (output.linkDeletes.map fun item ↦ item.entry.pair).Nodup := by
    have hnodup := Plan.nodup_map_pair hschema hwritten.planned
    rw [← hwritten.linkDeletes, List.map_map] at hnodup
    exact hnodup
  rw [hwritten.getPair?_relationDeletes hschema] at htext
  obtain ⟨item, hitem, htext⟩ := Option.map_eq_some_iff.mp htext
  have hone : output.linkDeletes.filter (fun item ↦ item.entry.pair == (first, second)) =
      [item] := by
    rw [filter_key_eq hkeys, hitem, Option.toList_some]
  exact ⟨item, hone, htext⟩

/-- What was written for a sound schema answers as the schema does. -/
theorem answers (hwritten : schema.WrittenBy plan output) (hsound : schema.Sound)
    (hregular : schema.Regular) : output.Answers schema where
  collections first second := by
    rw [hwritten.lookup]
    exact Lookup.getPair?_ofPairMap _ first second
  owned first second := by
    rw [hwritten.lookup]
    exact Lookup.getPair?_ofPairMap _ first second
  linkEntities first second := by
    rw [hwritten.lookup]
    exact Lookup.getPair?_ofPairMap _ first second
  related name := by rw [hwritten.lookup, Lookup.get?_relationSpec hsound]
  columns name := by rw [hwritten.lookup, Lookup.get?_columns hsound]
  entityDeletes_isSome := hwritten.entityDeletes_isSome hregular
  entityDeletes _ _ := hwritten.exists_entityDelete hregular
  relationDeletes_isSome := hwritten.relationDeletes_isSome_iff hsound
  relationDeletes _ _ _ := hwritten.exists_linkDelete hsound

end Schema.WrittenBy

/-! ### Written tables -/

namespace Lookup

/-- The tables that are written, each with its type and its entries. -/
def constants (lookup : Lookup) : List (String × Tree × Tree) :=
  [("RELATION_SPEC", listTableType, table textList lookup.relationSpec),
    ("REF_TABLE", pairTableType, pairTable lookup.collections),
    ("LR_REF", pairTableType, "REF_TABLE"),
    ("RELATION_SPEC_FOR_DESTRUCTION", pairTableType, pairTable lookup.owned),
    ("LR_TYPE", pairTableType, pairTable lookup.linkEntities),
    ("FIELD_SPEC", listTableType, table textList lookup.columns),
    ("DELETE_PROCEDURES", "& [(& str , & str)]", table Tree.literal lookup.entityDeletes),
    ("RELATION_DELETE_PROCEDURES", pairTableType, pairTable lookup.relationDeletes)]

/-- A piece of code is a module for the tables and declares all of them. -/
def WrittenAs (lookup : Lookup) (piece : Tree) : Prop :=
  ∃ pieces, piece = .row ["pub mod lookup", Tree.brace pieces] ∧
    ∀ entry ∈ lookup.constants, constant entry.1 entry.2.1 entry.2.2 ∈ pieces

end Lookup

namespace Output

end Output

end SchemaCompiler
