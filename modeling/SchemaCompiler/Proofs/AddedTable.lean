import SchemaCompiler.Proofs.LookupContent
import SchemaCompiler.Proofs.SuccessiveTexts

/-!
# One more table

A table definition at the end of a text adds its own code and changes none of the other
(`Output.addsTable_of_read`).

The definition is read at another place than in a text of its own, but its table does not depend on
the place (`Table.ofDefinition_withoutSpans`). No relation of the text names the new table, so the
second pass does the same with it as without it, and the larger schema is the schema with the table
added at its end (`Schema.eq_add_of_ofDocument`). What is found in the schema is found in the larger
one, and the new table has no relations; so a plan of the larger schema has the same directions
(`Plan.Plans.relationDeletes_add`) and every old item is written from the same tables.
-/

set_option autoImplicit false
set_option relaxedAutoImplicit false

namespace SchemaCompiler

/-! ### The table of a definition -/

theorem Column.ofField_withoutSpan (table : String) (field : Field) :
    ofField table field.withoutSpan = ofField table field := by
  obtain ⟨name, type, options, initial⟩ := field
  cases initial <;> rfl

namespace Table

/-- The place where a definition stands does not matter to its table. -/
theorem ofDefinition_withoutSpans (definition : TableDefinition) :
    ofDefinition definition.withoutSpans = ofDefinition definition := by
  have hprimary : ∀ (table : Table) (field : Field),
      table.insertPrimary field.withoutSpan = table.insertPrimary field := by
    intro table field
    rw [insertPrimary, insertPrimary, Column.ofField_withoutSpan]
    rfl
  have hfield : ∀ (table : Table) (field : Field),
      table.insertField field.withoutSpan = table.insertField field := by
    intro table field
    rw [insertField, insertField, Column.ofField_withoutSpan]
  simp only [ofDefinition, TableDefinition.withoutSpans, List.foldlM_map, hprimary, hfield]

end Table

/-! ### The larger schema -/

namespace OrderedMap

variable {Value : Type}

/-- A change under one key and an insertion under another one can be made in either order. -/
theorem modify_insert {map : OrderedMap Value} {key other : String} (hother : other ≠ key)
    (value : Value) (change : Value → Value) :
    (map.insert key value).modify other change = (map.modify other change).insert key value := by
  apply eq_of_entries_eq
  have hkey : key ≠ other := hother.symm
  cases hget : map.get? key with
  | none =>
    have hmodified : (map.modify other change).get? key = none := by
      rw [get?_modify, hget, Option.map_none]
    rw [entries_insert_of_get?_eq_none hmodified]
    simp only [modify, entries_insert_of_get?_eq_none hget, replaceIn, List.map_append]
    simp [hkey]
  | some present =>
    have hpresent : map.get? key ≠ none := by simp [hget]
    have hmodified : (map.modify other change).get? key ≠ none := by simp [get?_modify, hget]
    rw [insert, dif_neg hpresent, insert, dif_neg hmodified]
    simp only [modify, replaceIn, List.map_map]
    refine List.map_congr_left fun entry _ ↦ ?_
    by_cases hentry : entry.1 = key
    · simp [hentry, hkey]
    · by_cases hchanged : entry.1 = other <;> simp [hentry, hchanged, hother]

end OrderedMap

/-- The tables that a relation is about. -/
def Relation.tableNames (relation : Relation) : List String :=
  [relation.linkName, relation.left.symbol, relation.right.symbol]

namespace Schema

variable {schema : Schema} {definition : TableDefinition} {table : Table}

/-- A relation of other tables can be resolved before or after a table is added. -/
theorem join_add {relation : Relation} (hapart : definition.name ∉ relation.tableNames) :
    (schema.add (.table definition) table).join relation.link =
      (schema.join relation.link).add (.table definition) table := by
  simp only [Relation.tableNames, List.mem_cons, List.not_mem_nil, or_false, not_or] at hapart
  obtain ⟨hlink, hleft, hright⟩ := hapart
  have htables : ((schema.add (.table definition) table).attachAccessors relation.link).tables =
      ((schema.attachAccessors relation.link).tables).insert definition.name table := by
    simp only [attachAccessors, attachBack, attachCollection, add, Statement.name, Relation.link,
      Side.endpoint]
    rw [OrderedMap.modify_insert (Ne.symm hlink), OrderedMap.modify_insert (Ne.symm hlink),
      OrderedMap.modify_insert (Ne.symm hleft), OrderedMap.modify_insert (Ne.symm hright)]
  have hgraph : (schema.add (.table definition) table).graph.insert relation.link =
      { schema.graph.insert relation.link with
        symbols := (schema.graph.insert relation.link).symbols.insert
          (Name.lower definition.name) definition.name } := by
    simp only [RelationGraph.symbols_insert]
    unfold RelationGraph.insert
    cases relation.link.ownership <;> rfl
  exact congrArg₂ Schema.mk htables hgraph

/-- Relations of other tables can be resolved in turn before or after a table is added. -/
theorem relateAll_add {relations : List Relation} : ∀ {schema last larger : Schema},
    (∀ relation ∈ relations, definition.name ∉ relation.tableNames) →
      schema.relateAll relations = (last, none) →
        (schema.add (.table definition) table).relateAll relations = (larger, none) →
          larger = last.add (.table definition) table := by
  induction relations with
  | nil =>
    intro schema last larger _ hall hlarger
    cases hall
    cases hlarger
    rfl
  | cons relation rest ih =>
    intro schema last larger hapart hall hlarger
    rw [List.forall_mem_cons] at hapart
    unfold relateAll at hall hlarger
    split at hall
    next next hnext =>
      obtain ⟨-, -, rfl⟩ := relate_eq_ok_iff.mp hnext
      split at hlarger
      next added hadded =>
        obtain ⟨-, -, rfl⟩ := relate_eq_ok_iff.mp hadded
        rw [join_add hapart.1] at hlarger
        exact ih hapart.2 hall hlarger
      next => cases hlarger
    next => cases hall

/-- The names of a definition are free in a schema. -/
structure Free (schema : Schema) (definition : TableDefinition) : Prop where
  name : schema.table? definition.name = none
  lower : schema.graph.resolve? (Name.lower definition.name) = none

/-- Free names are those that no statement of the document takes. -/
theorem Follows.free_iff {document : Document} (hfollows : schema.Follows document) :
    schema.Free definition ↔
      definition.name ∉ document.statements.map Statement.name ∧
        Name.lower definition.name ∉ document.tables.map fun other ↦ Name.lower other.name := by
  rw [← hfollows.table?_eq_none_iff, ← hfollows.resolve?_eq_none_iff]
  exact ⟨fun hfree ↦ ⟨hfree.name, hfree.lower⟩, fun ⟨hname, hlower⟩ ↦ ⟨hname, hlower⟩⟩

/-- The schema of a document with one more definition at its end has one more table at its end. -/
theorem eq_add_of_ofDocument {document : Document} {larger : Schema}
    (hbuild : ofDocument document = .ok schema)
    (hlarger : ofDocument ⟨document.statements ++ [.table definition]⟩ = .ok larger) :
    ∃ table, Table.ofDefinition definition = .ok table ∧ schema.Free definition ∧
      larger = schema.add (.table definition) table := by
  obtain ⟨declared, hdeclare, hall, -⟩ := ofDocument_eq_ok_iff.mp hbuild
  obtain ⟨_, hadd, hlargerAll, -⟩ := ofDocument_eq_ok_iff.mp hlarger
  rw [declareAll, List.foldlM_append] at hadd
  obtain ⟨first, hfirst, hlast⟩ := bind_eq_ok_iff.mp hadd
  obtain rfl : declared = first := Except.ok.inj (hdeclare.symm.trans hfirst)
  rw [List.foldlM_cons] at hlast
  obtain ⟨next, hnext, ⟨⟩⟩ := bind_eq_ok_iff.mp hlast
  obtain ⟨table, htable, hname, hlower, rfl⟩ := declare_eq_ok_iff.mp hnext
  have hdeclared : declared.Follows document := follows_empty.foldlM_declare hdeclare
  have hfree := hdeclared.free_iff.mp ⟨hname, hlower definition rfl⟩
  have hrelations : Document.relations ⟨document.statements ++ [.table definition]⟩ =
      document.relations := by
    simp [Document.relations]
  rw [hrelations] at hlargerAll
  refine ⟨table, htable, (hdeclared.relateAll hall).1.free_iff.mpr hfree,
    relateAll_add (fun relation hrelation ↦ ?_) hall hlargerAll⟩
  -- the link entity and both sides are tables that were there before
  have htaken : ∀ name ∈ relation.tableNames, declared.table? name ≠ none := by
    obtain ⟨⟨left, hleft, -⟩, right, hright, -⟩ :=
      (exists_relateAll_iff.mp ⟨schema, hall⟩).1 relation hrelation
    obtain ⟨link, hlink, -⟩ := hdeclared.tables _ (Document.mem_relations_iff.mp hrelation)
    have hentity : declared.table? relation.linkName = some link := hlink
    simp [Relation.tableNames, hentity, hleft, hright]
  exact fun hmember ↦ htaken _ hmember hname

/-! ### What is found in the larger schema -/

theorem Free.entries_add (hfree : schema.Free definition) (table : Table) :
    (schema.add (.table definition) table).tables.entries =
      schema.tables.entries ++ [(definition.name, table)] :=
  OrderedMap.entries_insert_of_get?_eq_none hfree.name

theorem Free.values_add (hfree : schema.Free definition) (table : Table) :
    (schema.add (.table definition) table).tables.values = schema.tables.values ++ [table] := by
  rw [OrderedMap.values, hfree.entries_add, List.map_append]
  rfl

/-- A table of the schema is a table of the larger one. -/
theorem Free.table?_add (hfree : schema.Free definition) {name : String} {found : Table}
    (hfound : schema.table? name = some found) (table : Table) :
    (schema.add (.table definition) table).table? name = some found := by
  have hother : name ≠ definition.name := by
    rintro rfl
    rw [hfree.name] at hfound
    cases hfound
  have hinsert : (schema.add (.table definition) table).table? name =
      if name = definition.name then some table else schema.table? name :=
    OrderedMap.get?_insert ..
  rw [hinsert, if_neg hother, hfound]

/-- A small name leads to the same table in the larger schema. -/
theorem Free.resolve?_add (hfree : schema.Free definition) {lower : String} {found : Table}
    (hfound : schema.resolve? lower = some found) (table : Table) :
    (schema.add (.table definition) table).resolve? lower = some found := by
  unfold resolve? at hfound
  split at hfound
  next name hname =>
    have hother : lower ≠ Name.lower definition.name := by
      rintro rfl
      rw [hfree.lower] at hname
      cases hname
    have hinsert : (schema.add (.table definition) table).graph.resolve? lower =
        if lower = Name.lower definition.name then some definition.name
        else schema.graph.resolve? lower :=
      OrderedMap.get?_insert ..
    rw [if_neg hother, hname] at hinsert
    rw [resolve?, hinsert]
    exact hfree.table?_add hfound table
  next => cases hfound

theorem Free.hasAccessor_add (hfree : schema.Free definition) {name key : String}
    (haccessor : Plan.hasAccessor schema name key = true) (table : Table) :
    Plan.hasAccessor (schema.add (.table definition) table) name key = true := by
  obtain ⟨found, accessor, hfound, hkey⟩ := Plan.hasAccessor_iff.mp haccessor
  exact Plan.hasAccessor_iff.mpr ⟨found, accessor, hfree.table?_add hfound table, hkey⟩

/-- What an entry leads over is still there. -/
theorem Free.resolved_add (hfree : schema.Free definition) {entry : RelationDelete}
    (hentry : entry.Resolved schema) (table : Table) :
    entry.Resolved (schema.add (.table definition) table) where
  target := by
    obtain ⟨found, hfound, hname⟩ := hentry.target
    exact ⟨found, hfree.resolve?_add hfound table, hname⟩
  link := hentry.link
  link_table := by
    obtain ⟨link, hlink⟩ := Option.isSome_iff_exists.mp hentry.link_table
    rw [hfree.table?_add hlink table, Option.isSome_some]
  collection := hentry.collection
  has_collection := hfree.hasAccessor_add hentry.has_collection table
  owned := hentry.owned
  has_owned := fun accessor howned ↦ hfree.hasAccessor_add (hentry.has_owned accessor howned) table
  procedure := hentry.procedure

/-- A table that is not there is related to no other one. -/
theorem Free.relatedTo_eq_nil (hfree : schema.Free definition) (hsound : schema.Sound) :
    schema.graph.relatedTo definition.name = [] := by
  by_contra hrelated
  obtain ⟨found, hfound⟩ := hsound.exists_table_of_related hrelated
  rw [hfree.name] at hfound
  cases hfound

end Schema

/-! ### Plans of the larger schema -/

namespace Plan

variable {schema : Schema} {definition : TableDefinition} {table : Table}

theorem directions_add (hsound : schema.Sound) (hfree : schema.Free definition)
    (hname : table.name = definition.name) :
    directions (schema.add (.table definition) table) = directions schema := by
  have hnone : (schema.graph.relatedTo table.name).map (fun lower ↦ (table.name, lower)) = [] := by
    rw [hname, hfree.relatedTo_eq_nil hsound, List.map_nil]
  have hsplit : directions (schema.add (.table definition) table) =
      directions schema ++
        (schema.graph.relatedTo table.name).map fun lower ↦ (table.name, lower) := by
    rw [directions, hfree.values_add, List.flatMap_append, List.flatMap_singleton]
    rfl
  rw [hsplit, hnone, List.append_nil]

/-- A plan of the larger schema has the entries of a plan of the schema. -/
theorem Plans.relationDeletes_add {plan other : Plan} (hplans : Plans schema plan)
    (hother : Plans (schema.add (.table definition) table) other) (hsound : schema.Sound)
    (hfree : schema.Free definition) (hname : table.name = definition.name) :
    other.relationDeletes = plan.relationDeletes := by
  have hentries := hother.relationDeletes
  rw [directions_add hsound hfree hname] at hentries
  have hsame : List.Forall₂ (fun direction entry ↦
      ofRelation (schema.add (.table definition) table) direction.1 direction.2 = .ok entry)
      (directions schema) plan.relationDeletes := by
    refine hplans.relationDeletes.imp fun direction entry hentry ↦ ?_
    obtain ⟨hmanaging, hlower, hresolved⟩ := ofRelation_eq_ok_iff.mp hentry
    exact ofRelation_eq_ok_iff.mpr ⟨hmanaging, hlower, hfree.resolved_add hresolved table⟩
  have hboth := (mapM_eq_ok_iff.mpr hentries).symm.trans (mapM_eq_ok_iff.mpr hsame)
  exact Except.ok.inj hboth

/-- No entry leads from a table that is not there. -/
theorem Plans.relationsOf_eq_nil {plan : Plan} (hplans : Plans schema plan)
    (hregular : schema.Regular) {name : String} (hnone : schema.table? name = none) :
    plan.relationsOf name = [] := by
  rw [List.eq_nil_iff_forall_not_mem]
  intro entry hentry
  obtain ⟨hmember, hmanaging⟩ := mem_relationsOf_iff.mp hentry
  have hsome := (hplans.resolved hregular hmember).1
  rw [hmanaging, hnone] at hsome
  cases hsome

/-- The procedure of an entry is written from the same tables. -/
theorem Plans.linkDelete_add {plan other : Plan} (hplans : Plans schema plan)
    (hother : Plans (schema.add (.table definition) table) other) (hregular : schema.Regular)
    (hfree : schema.Free definition) {entry : RelationDelete}
    (hentry : entry ∈ plan.relationDeletes) :
    LinkDelete.ofEntry other entry = LinkDelete.ofEntry plan entry := by
  obtain ⟨link, deleted, hlink, hdeleted, -⟩ := Schema.exists_linkDelete hregular hplans hentry
  unfold LinkDelete.ofEntry
  rw [hother.get?_eq, hother.get?_eq, hfree.table?_add hlink, hfree.table?_add hdeleted,
    hplans.get?_eq, hplans.get?_eq, hlink, hdeleted]

end Plan

/-! ### The code of the larger schema -/

/-- The procedure that deletes a row of a table without relations. -/
def Table.loneDelete (table : Table) : EntityDelete :=
  ⟨table.name, .word table.name, ⟨table.procedureName⟩, []⟩

/-- What comes from the settings does not depend on the schema. -/
theorem Settings.resolved_of_generate [Target.Grammar] {settings : Settings} {schema : Schema}
    {output : Output} (hgenerate : schema.generate settings = .ok output) :
    settings.runtimePath = .ok output.runtime ∧
      settings.imports.mapM UseItem.ofImport = .ok output.imports ∧
      settings.configuration = .ok output.configuration := by
  obtain ⟨preparation, hprepare, houtput⟩ := bind_eq_ok_iff.mp hgenerate
  obtain ⟨plan, -, hrest⟩ := bind_eq_ok_iff.mp hprepare
  obtain ⟨runtime, hruntime, hrest⟩ := bind_eq_ok_iff.mp hrest
  obtain ⟨imports, himports, hrest⟩ := bind_eq_ok_iff.mp hrest
  obtain ⟨configuration, hconfiguration, hpure⟩ := bind_eq_ok_iff.mp hrest
  cases hpure
  obtain ⟨rowTypes, -, hrest⟩ := bind_eq_ok_iff.mp houtput
  obtain ⟨entityDeletes, -, hrest⟩ := bind_eq_ok_iff.mp hrest
  obtain ⟨linkDeletes, -, hpure⟩ := bind_eq_ok_iff.mp hrest
  cases hpure
  exact ⟨hruntime, himports, hconfiguration⟩

namespace Schema

variable {schema : Schema} {definition : TableDefinition} {table : Table}

/-- What was written for a regular schema was written from its tables and a plan. -/
theorem exists_writes [Target.Grammar] {settings : Settings} {output : Output}
    (hregular : schema.Regular) (hgenerate : schema.generate settings = .ok output) :
    ∃ plan, Plan.Plans schema plan ∧ schema.Writes plan output := by
  obtain ⟨preparation, hprepare, houtput⟩ := bind_eq_ok_iff.mp hgenerate
  obtain ⟨-, hplans, -⟩ :=
    (Plan.ofSchema_eq_ok_iff hregular).mp (ofSchema_of_prepare hprepare)
  obtain ⟨rowTypes, hrowTypes, -⟩ := bind_eq_ok_iff.mp houtput
  have hanchored := ((rowTypes_eq_ok_iff hregular hplans).mp hrowTypes).1
  obtain ⟨written, hwritten, hwrites⟩ := exists_output hregular hplans hanchored rfl
  obtain rfl : written = output := Except.ok.inj (hwritten.symm.trans houtput)
  exact ⟨preparation.plan, hplans, hwrites⟩

/-- The items of the larger schema: those of the schema, and two for the new table. -/
theorem Writes.items_add {plan other : Plan} {output extended : Output}
    (hwrites : schema.Writes plan output) (hplans : Plan.Plans schema plan)
    (hextended : (schema.add (.table definition) table).Writes other extended)
    (hother : Plan.Plans (schema.add (.table definition) table) other)
    (hsound : schema.Sound) (hregular : schema.Regular) (hfree : schema.Free definition)
    (hname : table.name = definition.name) :
    extended.rowTypes = output.rowTypes ++ [table.rowType] ∧
      extended.entityDeletes = output.entityDeletes ++ [table.loneDelete] ∧
      extended.linkDeletes = output.linkDeletes := by
  have hentries : other.relationDeletes = plan.relationDeletes :=
    hplans.relationDeletes_add hother hsound hfree hname
  have hrelations : other.relationsOf = plan.relationsOf := by
    funext name
    rw [Plan.relationsOf, Plan.relationsOf, hentries]
  refine ⟨?_, ?_, ?_⟩
  · rw [hextended.rowTypes, hwrites.rowTypes, hfree.values_add, List.map_append]
    rfl
  · have hdelete : Table.entityDelete other = Table.entityDelete plan := by
      funext owner
      rw [Table.entityDelete, Table.entityDelete, hrelations]
    have hlone : table.entityDelete plan = table.loneDelete := by
      rw [Table.entityDelete, hplans.relationsOf_eq_nil hregular (hname ▸ hfree.name)]
      rfl
    rw [hextended.entityDeletes, hwrites.entityDeletes, hfree.values_add, List.map_append, hdelete,
      List.map_singleton, hlone]
  · have hitems := hextended.linkDeletes
    rw [hentries] at hitems
    have hsame : List.Forall₂ (fun entry item ↦ LinkDelete.ofEntry other entry = .ok item)
        plan.relationDeletes output.linkDeletes := by
      refine ((List.forall₂_and_left _ _).mpr ⟨fun _ hentry ↦ hentry, hwrites.linkDeletes⟩).imp ?_
      rintro entry item ⟨hentry, hitem⟩
      rw [hplans.linkDelete_add hother hregular hfree hentry, hitem]
    exact Except.ok.inj ((mapM_eq_ok_iff.mpr hitems).symm.trans (mapM_eq_ok_iff.mpr hsame))

end Schema

/-- A table more in the code, and nothing else of it changed. -/
structure Output.AddsTable (extended output : Output) (table : Table) : Prop where
  tables : extended.tableCode =
    output.tableCode ++ [(table.name, table.rowType.code output.runtime)]
  /-- The new procedure stands between those of the other tables and those of relations. -/
  procedures : extended.procedureCode = DeleteSupport.code output.runtime ::
    (output.entityDeletes.map (EntityDelete.code output.runtime) ++
      table.loneDelete.code output.runtime ::
        output.linkDeletes.map (LinkDelete.code output.runtime))
  imports : extended.importCode = output.importCode
  configuration : extended.configurationCode = output.configurationCode

namespace Output

theorem addsTable_of_generate [Target.Grammar] {schema : Schema} {definition : TableDefinition}
    {table : Table} {settings : Settings} {output extended : Output} (hsound : schema.Sound)
    (hregular : schema.Regular) (hfree : schema.Free definition)
    (hlarger : (schema.add (.table definition) table).Regular)
    (hname : table.name = definition.name)
    (hgenerate : schema.generate settings = .ok output)
    (hextended : (schema.add (.table definition) table).generate settings = .ok extended) :
    extended.AddsTable output table := by
  obtain ⟨plan, hplans, hwrites⟩ := Schema.exists_writes hregular hgenerate
  obtain ⟨other, hother, hwritten⟩ := Schema.exists_writes hlarger hextended
  obtain ⟨hrowTypes, hentities, hlinks⟩ :=
    hwrites.items_add hplans hwritten hother hsound hregular hfree hname
  obtain ⟨hruntime, himports, hconfiguration⟩ := Settings.resolved_of_generate hgenerate
  obtain ⟨hruntime', himports', hconfiguration'⟩ := Settings.resolved_of_generate hextended
  have hsameRuntime : extended.runtime = output.runtime :=
    Except.ok.inj (hruntime'.symm.trans hruntime)
  refine ⟨?_, ?_, ?_, ?_⟩
  · rw [tableCode, tableCode, hrowTypes, hsameRuntime, List.map_append]
    rfl
  · rw [procedureCode, hentities, hlinks, hsameRuntime]
    simp
  · rw [importCode, importCode, Except.ok.inj (himports'.symm.trans himports)]
  · rw [configurationCode, configurationCode,
      Except.ok.inj (hconfiguration'.symm.trans hconfiguration)]

/-- A table definition after a text adds the code of its table to the code of the text, the
procedure that deletes its rows after those of the other tables, and changes nothing else of the
tables, procedures, imports and configuration. -/
theorem addsTable_of_read [Target.Grammar] {source text : String} {definition : TableDefinition}
    {schema larger : Schema} {settings : Settings} {output extended : Output}
    (htext : Document.parse text = .ok ⟨[.table definition]⟩)
    (hread : Schema.read source = .ok schema) (hgenerate : schema.generate settings = .ok output)
    (hlarger : Schema.read (source ++ "\n" ++ text) = .ok larger)
    (hextended : larger.generate settings = .ok extended) :
    ∃ table, Table.ofDefinition definition = .ok table ∧ table.name = definition.name ∧
      extended.AddsTable output table := by
  obtain ⟨document, hparse, hbuild⟩ := Schema.read_eq_ok_iff.mp hread
  obtain ⟨moved, hsame, hboth⟩ := Document.parse_successive hparse htext
  obtain ⟨other, hother, hmoved⟩ : ∃ other : TableDefinition,
      other.withoutSpans = definition.withoutSpans ∧ moved.statements = [.table other] := by
    obtain ⟨statement, hstatements, hstatement⟩ :=
      List.map_eq_singleton_iff.mp (congrArg Document.statements hsame)
    cases statement with
    | table other => exact ⟨other, Statement.table.inj hstatement, hstatements⟩
    | relation sides => cases hstatement
  rw [hmoved] at hboth
  obtain ⟨_, hparsed, hbuilt⟩ := Schema.read_eq_ok_iff.mp hlarger
  obtain rfl := Except.ok.inj (hparsed.symm.trans hboth)
  obtain ⟨table, htable, hfree, rfl⟩ := Schema.eq_add_of_ofDocument hbuild hbuilt
  have hregular := Schema.regular_of_read hlarger
  have hname : table.name = other.name := hregular.filed <| by
    rw [Schema.table?, Schema.add, OrderedMap.get?_insert]
    exact if_pos rfl
  refine ⟨table, ?_, ?_, ?_⟩
  · rw [← Table.ofDefinition_withoutSpans, ← hother, Table.ofDefinition_withoutSpans, htable]
  · have hnames : other.withoutSpans.name = definition.withoutSpans.name := by rw [hother]
    exact hname.trans hnames
  · exact addsTable_of_generate (Schema.ofDocument_sound hbuild).1 (Schema.regular_of_read hread)
      hfree hregular hname hgenerate hextended

/-- A table with a default, below a comment. -/
def cart : String := "\n# carts\nCart(id: int) \x7b\n  count: int = 0\n\x7d"

/-- The definition of `cart`, with the span of the default in that text alone. -/
def cartDefinition : TableDefinition :=
  ⟨"Cart", [⟨"id", "int", [], none⟩], [⟨"count", "int", [], some ⟨"0", ⟨40, 41⟩⟩⟩], none⟩

theorem addsTable_of_read_cart : ∃ schema larger output extended table,
    Document.parse cart = .ok ⟨[.table cartDefinition]⟩ ∧
      Schema.read Schema.twins = .ok schema ∧ schema.generate {} = .ok output ∧
      Schema.read (Schema.twins ++ "\n" ++ cart) = .ok larger ∧
      larger.generate {} = .ok extended ∧
      Table.ofDefinition cartDefinition = .ok table ∧ extended.AddsTable output table := by
  have hcart : (Document.parse cart).toOption = some ⟨[.table cartDefinition]⟩ := by
    decide +kernel
  have htwins : ((Schema.read Schema.twins).toOption.bind fun schema ↦
      (schema.generate {}).toOption).isSome = true := by decide +kernel
  have hboth : ((Schema.read (Schema.twins ++ "\n" ++ cart)).toOption.bind fun schema ↦
      (schema.generate {}).toOption).isSome = true := by decide +kernel
  simp only [Option.isSome_iff_exists, Option.bind_eq_some_iff, toOption_eq_some_iff]
    at hcart htwins hboth
  obtain ⟨output, schema, hread, hgenerate⟩ := htwins
  obtain ⟨extended, larger, hlarger, hextended⟩ := hboth
  obtain ⟨table, htable, -, hadds⟩ := addsTable_of_read hcart hread hgenerate hlarger hextended
  exact ⟨schema, larger, output, extended, table, hcart, hread, hgenerate, hlarger, hextended,
    htable, hadds⟩

end Output

end SchemaCompiler
