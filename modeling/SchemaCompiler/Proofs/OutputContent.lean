import SchemaCompiler.Code.Output
import SchemaCompiler.Proofs.PlanContent

/-!
# The code of a regular schema

Once a regular schema has a plan and the settings are valid, one thing alone can stop generation: an
accessor that leads to no table (`Schema.Dangles`). If there is none, the items can be written down
from the tables and the entries of the plan (`Table.rowType`, `Table.entityDelete`,
`RelationDelete.linkDelete`). `Schema.generate_cases` tells the outcomes apart.

Items that are written for a regular schema lead to one another (`Output.SelfContained`): the rows
of an accessor, the link rows and the rows that a delete procedure goes on to are rows of tables
that are written too. `Schema.generate_edited` puts this together for schemas that were edited after
they were built, where accessors may lead to tables that are gone.
-/

set_option autoImplicit false
set_option relaxedAutoImplicit false

namespace SchemaCompiler

open Target (Identifier Grammar)

/-! ### Settings -/

section

variable [Grammar]

/-- Settings whose paths, names and lines can be read. -/
structure Settings.Valid (settings : Settings) : Prop where
  runtime : (Grammar.path? settings.runtime).isSome = true
  imports : ∀ item ∈ settings.imports, (Grammar.path? item.modulePath).isSome = true ∧
    (Plan.identifier item.name).isOk = true
  configuration : (Grammar.items? (String.intercalate "\n" settings.lines)).isSome = true

theorem UseItem.exists_ofImport {item : Import}
    (hpath : (Grammar.path? item.modulePath).isSome = true)
    (hname : (Plan.identifier item.name).isOk = true) :
    ∃ use, UseItem.ofImport item = .ok use := by
  obtain ⟨path, hpath⟩ := Option.isSome_iff_exists.mp hpath
  unfold UseItem.ofImport
  rw [hpath]
  cases hidentifier : Plan.identifier item.name with
  | ok name => exact ⟨⟨path, name⟩, rfl⟩
  | error stop =>
    rw [hidentifier] at hname
    cases hname

/-- With valid settings, a schema is prepared exactly as it is planned. -/
theorem Settings.Valid.exists_prepare {settings : Settings} (hsettings : settings.Valid)
    (schema : Schema) : ∃ preparation : Plan → Preparation,
      (∀ plan, (preparation plan).plan = plan) ∧
        schema.prepare settings = (Plan.ofSchema schema).map preparation := by
  obtain ⟨runtime, hruntime⟩ := Option.isSome_iff_exists.mp hsettings.runtime
  obtain ⟨configuration, hconfiguration⟩ := Option.isSome_iff_exists.mp hsettings.configuration
  obtain ⟨imports, himports⟩ := exists_mapM_eq_ok fun item hitem ↦
    UseItem.exists_ofImport (hsettings.imports item hitem).1 (hsettings.imports item hitem).2
  refine ⟨fun plan ↦ ⟨plan, runtime, imports, configuration⟩, fun _ ↦ rfl, ?_⟩
  unfold Schema.prepare Settings.runtimePath Settings.configuration
  rw [himports, hruntime, hconfiguration]
  cases Plan.ofSchema schema <;> rfl

/-- A prepared schema has the plan that it was prepared with. -/
theorem Schema.ofSchema_of_prepare {schema : Schema} {settings : Settings}
    {preparation : Preparation} (hprepare : schema.prepare settings = .ok preparation) :
    Plan.ofSchema schema = .ok preparation.plan := by
  obtain ⟨plan, hplan, hrest⟩ := bind_eq_ok_iff.mp hprepare
  obtain ⟨runtime, -, hrest⟩ := bind_eq_ok_iff.mp hrest
  obtain ⟨imports, -, hrest⟩ := bind_eq_ok_iff.mp hrest
  obtain ⟨configuration, -, hpure⟩ := bind_eq_ok_iff.mp hrest
  cases hpure
  exact hplan

end

/-! ### Items -/

namespace AccessorMethod

/-- The type of the rows that a method leads to. -/
def target : AccessorMethod → Identifier
  | collection _ target _ _ => target
  | back _ target _ => target

/-- The field that a method starts from. -/
def start : AccessorMethod → Identifier
  | collection _ _ _ id => id
  | back _ _ key => key

end AccessorMethod

/-- The method of an accessor. -/
def Accessor.method (key : String) (accessor : Accessor) : AccessorMethod :=
  if accessor.many then
    .collection (.word key) (.word accessor.target) accessor.column (.word accessor.start)
  else .back (.word key) (.word accessor.target) (.word accessor.start)

namespace Table

/-- The code of a table. -/
def rowType (table : Table) : RowType :=
  ⟨table.planned, table.accessors.entries.map fun entry ↦ entry.2.method entry.1⟩

/-- The procedure that deletes a row of a table. -/
def entityDelete (plan : Plan) (table : Table) : EntityDelete :=
  ⟨table.name, .word table.name, ⟨table.procedureName⟩,
    (plan.relationsOf table.name).map fun entry ↦
      ⟨entry.lower, .word entry.collection, entry.procedure⟩⟩

theorem field?_planned {table : Table} {name : String} (hname : name ∈ table.columnNames) :
    table.planned.field? name = some (.word name) := by
  obtain ⟨column, hcolumn, rfl⟩ := List.mem_map.mp hname
  have hfound : (table.planned.columns.find? fun entry ↦ entry.column.name == column.name).isSome =
      true := by
    rw [List.find?_isSome]
    exact ⟨column.planned, List.mem_map_of_mem hcolumn, beq_self_eq_true _⟩
  obtain ⟨entry, hentry⟩ := Option.isSome_iff_exists.mp hfound
  obtain ⟨other, -, rfl⟩ := List.mem_map.mp (List.mem_of_find?_eq_some hentry)
  have hsame : other.name = column.name := by simpa [Column.planned] using List.find?_some hentry
  rw [TablePlan.field?, hentry, ← hsame]
  rfl

theorem method?_planned {table : Table} {key : String} {accessor : Accessor}
    (haccessor : table.accessors.get? key = some accessor) :
    table.planned.method? key = some (.word key) := by
  have hfound : (table.planned.accessors.find? fun entry ↦ entry.name == key).isSome = true := by
    rw [List.find?_isSome]
    exact ⟨_, List.mem_map_of_mem (OrderedMap.mem_of_get?_eq_some haccessor), beq_self_eq_true _⟩
  obtain ⟨entry, hentry⟩ := Option.isSome_iff_exists.mp hfound
  obtain ⟨other, -, rfl⟩ := List.mem_map.mp (List.mem_of_find?_eq_some hentry)
  have hsame : other.1 = key := by simpa using List.find?_some hentry
  rw [TablePlan.method?, hentry, ← hsame]
  rfl

end Table

/-! ### Plans of schemas -/

theorem Plan.hasAccessor_iff {schema : Schema} {name key : String} :
    hasAccessor schema name key = true ↔
      ∃ table accessor, schema.table? name = some table ∧
        table.accessors.get? key = some accessor := by
  unfold hasAccessor
  cases schema.table? name with
  | none => simp
  | some table => simp [OrderedMap.contains, Option.isSome_iff_exists]

namespace Plan.Plans

variable {schema : Schema} {plan : Plan}

theorem get?_eq (hplans : Plans schema plan) (name : String) :
    plan.tables.get? name = (schema.table? name).map Table.planned := by
  unfold Schema.table? OrderedMap.get?
  rw [hplans.tables, List.find?_map, Option.map_map, Option.map_map]
  rfl

theorem values_eq (hplans : Plans schema plan) :
    plan.tables.values = schema.tables.values.map Table.planned := by
  rw [OrderedMap.values, hplans.tables, OrderedMap.values, List.map_map, List.map_map]
  rfl

/-- Every entry leads from a table and has parts that lead somewhere. -/
theorem resolved (hplans : Plans schema plan) (hschema : schema.Regular) {entry : RelationDelete}
    (hentry : entry ∈ plan.relationDeletes) :
    (schema.table? entry.managing).isSome = true ∧ entry.Resolved schema := by
  obtain ⟨direction, hdirection, hresolved⟩ :=
    exists_left_of_forall₂ hplans.relationDeletes hentry
  obtain ⟨hmanaging, -, hresolved⟩ := ofRelation_eq_ok_iff.mp hresolved
  rw [hmanaging]
  exact ⟨isSome_table?_of_mem_directions hschema hdirection, hresolved⟩

end Plan.Plans

/-! ### Row types -/

namespace Schema

/-- An accessor of a table leads to no table. -/
def Dangles (schema : Schema) (name key : String) : Prop :=
  ∃ table accessor, schema.table? name = some table ∧
    table.accessors.get? key = some accessor ∧ schema.table? accessor.target = none

variable {schema : Schema} {plan : Plan}

/-- What becomes of an accessor: a method, unless it leads to no table. -/
theorem method_eq (hschema : schema.Regular) (hplans : Plan.Plans schema plan) {name key : String}
    {table : Table} {accessor : Accessor} (htable : schema.table? name = some table)
    (haccessor : table.accessors.get? key = some accessor) :
    RowType.method plan table.planned ⟨key, accessor, .word key⟩ =
      if (schema.table? accessor.target).isSome then .ok (accessor.method key)
      else .error (.danglingAccessor table.name key) := by
  have hstart := Table.field?_planned ((hschema.tables htable).accessors haccessor).2
  unfold Accessor.start at hstart
  unfold RowType.method
  dsimp only
  rw [hplans.get?_eq, hstart]
  cases htarget : schema.table? accessor.target with
  | none => rfl
  | some target =>
    have hname : target.planned.rowType = .word accessor.target := by
      rw [← hschema.filed htarget]
      rfl
    cases hmany : accessor.many <;> simp [Accessor.method, Accessor.start, hmany, hname]

theorem methods_eq_ok_iff (hschema : schema.Regular) (hplans : Plan.Plans schema plan)
    {name : String} {table : Table} (htable : schema.table? name = some table)
    {methods : List AccessorMethod} :
    table.planned.accessors.mapM (RowType.method plan table.planned) = .ok methods ↔
      (∀ key, ¬ schema.Dangles name key) ∧ methods = table.rowType.methods := by
  have hanchored : (∀ key, ¬ schema.Dangles name key) ↔ ∀ entry ∈ table.accessors.entries,
      (schema.table? entry.2.target).isSome = true := by
    constructor
    · intro hall entry hentry
      rw [Option.isSome_iff_ne_none]
      exact fun hnone ↦
        hall entry.1 ⟨table, entry.2, htable, OrderedMap.get?_eq_some_of_mem hentry, hnone⟩
    · rintro hall key ⟨other, accessor, hother, haccessor, hnone⟩
      rw [htable] at hother
      cases hother
      have hsome := hall _ (OrderedMap.mem_of_get?_eq_some haccessor)
      rw [hnone] at hsome
      cases hsome
  have hmapM : table.planned.accessors.mapM (RowType.method plan table.planned) =
      table.accessors.entries.mapM fun entry ↦
        RowType.method plan table.planned ⟨entry.1, entry.2, .word entry.1⟩ :=
    List.mapM_map ..
  rw [hanchored, hmapM]
  refine mapM_eq_ok_map_iff fun entry hentry method ↦ ?_
  rw [method_eq hschema hplans htable (OrderedMap.get?_eq_some_of_mem hentry)]
  by_cases htarget : (schema.table? entry.2.target).isSome = true
  · simp [htarget, @eq_comm _ method]
  · simp [htarget]

/-- A table can be written exactly if none of its accessors leads to no table. -/
theorem rowType_eq_ok_iff (hschema : schema.Regular) (hplans : Plan.Plans schema plan)
    {name : String} {table : Table} (htable : schema.table? name = some table) {item : RowType} :
    RowType.ofPlan plan table.planned = .ok item ↔
      (∀ key, ¬ schema.Dangles name key) ∧ item = table.rowType := by
  unfold RowType.ofPlan
  rw [bind_eq_ok_iff]
  simp only [methods_eq_ok_iff hschema hplans htable, pure, Except.pure, Except.ok.injEq]
  constructor
  · rintro ⟨methods, ⟨hanchored, rfl⟩, rfl⟩
    exact ⟨hanchored, rfl⟩
  · rintro ⟨hanchored, rfl⟩
    exact ⟨_, ⟨hanchored, rfl⟩, rfl⟩

/-- All tables can be written exactly if no accessor leads to no table. -/
theorem rowTypes_eq_ok_iff (hschema : schema.Regular) (hplans : Plan.Plans schema plan)
    {items : List RowType} :
    plan.tables.values.mapM (RowType.ofPlan plan) = .ok items ↔
      (∀ name key, ¬ schema.Dangles name key) ∧ items = schema.tables.values.map Table.rowType := by
  have hanchored : (∀ name key, ¬ schema.Dangles name key) ↔
      ∀ table ∈ schema.tables.values, ∀ key, ¬ schema.Dangles table.name key := by
    constructor
    · exact fun hall table _ ↦ hall table.name
    · rintro hall name key ⟨table, accessor, htable, hdangles⟩
      have hvalue := OrderedMap.mem_values_iff.mpr ⟨name, htable⟩
      refine hall table hvalue key ⟨table, accessor, ?_, hdangles⟩
      rw [hschema.filed htable, htable]
  rw [hplans.values_eq, List.mapM_map, hanchored]
  refine mapM_eq_ok_map_iff fun table htable item ↦ ?_
  exact rowType_eq_ok_iff hschema hplans (hschema.filed.mem_values_iff.mp htable)

/-- A table that cannot be written stops at an accessor that leads to no table. -/
theorem exists_dangles_of_rowType (hschema : schema.Regular) (hplans : Plan.Plans schema plan)
    {name : String} {table : Table} (htable : schema.table? name = some table)
    {stop : GenerationStop} (hstop : RowType.ofPlan plan table.planned = .error stop) :
    ∃ key, schema.Dangles name key ∧ stop = .danglingAccessor name key := by
  have hmethods : table.planned.accessors.mapM (RowType.method plan table.planned) =
      .error stop := by
    unfold RowType.ofPlan at hstop
    cases hall : table.planned.accessors.mapM (RowType.method plan table.planned) with
    | ok methods =>
      rw [hall] at hstop
      cases hstop
    | error other =>
      rw [hall] at hstop
      cases hstop
      rfl
  obtain ⟨entry, hentry, hfault⟩ := exists_of_mapM_eq_error hmethods
  obtain ⟨⟨key, accessor⟩, hmember, rfl⟩ := List.mem_map.mp hentry
  have haccessor := OrderedMap.get?_eq_some_of_mem hmember
  rw [method_eq hschema hplans htable haccessor] at hfault
  split_ifs at hfault with htarget
  cases hfault
  refine ⟨key, ⟨table, accessor, htable, haccessor, by simpa using htarget⟩, ?_⟩
  rw [hschema.filed htable]

theorem exists_dangles_of_rowTypes (hschema : schema.Regular) (hplans : Plan.Plans schema plan)
    {stop : GenerationStop}
    (hstop : plan.tables.values.mapM (RowType.ofPlan plan) = .error stop) :
    ∃ name key, schema.Dangles name key ∧ stop = .danglingAccessor name key := by
  obtain ⟨planned, hplanned, hfault⟩ := exists_of_mapM_eq_error hstop
  rw [hplans.values_eq] at hplanned
  obtain ⟨table, htable, rfl⟩ := List.mem_map.mp hplanned
  exact ⟨table.name,
    exists_dangles_of_rowType hschema hplans (hschema.filed.mem_values_iff.mp htable) hfault⟩

/-! ### Delete procedures -/

theorem entityDelete_eq (hschema : schema.Regular) (hplans : Plan.Plans schema plan) {table : Table}
    (htable : table ∈ schema.tables.values) :
    EntityDelete.ofPlan plan table.planned = .ok (table.entityDelete plan) := by
  have hsteps : (plan.relationsOf table.name).mapM (UnlinkStep.ofEntry table.planned) =
      .ok (table.entityDelete plan).steps := by
    refine mapM_eq_ok_map fun entry hentry ↦ ?_
    obtain ⟨hmember, hmanaging⟩ := Plan.mem_relationsOf_iff.mp hentry
    have hcollection := (hplans.resolved hschema hmember).2.has_collection
    obtain ⟨owner, accessor, howner, haccessor⟩ := Plan.hasAccessor_iff.mp hcollection
    rw [hmanaging, hschema.filed.mem_values_iff.mp htable] at howner
    cases howner
    rw [UnlinkStep.ofEntry, Table.method?_planned haccessor]
  exact bind_eq_ok_iff.mpr ⟨_, hsteps, rfl⟩

end Schema

/-- The procedure that removes the link rows of an entry, for the tables that the entry leads
over. -/
def RelationDelete.linkDelete (entry : RelationDelete) (link deleted : Table) : LinkDelete :=
  ⟨entry, .word link.name, ⟨link.procedureName⟩,
    entry.owned.map fun accessor ↦ ⟨.word accessor, ⟨deleted.procedureName⟩⟩⟩

namespace Schema

variable {schema : Schema} {plan : Plan}

/-- Every entry can be written, with the tables that it leads over. -/
theorem exists_linkDelete (hschema : schema.Regular) (hplans : Plan.Plans schema plan)
    {entry : RelationDelete} (hentry : entry ∈ plan.relationDeletes) :
    ∃ link deleted, schema.table? entry.link = some link ∧
      schema.table? entry.deleted = some deleted ∧
      (∀ key, entry.owned = some key → ∃ accessor, link.accessors.get? key = some accessor) ∧
      LinkDelete.ofEntry plan entry = .ok (entry.linkDelete link deleted) := by
  obtain ⟨-, hresolved⟩ := hplans.resolved hschema hentry
  obtain ⟨link, hlink⟩ := Option.isSome_iff_exists.mp hresolved.link_table
  obtain ⟨deleted, htarget, hname⟩ := hresolved.target
  have hdeleted : schema.table? entry.deleted = some deleted := by
    unfold Schema.resolve? at htarget
    split at htarget
    next name hresolve => rw [hname, hschema.filed htarget, htarget]
    next => cases htarget
  have howned : ∀ key, entry.owned = some key → ∃ accessor,
      link.accessors.get? key = some accessor := by
    intro key hkey
    obtain ⟨table, accessor, htable, haccessor⟩ :=
      Plan.hasAccessor_iff.mp (hresolved.has_owned key hkey)
    rw [hlink] at htable
    cases htable
    exact ⟨accessor, haccessor⟩
  refine ⟨link, deleted, hlink, hdeleted, howned, ?_⟩
  unfold LinkDelete.ofEntry RelationDelete.linkDelete
  rw [hplans.get?_eq, hplans.get?_eq, hlink, hdeleted]
  cases hkey : entry.owned with
  | none => rfl
  | some key =>
    obtain ⟨accessor, haccessor⟩ := howned key hkey
    simp only [Option.map_some, Table.method?_planned haccessor]
    rfl

/-- The items of a schema with a plan whose accessors all lead somewhere. -/
structure Writes (schema : Schema) (plan : Plan) (output : Output) : Prop where
  rowTypes : output.rowTypes = schema.tables.values.map Table.rowType
  entityDeletes : output.entityDeletes = schema.tables.values.map (Table.entityDelete plan)
  linkDeletes : List.Forall₂ (fun entry item ↦ LinkDelete.ofEntry plan entry = .ok item)
    plan.relationDeletes output.linkDeletes

/-- A prepared schema can be written if no accessor leads to no table. -/
theorem exists_output (hschema : schema.Regular) (hplans : Plan.Plans schema plan)
    (hanchored : ∀ name key, ¬ schema.Dangles name key) {preparation : Preparation}
    (hplan : preparation.plan = plan) :
    ∃ output, preparation.output schema = .ok output ∧ schema.Writes plan output := by
  have hrowTypes := (rowTypes_eq_ok_iff hschema hplans).mpr ⟨hanchored, rfl⟩
  have hentities : plan.tables.values.mapM (EntityDelete.ofPlan plan) =
      .ok (schema.tables.values.map (Table.entityDelete plan)) := by
    rw [hplans.values_eq, List.mapM_map]
    exact mapM_eq_ok_map fun table htable ↦ entityDelete_eq hschema hplans htable
  obtain ⟨links, hlinks⟩ : ∃ links, plan.relationDeletes.mapM (LinkDelete.ofEntry plan) =
      .ok links := by
    refine exists_mapM_eq_ok fun entry hentry ↦ ?_
    obtain ⟨link, deleted, -, -, -, hitem⟩ := exists_linkDelete hschema hplans hentry
    exact ⟨_, hitem⟩
  refine ⟨⟨preparation.runtime, preparation.imports, preparation.configuration,
    schema.tables.values.map Table.rowType, schema.tables.values.map (Table.entityDelete plan),
    links, .ofPlan schema plan⟩, ?_, rfl, rfl, mapM_eq_ok_iff.mp hlinks⟩
  unfold Preparation.output
  dsimp only
  rw [hplan, hrowTypes, hentities, hlinks]
  rfl

/-- What becomes of a regular schema with valid settings: it is refused for want of a plan, it is
written, or generation stops at an accessor that leads to no table. -/
theorem generate_cases [Grammar] (hschema : schema.Regular) {settings : Settings}
    (hsettings : settings.Valid) :
    (∃ fault, Plan.ofSchema schema = .error (.refused fault) ∧
      schema.generate settings = .error (.refused fault)) ∨
    (∃ plan output, Plan.ofSchema schema = .ok plan ∧ (∀ name key, ¬ schema.Dangles name key) ∧
      schema.generate settings = .ok output ∧ schema.Writes plan output) ∨
    ∃ plan name key, Plan.ofSchema schema = .ok plan ∧ schema.Dangles name key ∧
      schema.generate settings = .error (.danglingAccessor name key) := by
  obtain ⟨preparation, hpreparation, hprepare⟩ := hsettings.exists_prepare schema
  have hgenerate : schema.generate settings =
      (Plan.ofSchema schema).map preparation >>= fun prepared ↦ prepared.output schema := by
    rw [← hprepare]
    rfl
  cases hplan : Plan.ofSchema schema with
  | error stop =>
    obtain ⟨fault, rfl⟩ := Plan.settled_ofSchema hschema stop hplan
    refine Or.inl ⟨fault, rfl, ?_⟩
    rw [hgenerate, hplan]
    rfl
  | ok plan =>
    obtain ⟨-, hplans, -⟩ := (Plan.ofSchema_eq_ok_iff hschema).mp hplan
    have houtput : schema.generate settings = (preparation plan).output schema := by
      rw [hgenerate, hplan]
      rfl
    by_cases hanchored : ∀ name key, ¬ schema.Dangles name key
    · obtain ⟨output, hwritten, hwrites⟩ :=
        exists_output hschema hplans hanchored (hpreparation plan)
      exact Or.inr (Or.inl ⟨plan, output, rfl, hanchored, houtput.trans hwritten, hwrites⟩)
    · cases hrowTypes : plan.tables.values.mapM (RowType.ofPlan plan) with
      | ok items => exact absurd ((rowTypes_eq_ok_iff hschema hplans).mp hrowTypes).1 hanchored
      | error stop =>
        obtain ⟨name, key, hdangles, rfl⟩ := exists_dangles_of_rowTypes hschema hplans hrowTypes
        refine Or.inr (Or.inr ⟨plan, name, key, rfl, hdangles, houtput.trans ?_⟩)
        unfold Preparation.output
        dsimp only
        rw [hpreparation plan, hrowTypes]
        rfl

end Schema

/-! ### Items that lead to one another -/

namespace Output

/-- The code of a table is among the items. -/
def HasTable (output : Output) (name : String) (item : RowType) : Prop :=
  item ∈ output.rowTypes ∧ item.plan.table.name = name

/-- Everything that an item leads to is among the items. -/
structure SelfContained (output : Output) : Prop where
  /-- A method leads to the rows of a table, from a field of its own one. -/
  accessors : ∀ item ∈ output.rowTypes, List.Forall₂ (fun entry method ↦
    (∃ target, output.HasTable entry.accessor.target target ∧
      method.target = target.plan.rowType) ∧
    method.start ∈ item.plan.columns.map ColumnPlan.field) item.plan.accessors item.methods
  /-- The columns that show a row have fields. -/
  shown : ∀ item ∈ output.rowTypes, ∀ column ∈ item.plan.table.shown,
    (item.plan.field? column).isSome = true
  /-- Every table has a procedure that deletes a row, and what the procedure leads to is there. -/
  entityDeletes : List.Forall₂ (fun row item ↦ item.table = row.plan.table.name ∧
    item.rowType = row.plan.rowType ∧ item.procedure = row.plan.procedure ∧
    ∀ step ∈ item.steps, step.method ∈ row.plan.accessors.map AccessorPlan.method ∧
      ∃ link ∈ output.linkDeletes, link.entry.managing = item.table ∧
        link.entry.procedure = step.procedure) output.rowTypes output.entityDeletes
  /-- The procedure of a direction leads from a table over link rows to another table. -/
  linkDeletes : ∀ item ∈ output.linkDeletes, ∃ managing link deleted,
    output.HasTable item.entry.managing managing ∧ output.HasTable item.entry.link link ∧
    output.HasTable item.entry.deleted deleted ∧ item.linkType = link.plan.rowType ∧
    item.linkProcedure = link.plan.procedure ∧ ∀ step ∈ item.owned,
      step.method ∈ link.plan.accessors.map AccessorPlan.method ∧
        step.procedure = deleted.plan.procedure

end Output

namespace Schema.Writes

variable {schema : Schema} {plan : Plan} {output : Output}

theorem hasTable (hwrites : schema.Writes plan output) (hfiled : schema.Filed) {name : String}
    {table : Table} (htable : schema.table? name = some table) :
    output.HasTable name table.rowType := by
  refine ⟨?_, hfiled htable⟩
  rw [hwrites.rowTypes]
  exact List.mem_map_of_mem (OrderedMap.mem_values_iff.mpr ⟨name, htable⟩)

theorem mem_methods {table : Table} {key : String} {accessor : Accessor}
    (haccessor : table.accessors.get? key = some accessor) :
    Identifier.word key ∈ table.planned.accessors.map AccessorPlan.method :=
  List.mem_map.mpr ⟨_, List.mem_map_of_mem (OrderedMap.mem_of_get?_eq_some haccessor), rfl⟩

theorem accessors_selfContained (hwrites : schema.Writes plan output) (hschema : schema.Regular)
    (hanchored : ∀ name key, ¬ schema.Dangles name key) {table : Table}
    (htable : table ∈ schema.tables.values) :
    List.Forall₂ (fun entry method ↦
      (∃ target, output.HasTable entry.accessor.target target ∧
        method.target = target.plan.rowType) ∧
      method.start ∈ table.planned.columns.map ColumnPlan.field)
      table.rowType.plan.accessors table.rowType.methods := by
  have hget := hschema.filed.mem_values_iff.mp htable
  unfold Table.rowType Table.planned
  rw [List.forall₂_map_left_iff, List.forall₂_map_right_iff, List.forall₂_same]
  intro entry hentry
  have haccessor := OrderedMap.get?_eq_some_of_mem hentry
  obtain ⟨target, htarget⟩ : ∃ target, schema.table? entry.2.target = some target := by
    rw [← Option.ne_none_iff_exists']
    exact fun hnone ↦ hanchored _ entry.1 ⟨table, entry.2, hget, haccessor, hnone⟩
  refine ⟨⟨target.rowType, hwrites.hasTable hschema.filed htarget, ?_⟩, ?_⟩
  · have hname : target.rowType.plan.rowType = .word entry.2.target := by
      rw [← hschema.filed htarget]
      rfl
    rw [hname]
    unfold Accessor.method
    split <;> rfl
  · have hstart : (entry.2.method entry.1).start = .word entry.2.start := by
      unfold Accessor.method
      split <;> rfl
    rw [hstart]
    obtain ⟨column, hcolumn, hname⟩ :=
      List.mem_map.mp ((hschema.tables hget).accessors haccessor).2
    rw [← hname]
    exact List.mem_map.mpr ⟨column.planned, List.mem_map_of_mem hcolumn, rfl⟩

theorem exists_linkDelete_of_mem (hwrites : schema.Writes plan output) {entry : RelationDelete}
    (hentry : entry ∈ plan.relationDeletes) (hschema : schema.Regular)
    (hplans : Plan.Plans schema plan) :
    ∃ item ∈ output.linkDeletes, item.entry = entry := by
  obtain ⟨item, hitem, hwritten⟩ := exists_right_of_forall₂ hwrites.linkDeletes hentry
  obtain ⟨link, deleted, -, -, -, hother⟩ := exists_linkDelete hschema hplans hentry
  rw [hother] at hwritten
  cases hwritten
  exact ⟨_, hitem, rfl⟩

theorem entityDelete_selfContained (hwrites : schema.Writes plan output)
    (hschema : schema.Regular) (hplans : Plan.Plans schema plan) {table : Table}
    (htable : table ∈ schema.tables.values) {step : UnlinkStep}
    (hstep : step ∈ (table.entityDelete plan).steps) :
    step.method ∈ table.planned.accessors.map AccessorPlan.method ∧
      ∃ link ∈ output.linkDeletes, link.entry.managing = table.name ∧
        link.entry.procedure = step.procedure := by
  obtain ⟨entry, hentry, rfl⟩ := List.mem_map.mp hstep
  obtain ⟨hmember, hmanaging⟩ := Plan.mem_relationsOf_iff.mp hentry
  obtain ⟨owner, accessor, howner, haccessor⟩ :=
    Plan.hasAccessor_iff.mp (hplans.resolved hschema hmember).2.has_collection
  rw [hmanaging, hschema.filed.mem_values_iff.mp htable] at howner
  cases howner
  obtain ⟨item, hitem, rfl⟩ := hwrites.exists_linkDelete_of_mem hmember hschema hplans
  exact ⟨mem_methods haccessor, item, hitem, hmanaging, rfl⟩

/-- What is written for a schema leads nowhere else. -/
theorem selfContained (hwrites : schema.Writes plan output) (hschema : schema.Regular)
    (hplans : Plan.Plans schema plan) (hanchored : ∀ name key, ¬ schema.Dangles name key) :
    output.SelfContained where
  accessors := by
    intro item hitem
    rw [hwrites.rowTypes] at hitem
    obtain ⟨table, htable, rfl⟩ := List.mem_map.mp hitem
    exact hwrites.accessors_selfContained hschema hanchored htable
  shown := by
    intro item hitem column hcolumn
    rw [hwrites.rowTypes] at hitem
    obtain ⟨table, htable, rfl⟩ := List.mem_map.mp hitem
    have hfield : table.rowType.plan.field? column = some (.word column) :=
      Table.field?_planned ((hschema.table htable).shown column hcolumn)
    rw [hfield]
    rfl
  entityDeletes := by
    rw [hwrites.rowTypes, hwrites.entityDeletes, List.forall₂_map_left_iff,
      List.forall₂_map_right_iff, List.forall₂_same]
    exact fun table htable ↦ ⟨rfl, rfl, rfl, fun step hstep ↦
      hwrites.entityDelete_selfContained hschema hplans htable hstep⟩
  linkDeletes := by
    intro item hitem
    obtain ⟨entry, hentry, hwritten⟩ := exists_left_of_forall₂ hwrites.linkDeletes hitem
    obtain ⟨link, deleted, hlink, hdeleted, howned, hother⟩ :=
      exists_linkDelete hschema hplans hentry
    rw [hother] at hwritten
    cases hwritten
    obtain ⟨managing, hmanaging⟩ :=
      Option.isSome_iff_exists.mp (hplans.resolved hschema hentry).1
    refine ⟨managing.rowType, link.rowType, deleted.rowType,
      hwrites.hasTable hschema.filed hmanaging, hwrites.hasTable hschema.filed hlink,
      hwrites.hasTable hschema.filed hdeleted, rfl, rfl, fun step hstep ↦ ?_⟩
    obtain ⟨key, hkey, rfl⟩ := Option.map_eq_some_iff.mp (Option.mem_def.mp hstep)
    obtain ⟨accessor, haccessor⟩ := howned key hkey
    exact ⟨mem_methods haccessor, rfl⟩

end Schema.Writes

/-! ### Edited schemas -/

namespace Schema

/-- After any edits of a schema that was read, and for valid settings, generation either refuses the
schema or gives items that lead to one another, except where the schema has a plan and an accessor
that leads to no table: there it stops at such an accessor. -/
theorem generate_edited [Grammar] {source : String} {built : Schema}
    (hread : Schema.read source = .ok built) (changes : List Edit) {settings : Settings}
    (hsettings : settings.Valid) {schema : Schema}
    (hedited : schema = changes.foldl Schema.edit built) :
    ((∃ fault, schema.generate settings = .error (.refused fault)) ∨
        (∃ output, schema.generate settings = .ok output ∧ output.SelfContained) ↔
      ¬ ((∃ plan, Plan.ofSchema schema = .ok plan) ∧ ∃ name key, schema.Dangles name key)) ∧
    ((∃ plan, Plan.ofSchema schema = .ok plan) → (∃ name key, schema.Dangles name key) →
      ∃ name key, schema.Dangles name key ∧
        schema.generate settings = .error (.danglingAccessor name key)) := by
  have hregular : schema.Regular := hedited ▸ (regular_of_read hread).edits changes
  rcases generate_cases hregular hsettings with ⟨fault, hplan, hrefused⟩ |
    ⟨plan, output, hplan, hanchored, hwritten, hwrites⟩ | ⟨plan, name, key, hplan, hdangles, hstop⟩
  · have hnone : ¬ ∃ plan, Plan.ofSchema schema = .ok plan := by
      rintro ⟨plan, hother⟩
      rw [hplan] at hother
      cases hother
    exact ⟨iff_of_true (Or.inl ⟨fault, hrefused⟩) fun hboth ↦ hnone hboth.1,
      fun hplanned ↦ absurd hplanned hnone⟩
  · obtain ⟨-, hplans, -⟩ := (Plan.ofSchema_eq_ok_iff hregular).mp hplan
    have hself := hwrites.selfContained hregular hplans hanchored
    refine ⟨iff_of_true (Or.inr ⟨output, hwritten, hself⟩) ?_, fun _ hdangles ↦ ?_⟩
    · rintro ⟨-, name, key, hdangles⟩
      exact hanchored name key hdangles
    · obtain ⟨name, key, hdangles⟩ := hdangles
      exact absurd hdangles (hanchored name key)
  · refine ⟨iff_of_false ?_ fun hnot ↦ hnot ⟨⟨plan, hplan⟩, name, key, hdangles⟩,
      fun _ _ ↦ ⟨name, key, hdangles, hstop⟩⟩
    rintro (⟨fault, hother⟩ | ⟨output, hother, -⟩)
    · rw [hstop] at hother
      cases hother
    · rw [hstop] at hother
      cases hother

/-- Two tables with a relation. -/
def twins : String := "A(id: int) \x7b\x7d\nB(id: int) \x7b\x7d\nA <-> B \x7b\x7d\n"

/-- Without one of the tables and without the relation of the other one, the link entity still leads
to the table that is gone. -/
def severed : List Edit := [.removeTable "A", .unrelate "B" "a"]

theorem generate_edited_twins : ∃ built, Schema.read twins = .ok built ∧
    ∃ name key, (severed.foldl Schema.edit built).Dangles name key ∧
      (severed.foldl Schema.edit built).generate {} = .error (.danglingAccessor name key) := by
  have hsettings : ({} : Settings).Valid := ⟨by decide +kernel, by decide +kernel, by decide +kernel⟩
  have hstopped : ((Schema.read twins).toOption.bind fun built ↦
      match (severed.foldl Schema.edit built).generate {} with
      | .error (.danglingAccessor _ _) => some ()
      | _ => none).isSome = true := by decide +kernel
  match hread : Schema.read twins with
  | .ok built =>
    obtain ⟨hconforms, hstops⟩ := generate_edited hread severed hsettings rfl
    have hfails : ¬ ((∃ fault, (severed.foldl Schema.edit built).generate {} =
          .error (.refused fault)) ∨
        ∃ output, (severed.foldl Schema.edit built).generate {} = .ok output ∧
          output.SelfContained) := by
      rintro (⟨fault, hrefused⟩ | ⟨output, hwritten, -⟩)
      · simp [hread, hrefused, Except.toOption] at hstopped
      · simp [hread, hwritten, Except.toOption] at hstopped
    obtain ⟨hplan, hdangles⟩ := not_not.mp (mt hconforms.mpr hfails)
    exact ⟨built, rfl, hstops hplan hdangles⟩
  | .error cause => simp [hread, Except.toOption] at hstopped

end Schema

end SchemaCompiler
