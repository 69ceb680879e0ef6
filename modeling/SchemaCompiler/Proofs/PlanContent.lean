import SchemaCompiler.Proofs.RegularSchema

/-!
# The plan of a regular schema

Planning a regular schema has two outcomes: a plan, or a refusal with a message (`settled_ofSchema`).
The plan can be written down beforehand. Each table has the identifiers of its own names
(`Table.planned`), and `Plan.ofTable_eq` says exactly when a table gets them: its name is not
reserved, the name of its procedure is free, and no name of it stands for a place among modules.
Over all tables and directions this comes to `Plan.ofSchema_eq_ok_iff`.
-/

set_option autoImplicit false
set_option relaxedAutoImplicit false

namespace SchemaCompiler

open Target (Identifier placeWords)

/-! ### Outcomes -/

/-- An outcome that is a result or a refusal. -/
def Settled {Value : Type} (outcome : Except GenerationStop Value) : Prop :=
  ∀ stop, outcome = .error stop → ∃ fault, stop = .refused fault

theorem settled_ok {Value : Type} (value : Value) : Settled (.ok value) := by
  intro stop hstop
  cases hstop

theorem settled_refused {Value : Type} (fault : CodeFault) :
    Settled (.error (.refused fault) : Except GenerationStop Value) := by
  intro stop hstop
  cases hstop
  exact ⟨fault, rfl⟩

theorem Settled.bind {Item Value : Type} {first : Except GenerationStop Item}
    {next : Item → Except GenerationStop Value} (hfirst : Settled first)
    (hnext : ∀ item, first = .ok item → Settled (next item)) : Settled (first >>= next) := by
  cases first with
  | ok item => exact hnext item rfl
  | error stop =>
    obtain ⟨fault, rfl⟩ := hfirst stop rfl
    exact settled_refused fault

/-! ### Names to be written -/

namespace Plan

/-- The outcome for a part of the code with the names that it uses: the first one that stands for a
place among modules is refused. -/
def written {Value : Type} (names : List String) (value : Value) : Except GenerationStop Value :=
  match names.find? fun name ↦ placeWords.contains name with
  | some name => .error (.refused (.unusableName name))
  | none => .ok value

theorem written_eq_ok_iff {Value : Type} {names : List String} {value result : Value} :
    written names value = .ok result ↔
      (∀ name ∈ names, name ∉ placeWords) ∧ result = value := by
  unfold written
  split
  next name hfound =>
    simp only [reduceCtorEq, false_iff, not_and]
    intro hall
    exact absurd (by simpa using List.find?_some hfound)
      (hall name (List.mem_of_find?_eq_some hfound))
  next hnone =>
    have hall : ∀ name ∈ names, name ∉ placeWords := by simpa [List.find?_eq_none] using hnone
    simp only [Except.ok.injEq, @eq_comm _ value, iff_and_self]
    exact fun _ ↦ hall

theorem settled_written {Value : Type} (names : List String) (value : Value) :
    Settled (written names value) := by
  unfold written
  split
  · exact settled_refused _
  · exact settled_ok value

/-- What is written after some names is refused for the first of all. -/
theorem written_bind {Item Value : Type} {names more : List String} {item : Item} {value : Value}
    {next : Item → Except GenerationStop Value} (hnext : next item = written more value) :
    written names item >>= next = written (names ++ more) value := by
  unfold written
  rw [List.find?_append]
  cases names.find? fun name ↦ placeWords.contains name with
  | some name => rfl
  | none => exact hnext

theorem written_map {Item Value : Type} {names : List String} {item : Item} (make : Item → Value) :
    (written names item >>= fun item ↦ pure (make item)) = written names (make item) := by
  unfold written
  cases names.find? fun name ↦ placeWords.contains name <;> rfl

theorem mapM_written {Item Value : Type} {step : Item → Except GenerationStop Value}
    {names : Item → List String} {value : Item → Value} {items : List Item}
    (hstep : ∀ item ∈ items, step item = written (names item) (value item)) :
    items.mapM step = written (items.flatMap names) (items.map value) := by
  induction items with
  | nil => rfl
  | cons item rest ih =>
    rw [List.forall_mem_cons] at hstep
    rw [List.mapM_cons, hstep.1, ih hstep.2, List.flatMap_cons]
    exact written_bind (written_map (value item :: ·))

/-- A symbol is written as its identifier. -/
theorem identifier_eq_written {name : String} (hname : IsSymbol name.toList) :
    identifier name = written [name] (.word name) := by
  rw [identifier_of_isSymbol hname]
  by_cases hplace : name ∈ placeWords
  · simp [written, hplace]
  · simp [written, hplace]

end Plan

/-! ### Tables -/

/-- The plan of a column. -/
def Column.planned (column : Column) : ColumnPlan :=
  ⟨column, .word column.name, column.type.enumeration?.map .word⟩

namespace Table

/-- The name of the procedure that deletes a row. -/
def procedureName (table : Table) : String := "delete_" ++ table.storage

/-- The names of a table in the written code. -/
def names (table : Table) : List String :=
  table.columns.flatMap Column.names ++ (table.accessors.keys ++ [table.name])

/-- The plan of a table. -/
def planned (table : Table) : TablePlan where
  table := table
  rowType := .word table.name
  procedure := ⟨table.procedureName⟩
  columns := table.columns.map Column.planned
  accessors := table.accessors.entries.map fun entry ↦ ⟨entry.1, entry.2, .word entry.1⟩

/-- A table whose names can all be written. -/
structure Writable (table : Table) : Prop where
  unreserved : table.name ∉ reservedItems
  usable : ∀ name ∈ table.names, name ∉ placeWords

end Table

namespace Plan

theorem ofColumn_eq {column : Column} (hcolumn : ∀ name ∈ column.names, IsSymbol name.toList) :
    ofColumn column = written column.names column.planned := by
  unfold Column.names Column.planned ofColumn at *
  rw [List.forall_mem_cons] at hcolumn
  rw [identifier_eq_written hcolumn.1]
  refine written_bind ?_
  cases htype : column.type with
  | enumeration symbol =>
    rw [htype] at hcolumn
    simp only [ColumnType.enumeration?, Option.map_some]
    rw [identifier_eq_written (hcolumn.2 symbol (by simp [ColumnType.enumeration?]))]
    exact written_map fun type ↦ ColumnPlan.mk column (.word column.name) (some type)
  | integer => rfl
  | smallInteger => rfl
  | text limit => rfl
  | dateTime => rfl
  | date => rfl

theorem ofAccessor_eq {entry : String × Accessor} (hentry : IsSymbol entry.1.toList) :
    ofAccessor entry = written [entry.1] ⟨entry.1, entry.2, .word entry.1⟩ := by
  rw [ofAccessor, identifier_eq_written hentry]
  exact written_map fun method ↦ AccessorPlan.mk entry.1 entry.2 method

/-- What becomes of a regular table: it is refused if its name is reserved, if the name of its
procedure is taken, or if one of its names stands for a place among modules. -/
theorem ofTable_eq {table : Table} (htable : table.Regular) (procedures : Procedures) :
    ofTable procedures table =
      if table.name ∈ reservedItems then .error (.refused (.reservedTable table.name))
      else match procedures.get? table.procedureName with
        | some existing =>
          .error (.refused (.duplicateProcedure table.procedureName existing table.name))
        | none =>
          written table.names (procedures.insert table.procedureName table.name, table.planned) := by
  have hcolumns : table.columns.mapM ofColumn =
      written (table.columns.flatMap Column.names) (table.columns.map Column.planned) :=
    mapM_written fun column hcolumn ↦ ofColumn_eq (htable.columns column hcolumn)
  have haccessors : table.accessors.entries.mapM ofAccessor =
      written (table.accessors.entries.flatMap fun entry ↦ [entry.1])
        (table.accessors.entries.map fun entry ↦ ⟨entry.1, entry.2, .word entry.1⟩) :=
    mapM_written fun entry hentry ↦
      ofAccessor_eq (htable.accessors (OrderedMap.get?_eq_some_of_mem hentry)).1
  have hkeys : (table.accessors.entries.flatMap fun entry ↦ [entry.1]) = table.accessors.keys :=
    List.map_eq_flatMap.symm
  unfold ofTable
  simp only [List.contains_iff_mem]
  split_ifs with hreserved
  · rfl
  · rw [identifier_delete htable.storage]
    change addProcedure procedures ⟨table.procedureName⟩ table.name >>= _ = _
    cases hfree : procedures.get? table.procedureName with
    | some existing =>
      simp only [addProcedure, hfree]
      rfl
    | none =>
      simp only [addProcedure, hfree]
      change (table.columns.mapM ofColumn >>= _) = _
      rw [hcolumns, haccessors, hkeys, identifier_eq_written htable.name]
      refine written_bind ?_
      refine written_bind ?_
      exact written_map fun rowType ↦
        (procedures.insert table.procedureName table.name, { table.planned with rowType := rowType })

theorem ofTable_eq_ok_iff {table : Table} (htable : table.Regular) {procedures next : Procedures}
    {plan : TablePlan} :
    ofTable procedures table = .ok (next, plan) ↔
      table.Writable ∧ procedures.get? table.procedureName = none ∧
        next = procedures.insert table.procedureName table.name ∧ plan = table.planned := by
  rw [ofTable_eq htable]
  by_cases hreserved : table.name ∈ reservedItems
  · rw [if_pos hreserved]
    simp only [reduceCtorEq, false_iff, not_and]
    exact fun hwritable ↦ absurd hreserved hwritable.unreserved
  · rw [if_neg hreserved]
    cases hfree : procedures.get? table.procedureName with
    | some existing => simp
    | none =>
      simp only [written_eq_ok_iff, Prod.mk.injEq, true_and]
      refine and_congr_left fun _ ↦ ?_
      exact ⟨fun husable ↦ ⟨hreserved, husable⟩, Table.Writable.usable⟩

theorem settled_ofTable {table : Table} (htable : table.Regular) (procedures : Procedures) :
    Settled (ofTable procedures table) := by
  rw [ofTable_eq htable]
  split
  · exact settled_refused _
  · split
    · exact settled_refused _
    · exact settled_written _ _

/-- Regular tables can be planned in turn exactly if each can be written and their procedures have
names of their own. -/
theorem ofTables_eq_ok_iff {tables : List Table} (htables : ∀ table ∈ tables, table.Regular) :
    ∀ {procedures last : Procedures} {plans result : OrderedMap TablePlan},
      ofTables procedures plans tables = .ok (last, result) ↔
        (∀ table ∈ tables, table.Writable) ∧
          Free procedures (tables.map Table.procedureName) ∧
          last = tables.foldl
            (fun procedures table ↦ procedures.insert table.procedureName table.name) procedures ∧
          result = tables.foldl (fun plans table ↦ plans.insert table.name table.planned) plans := by
  induction tables with
  | nil =>
    intro procedures last plans result
    simp [ofTables, free_nil, pure, Except.pure, @eq_comm _ _ last, @eq_comm _ _ result]
  | cons table rest ih =>
    intro procedures last plans result
    rw [List.forall_mem_cons] at htables
    have hcons : ofTables procedures plans (table :: rest) = .ok (last, result) ↔
        ∃ next plan, ofTable procedures table = .ok (next, plan) ∧
          ofTables next (plans.insert table.name plan) rest = .ok (last, result) := by
      rw [ofTables, bind_eq_ok_iff, Prod.exists]
    simp only [hcons, ofTable_eq_ok_iff htables.1, ih htables.2, List.forall_mem_cons,
      List.map_cons, List.foldl_cons, free_cons_iff table.name]
    constructor
    · rintro ⟨next, plan, ⟨hwritable, hfree, rfl, rfl⟩, hrest, hnames, hlast, hresult⟩
      exact ⟨⟨hwritable, hrest⟩, ⟨hfree, hnames⟩, hlast, hresult⟩
    · rintro ⟨⟨hwritable, hrest⟩, ⟨hfree, hnames⟩, hlast, hresult⟩
      exact ⟨_, _, ⟨hwritable, hfree, rfl, rfl⟩, hrest, hnames, hlast, hresult⟩

theorem settled_ofTables {tables : List Table} (htables : ∀ table ∈ tables, table.Regular) :
    ∀ (procedures : Procedures) (plans : OrderedMap TablePlan),
      Settled (ofTables procedures plans tables) := by
  induction tables with
  | nil =>
    intro procedures plans
    exact settled_ok _
  | cons table rest ih =>
    intro procedures plans
    rw [List.forall_mem_cons] at htables
    refine (settled_ofTable htables.1 procedures).bind fun item _ ↦ ?_
    exact ih htables.2 item.1 (plans.insert table.name item.2)

/-! ### Directions -/

theorem settled_require (managing lower : String) (part : RelationPart) (holds : String → Bool)
    (found : Option String) : Settled (require managing lower part holds found) := by
  cases found with
  | none => exact settled_refused _
  | some name =>
    simp only [require]
    split
    · exact settled_ok name
    · exact settled_refused _

end Plan

/-- The name of the procedure of a direction. -/
def directionName (direction : String × String) : String :=
  "delete_" ++ direction.2 ++ "_from_" ++ Name.lower direction.1

namespace Plan

variable {schema : Schema}

/-- The procedure of a direction of a regular schema is named as it is written. -/
theorem identifier_directionName (hschema : schema.Regular) {managing lower : String}
    (hmanaging : (schema.table? managing).isSome = true)
    (hlower : (schema.resolve? lower).isSome = true) :
    identifier ("delete_" ++ lower ++ "_from_" ++ Name.lower managing) =
      .ok ⟨directionName (managing, lower)⟩ := by
  obtain ⟨table, htable⟩ := Option.isSome_iff_exists.mp hmanaging
  obtain ⟨target, htarget⟩ := Option.isSome_iff_exists.mp hlower
  have hname : IsWord (Name.lower managing) := by
    rw [← hschema.filed htable]
    exact (Name.isSymbol_lower (hschema.tables htable).name).isWord
  have hword : IsWord lower := by
    unfold Schema.resolve? at htarget
    split at htarget
    next name hresolve => exact (hschema.lowers hresolve).isWord
    next => cases htarget
  have hfrom : IsWord "_from_" := by decide
  have hdelete := identifier_delete ((hword.append hfrom).append hname)
  simpa only [directionName, String.append_assoc] using hdelete

theorem settled_ofRelation (hschema : schema.Regular) {managing : String}
    (hmanaging : (schema.table? managing).isSome = true) (lower : String) :
    Settled (ofRelation schema managing lower) := by
  unfold ofRelation
  split
  · exact settled_refused _
  next target htarget =>
    refine (settled_require _ _ _ _ _).bind fun link _ ↦ ?_
    refine (settled_require _ _ _ _ _).bind fun collection _ ↦ ?_
    have hlower : (schema.resolve? lower).isSome = true := by simp [htarget]
    rw [identifier_directionName hschema hmanaging hlower]
    dsimp only
    split
    · exact settled_ok _
    · refine Settled.bind ?_ fun owned _ ↦ settled_ok _
      rw [map_eq_pure_bind]
      exact (settled_require _ _ _ _ _).bind fun name _ ↦ settled_ok _

theorem settled_ofDirections (hschema : schema.Regular) {directions : List (String × String)}
    (hdirections : ∀ direction ∈ directions, (schema.table? direction.1).isSome = true) :
    ∀ procedures : Procedures, Settled (ofDirections schema procedures directions) := by
  induction directions with
  | nil =>
    intro procedures
    exact settled_ok _
  | cons direction rest ih =>
    intro procedures
    rw [List.forall_mem_cons] at hdirections
    refine (settled_ofRelation hschema hdirections.1 direction.2).bind fun entry _ ↦ ?_
    refine Settled.bind ?_ fun next _ ↦ (ih hdirections.2 next).bind fun others _ ↦ settled_ok _
    unfold addProcedure
    split
    · exact settled_refused _
    · exact settled_ok _

/-! ### Schemas -/

theorem isSome_table?_of_mem_directions (hschema : schema.Regular) {direction : String × String}
    (hdirection : direction ∈ directions schema) : (schema.table? direction.1).isSome = true := by
  obtain ⟨table, htable, hdirection⟩ := List.mem_flatMap.mp hdirection
  obtain ⟨lower, -, rfl⟩ := List.mem_map.mp hdirection
  rw [hschema.filed.mem_values_iff.mp htable]
  rfl

/-- A regular schema has a plan or is refused. -/
theorem settled_ofSchema (hschema : schema.Regular) : Settled (Plan.ofSchema schema) := by
  refine (settled_ofTables (fun table htable ↦ hschema.table htable) _ _).bind fun item _ ↦ ?_
  refine Settled.bind ?_ fun entries _ ↦ settled_ok _
  exact settled_ofDirections hschema
    (fun direction hdirection ↦ isSome_table?_of_mem_directions hschema hdirection) _

/-- A plan that a regular schema may have: the planned tables in their order, and an entry for each
direction. -/
structure Plans (schema : Schema) (plan : Plan) : Prop where
  tables : plan.tables.entries = schema.tables.entries.map fun entry ↦ (entry.1, entry.2.planned)
  relationDeletes : List.Forall₂
    (fun direction entry ↦ ofRelation schema direction.1 direction.2 = .ok entry)
    (directions schema) plan.relationDeletes

/-- The names of the procedures of a schema, those of tables first. -/
def procedureNames (schema : Schema) : List String :=
  schema.tables.values.map Table.procedureName ++ (directions schema).map directionName

/-- The entries of directions of a regular schema have the procedures that the directions name. -/
theorem map_procedure_eq (hschema : schema.Regular) {directions : List (String × String)}
    (hdirections : ∀ direction ∈ directions, (schema.table? direction.1).isSome = true)
    {entries : List RelationDelete}
    (hentries : List.Forall₂
      (fun direction entry ↦ ofRelation schema direction.1 direction.2 = .ok entry)
      directions entries) :
    (entries.map fun entry ↦ entry.procedure.text) = directions.map directionName := by
  induction hentries with
  | nil => rfl
  | @cons direction entry _ _ hentry _ ih =>
    rw [List.forall_mem_cons] at hdirections
    obtain ⟨hmanaging, hlower, hresolved⟩ := ofRelation_eq_ok_iff.mp hentry
    obtain ⟨target, htarget, -⟩ := hresolved.target
    have hsome : (schema.resolve? direction.2).isSome = true := by simp [← hlower, htarget]
    have hprocedure := hresolved.procedure
    rw [hmanaging, hlower, identifier_directionName hschema hdirections.1 hsome] at hprocedure
    rw [List.map_cons, List.map_cons, ih hdirections.2, ← Except.ok.inj hprocedure]

/-- Procedures can be named in two parts exactly if all their names differ. -/
theorem free_and_free_iff {tables : List Table} {names : List String} :
    Free .empty (tables.map Table.procedureName) ∧
        Free (tables.foldl
          (fun procedures table ↦ procedures.insert table.procedureName table.name) .empty) names ↔
      (tables.map Table.procedureName ++ names).Nodup := by
  simp only [Free, OrderedMap.get?_foldl_insert_eq_none_iff, OrderedMap.get?_empty, implies_true,
    and_true, true_and, List.nodup_append]
  refine and_congr_right fun _ ↦ and_congr_right fun _ ↦ ?_
  constructor
  · rintro hapart first hfirst second hsecond rfl
    exact hapart first hsecond hfirst
  · intro hapart name hname hmember
    exact hapart name hmember name hname rfl

theorem entries_planned (hfiled : schema.Filed) :
    (schema.tables.values.foldl (fun plans table ↦ plans.insert table.name table.planned)
      (.empty : OrderedMap TablePlan)).entries =
        schema.tables.entries.map fun entry ↦ (entry.1, entry.2.planned) := by
  rw [OrderedMap.entries_foldl_insert (nodup_names hfiled) fun _ _ ↦ rfl, OrderedMap.values,
    List.map_map]
  refine List.map_congr_left fun entry hentry ↦ ?_
  rw [Function.comp_apply, hfiled (OrderedMap.get?_eq_some_of_mem hentry)]

/-- A regular schema has a plan exactly if its tables can be written, its directions can be resolved
and its procedures have names of their own. -/
theorem ofSchema_eq_ok_iff (hschema : schema.Regular) {plan : Plan} :
    Plan.ofSchema schema = .ok plan ↔
      (∀ table ∈ schema.tables.values, table.Writable) ∧ Plans schema plan ∧
        (procedureNames schema).Nodup := by
  have htables : ∀ table ∈ schema.tables.values, table.Regular :=
    fun table htable ↦ hschema.table htable
  have hdirections : ∀ direction ∈ directions schema, (schema.table? direction.1).isSome = true :=
    fun direction hdirection ↦ isSome_table?_of_mem_directions hschema hdirection
  constructor
  · intro hplan
    obtain ⟨procedures, hplanned, hentries⟩ := ofSchema_eq_ok hplan
    obtain ⟨hwritable, hfree, rfl, hresult⟩ := (ofTables_eq_ok_iff htables).mp hplanned
    obtain ⟨hresolved, hnames⟩ := ofDirections_eq_ok_iff.mp hentries
    refine ⟨hwritable, ⟨?_, hresolved⟩, ?_⟩
    · rw [hresult, entries_planned hschema.filed]
    · rw [map_procedure_eq hschema hdirections hresolved] at hnames
      exact free_and_free_iff.mp ⟨hfree, hnames⟩
  · rintro ⟨hwritable, hplans, hnodup⟩
    obtain ⟨hfree, hnames⟩ := free_and_free_iff.mpr hnodup
    rw [← map_procedure_eq hschema hdirections hplans.relationDeletes] at hnames
    have htable : plan.tables = schema.tables.values.foldl
        (fun plans table ↦ plans.insert table.name table.planned) .empty :=
      OrderedMap.eq_of_entries_eq (hplans.tables.trans (entries_planned hschema.filed).symm)
    exact bind_eq_ok_iff.mpr ⟨_, (ofTables_eq_ok_iff htables).mpr ⟨hwritable, hfree, rfl, htable⟩,
      bind_eq_ok_iff.mpr ⟨_, ofDirections_eq_ok_iff.mpr ⟨hplans.relationDeletes, hnames⟩, rfl⟩⟩

end Plan

end SchemaCompiler
