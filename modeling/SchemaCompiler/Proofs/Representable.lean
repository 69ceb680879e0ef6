import SchemaCompiler.Proofs.OutputContent

/-!
# Which schemas can be written

A schema that was read can be written as code exactly if its names can (`Schema.Representable`): no
table has the name of an item that every schema has, no name stands for a place among modules, and
no two delete procedures have one name. Nothing else can go wrong. Every direction of a schema that
was read can be resolved (`Schema.Sound.exists_ofRelation`) and every accessor leads to a table
(`Schema.Grounded.not_dangles`), so what is left of planning are the names of the tables and of the
procedures (`Schema.Sound.exists_ofSchema_iff`), and these are the names of the condition
(`Schema.Grounded.usable_iff`, `Schema.perm_procedureNames`).
-/

set_option autoImplicit false
set_option relaxedAutoImplicit false

namespace SchemaCompiler

open Target (placeWords)

/-- The enumerations of the columns of a table. -/
def Table.enumerations (table : Table) : List String :=
  table.columns.filterMap fun column ↦ column.type.enumeration?

/-- The names of the procedures of the two directions of a link. -/
def Link.procedureNames (link : Link) : List String :=
  ["delete_" ++ link.right.lower ++ "_from_" ++ link.left.lower,
    "delete_" ++ link.left.lower ++ "_from_" ++ link.right.lower]

/-- A link gives accessors named after its sides, and collections. -/
theorem Link.Gives.key_eq {link : Link} {name key : String} {accessor : Accessor}
    (hgives : link.Gives name key accessor) :
    (key = link.left.lower ∨ key = link.right.lower) ∨ ∃ lower, key = Name.collection lower := by
  cases hgives with
  | back hjoins =>
    rcases hjoins with ⟨rfl, -⟩ | ⟨rfl, -⟩
    · exact Or.inl (Or.inl rfl)
    · exact Or.inl (Or.inr rfl)
  | collection hjoins => exact Or.inr ⟨_, rfl⟩

namespace Schema

/-- The names that the written code uses as they are in the schema: those of tables, columns and
enumerations, and the small names of related tables. -/
def writtenNames (schema : Schema) : List String :=
  schema.tables.values.map Table.name ++ schema.tables.values.flatMap Table.columnNames ++
    schema.tables.values.flatMap Table.enumerations ++
    schema.graph.links.flatMap fun link ↦ [link.left.lower, link.right.lower]

/-- A schema whose names can be written. -/
structure Representable (schema : Schema) : Prop where
  /-- No table has the name of an item that every schema has. -/
  unreserved : ∀ table ∈ schema.tables.values,
    table.name ∉ ["DeleteScope", "Deleted", "Unlinked", "config", "lookup"]
  /-- No name stands for a place among modules. -/
  usable : ∀ name ∈ schema.writtenNames, name ∉ ["self", "Self", "super", "crate"]
  /-- The delete procedures of tables and of directions have names of their own. -/
  procedures_nodup : (schema.tables.values.map (fun table ↦ "delete_" ++ table.storage) ++
    schema.graph.links.flatMap Link.procedureNames).Nodup

variable {schema : Schema}

/-! ### Directions and accessors lead somewhere -/

/-- In a sound schema the accessors lead to tables. -/
theorem Grounded.not_dangles (hgrounded : schema.Grounded) (hsound : schema.Sound)
    (name key : String) : ¬ schema.Dangles name key := by
  rintro ⟨table, accessor, htable, haccessor, hnone⟩
  obtain ⟨target, inverse, htarget, -⟩ := hgrounded.exists_inverse hsound htable haccessor
  rw [htarget] at hnone
  cases hnone

/-- Every direction of a sound schema can be resolved. -/
theorem Sound.exists_ofRelation (hsound : schema.Sound) (hschema : schema.Regular)
    {direction : String × String} (hdirection : direction ∈ Plan.directions schema) :
    ∃ entry, Plan.ofRelation schema direction.1 direction.2 = .ok entry := by
  obtain ⟨link, hlink, hmember⟩ := hsound.mem_directions_iff.mp hdirection
  obtain ⟨near, far, hjoins, hnear, hfar⟩ := Link.mem_directions_iff.mp hmember
  obtain ⟨-, ⟨entity, hentity, -⟩, side, hside, -, -, hcollection⟩ :=
    hsound.attached link hlink near far hjoins
  obtain ⟨hlower, ⟨twin, htwin, -, hback⟩, target, htarget, hkind, -⟩ :=
    hsound.attached link hlink far near hjoins.symm
  have hrelates : schema.graph.Relates link near far near.table far.table :=
    ⟨hlink, hjoins, rfl, rfl⟩
  have hresolve : schema.resolve? far.lower = some target := by
    unfold Schema.resolve?
    rw [hsound.symbol.mpr ⟨hlower, target, htarget, hkind⟩]
    exact htarget
  refine ⟨⟨near.table, far.lower, far.table, link.name, Name.collection far.lower,
    schema.graph.owned? near.table far.table, ⟨directionName direction⟩⟩,
    Plan.ofRelation_eq_ok_iff.mpr ⟨hnear, hfar, ⟨target, hresolve, (hsound.name_eq htarget).symm⟩,
      hsound.graph.entity.mpr ⟨link, near, far, hrelates, rfl⟩, ?_,
      hsound.graph.collection.mpr ⟨link, near, far, hrelates, rfl⟩,
      Plan.hasAccessor_iff.mpr ⟨side, _, hside, hcollection⟩, rfl, fun accessor howned ↦ ?_, ?_⟩⟩
  · simp [hentity]
  · obtain ⟨other, otherNear, otherFar, hother, -, hname⟩ := hsound.graph.owned.mp howned
    have hsame : accessor = far.lower := by
      rw [hname, (Plan.lower_of_relates hsound hother).2, hlower]
    exact Plan.hasAccessor_iff.mpr ⟨twin, _, htwin, hsame ▸ hback⟩
  · have hmanaging : (schema.table? near.table).isSome = true := by simp [hside]
    have htable : (schema.resolve? far.lower).isSome = true := by simp [hresolve]
    rw [Plan.identifier_directionName hschema hmanaging htable, hnear, hfar]

/-- What is left of planning are the names of tables and procedures. -/
theorem Sound.exists_ofSchema_iff (hsound : schema.Sound) (hschema : schema.Regular) :
    (∃ plan, Plan.ofSchema schema = .ok plan) ↔
      (∀ table ∈ schema.tables.values, table.Writable) ∧ (Plan.procedureNames schema).Nodup := by
  constructor
  · rintro ⟨plan, hplan⟩
    obtain ⟨hwritable, -, hnodup⟩ := (Plan.ofSchema_eq_ok_iff hschema).mp hplan
    exact ⟨hwritable, hnodup⟩
  · rintro ⟨hwritable, hnodup⟩
    obtain ⟨entries, hentries⟩ := exists_mapM_eq_ok fun direction hdirection ↦
      hsound.exists_ofRelation hschema hdirection
    exact ⟨⟨_, entries⟩, (Plan.ofSchema_eq_ok_iff hschema).mpr
      ⟨hwritable, ⟨Plan.entries_planned hschema.filed, mapM_eq_ok_iff.mp hentries⟩, hnodup⟩⟩

/-! ### Names of tables and procedures -/

theorem mem_writtenNames_iff {name : String} :
    name ∈ schema.writtenNames ↔
      (∃ table ∈ schema.tables.values, name = table.name ∨
        ∃ column ∈ table.columns, name ∈ column.names) ∨
      ∃ link ∈ schema.graph.links, name = link.left.lower ∨ name = link.right.lower := by
  simp only [writtenNames, List.mem_append, List.mem_map, List.mem_flatMap, Table.columnNames,
    Table.enumerations, List.mem_filterMap, Column.names, List.mem_cons, List.not_mem_nil, or_false,
    Option.mem_toList]
  constructor
  · rintro (((⟨table, htable, rfl⟩ | ⟨table, htable, column, hcolumn, rfl⟩) |
      ⟨table, htable, column, hcolumn, hsymbol⟩) | hlink)
    · exact Or.inl ⟨table, htable, Or.inl rfl⟩
    · exact Or.inl ⟨table, htable, Or.inr ⟨column, hcolumn, Or.inl rfl⟩⟩
    · exact Or.inl ⟨table, htable, Or.inr ⟨column, hcolumn, Or.inr hsymbol⟩⟩
    · exact Or.inr hlink
  · rintro (⟨table, htable, rfl | ⟨column, hcolumn, rfl | hsymbol⟩⟩ | hlink)
    · exact Or.inl (Or.inl (Or.inl ⟨table, htable, rfl⟩))
    · exact Or.inl (Or.inl (Or.inr ⟨table, htable, column, hcolumn, rfl⟩))
    · exact Or.inl (Or.inr ⟨table, htable, column, hcolumn, hsymbol⟩)
    · exact Or.inr hlink

/-- The small names of the sides of links name accessors of link entities. -/
theorem Sound.exists_mem_names (hsound : schema.Sound) {link : Link}
    (hlink : link ∈ schema.graph.links) {near far : Endpoint} (hjoins : link.Joins near far) :
    ∃ table ∈ schema.tables.values, near.lower ∈ table.names := by
  obtain ⟨-, ⟨entity, hentity, -, hback⟩, -⟩ := hsound.attached link hlink near far hjoins
  refine ⟨entity, OrderedMap.mem_values_iff.mpr ⟨_, hentity⟩, ?_⟩
  refine List.mem_append_right _ (List.mem_append_left _ ?_)
  exact List.mem_map_of_mem (OrderedMap.mem_of_get?_eq_some hback)

/-- Planning uses the names of the schema, and collections, which never stand for a place. -/
theorem Grounded.usable_iff (hgrounded : schema.Grounded) (hsound : schema.Sound) :
    (∀ table ∈ schema.tables.values, ∀ name ∈ table.names, name ∉ placeWords) ↔
      ∀ name ∈ schema.writtenNames, name ∉ placeWords := by
  constructor
  · intro hall name hname
    rcases mem_writtenNames_iff.mp hname with ⟨table, htable, hown⟩ | ⟨link, hlink, hside⟩
    · refine hall table htable name ?_
      rcases hown with rfl | ⟨column, hcolumn, hcolumnName⟩
      · exact List.mem_append_right _ (List.mem_append_right _ List.mem_cons_self)
      · exact List.mem_append_left _ (List.mem_flatMap.mpr ⟨column, hcolumn, hcolumnName⟩)
    · have hforth : link.Joins link.left link.right := Or.inl ⟨rfl, rfl⟩
      rcases hside with rfl | rfl
      · obtain ⟨table, htable, hmember⟩ := hsound.exists_mem_names hlink hforth
        exact hall table htable _ hmember
      · obtain ⟨table, htable, hmember⟩ := hsound.exists_mem_names hlink hforth.symm
        exact hall table htable _ hmember
  · intro hall table htable name hname
    rcases List.mem_append.mp hname with hcolumn | hrest
    · obtain ⟨column, hcolumn, hcolumnName⟩ := List.mem_flatMap.mp hcolumn
      exact hall name (mem_writtenNames_iff.mpr
        (Or.inl ⟨table, htable, Or.inr ⟨column, hcolumn, hcolumnName⟩⟩))
    · rcases List.mem_append.mp hrest with hkey | hown
      · obtain ⟨entry, hentry, rfl⟩ := List.mem_map.mp hkey
        obtain ⟨link, hlink, hgives⟩ := hgrounded (hsound.filed.mem_values_iff.mp htable)
          (OrderedMap.get?_eq_some_of_mem hentry)
        rcases hgives.key_eq with hside | ⟨lower, hcollection⟩
        · exact hall _ (mem_writtenNames_iff.mpr (Or.inr ⟨link, hlink, hside⟩))
        · rw [hcollection]
          exact Name.collection_not_mem_placeWords lower
      · rw [List.mem_singleton.mp hown]
        exact hall _ (mem_writtenNames_iff.mpr (Or.inl ⟨table, htable, Or.inl rfl⟩))

/-- The procedures of directions are those of the links, in another order. -/
theorem perm_procedureNames {document : Document}
    (hbuild : Schema.ofDocument document = .ok schema) :
    (Plan.procedureNames schema).Perm
      (schema.tables.values.map (fun table ↦ "delete_" ++ table.storage) ++
        schema.graph.links.flatMap Link.procedureNames) := by
  have hsound := (ofDocument_sound hbuild).1
  refine List.Perm.append_left _ ?_
  have hdirections := (perm_directions hbuild).map directionName
  have hnames : (schema.graph.links.flatMap Link.directions).map directionName =
      schema.graph.links.flatMap Link.procedureNames := by
    rw [List.map_flatMap]
    refine List.flatMap_congr fun link hlink ↦ ?_
    have hleft := (hsound.attached link hlink _ _ (Or.inl ⟨rfl, rfl⟩)).lower_eq
    have hright := (hsound.attached link hlink _ _ (Or.inr ⟨rfl, rfl⟩)).lower_eq
    simp only [Link.directions, Link.procedureNames, List.map_cons, List.map_nil, directionName,
      ← hleft, ← hright]
  rwa [hnames] at hdirections

/-- A sound schema is representable exactly if its tables can be written and its procedures have
names of their own. -/
theorem representable_iff {document : Document} (hbuild : Schema.ofDocument document = .ok schema) :
    schema.Representable ↔
      (∀ table ∈ schema.tables.values, table.Writable) ∧ (Plan.procedureNames schema).Nodup := by
  have hsound := (ofDocument_sound hbuild).1
  have husable := (grounded_of_ofDocument hbuild).usable_iff hsound
  rw [(perm_procedureNames hbuild).nodup_iff]
  constructor
  · intro hschema
    have hnames := husable.mpr hschema.usable
    exact ⟨fun table htable ↦ ⟨hschema.unreserved table htable, hnames table htable⟩,
      hschema.procedures_nodup⟩
  · rintro ⟨hwritable, hnodup⟩
    exact ⟨fun table htable ↦ (hwritable table htable).unreserved,
      husable.mp fun table htable ↦ (hwritable table htable).usable, hnodup⟩

/-! ### Generation -/

/-- For valid settings, code is generated for a schema that was read exactly if the schema is
representable; every other schema is refused, and no two tables of a schema with code have one
storage name. -/
theorem generate_succeeds_iff_representable [Target.Grammar] {source : String} {settings : Settings}
    (hread : Schema.read source = .ok schema) (hsettings : settings.Valid) :
    ((∃ output, schema.generate settings = .ok output) ↔ schema.Representable) ∧
      (¬ schema.Representable → ∃ fault, schema.generate settings = .error (.refused fault)) ∧
      ((∃ output, schema.generate settings = .ok output) →
        (schema.tables.values.map Table.storage).Nodup) := by
  have hregular := regular_of_read hread
  obtain ⟨document, -, hbuild⟩ := read_eq_ok_iff.mp hread
  have hsound := (ofDocument_sound hbuild).1
  have hanchored := (grounded_of_ofDocument hbuild).not_dangles hsound
  have hplanned : (∃ plan, Plan.ofSchema schema = .ok plan) ↔ schema.Representable :=
    (hsound.exists_ofSchema_iff hregular).trans (representable_iff hbuild).symm
  have hstorage : schema.Representable → (schema.tables.values.map Table.storage).Nodup := by
    intro hschema
    refine List.Nodup.of_map ("delete_" ++ ·) ?_
    rw [List.map_map]
    exact (List.nodup_append.mp hschema.procedures_nodup).1
  rcases generate_cases hregular hsettings with ⟨fault, hplan, hrefused⟩ |
    ⟨plan, output, hplan, -, hwritten, -⟩ | ⟨plan, name, key, -, hdangles, -⟩
  · have hnot : ¬ schema.Representable := by
      rw [← hplanned]
      rintro ⟨plan, hother⟩
      rw [hplan] at hother
      cases hother
    have hfails : ¬ ∃ output, schema.generate settings = .ok output := by
      rintro ⟨output, hother⟩
      rw [hrefused] at hother
      cases hother
    exact ⟨iff_of_false hfails hnot, fun _ ↦ ⟨fault, hrefused⟩, fun houtput ↦ absurd houtput hfails⟩
  · have hschema := hplanned.mp ⟨plan, hplan⟩
    exact ⟨iff_of_true ⟨output, hwritten⟩ hschema, fun hnot ↦ absurd hschema hnot,
      fun _ ↦ hstorage hschema⟩
  · exact absurd hdangles (hanchored name key)

/-- Settings with an import and a line of configuration. -/
def shopSettings : Settings where
  lines := ["pub const LIMIT : usize = 3 ;"]
  imports := [⟨"Color", "shop.model"⟩]

theorem generate_succeeds_iff_representable_shop : ∃ schema, Schema.read shop = .ok schema ∧
    shopSettings.Valid ∧ schema.Representable ∧
      (schema.tables.values.map Table.storage).Nodup := by
  have hsettings : shopSettings.Valid :=
    ⟨by decide +kernel, by decide +kernel, by decide +kernel⟩
  have hgenerated : ((Schema.read shop).toOption.bind fun schema ↦
      (schema.generate shopSettings).toOption).isSome = true := by decide +kernel
  match hread : Schema.read shop with
  | .ok schema =>
    obtain ⟨hiff, -, hstorage⟩ := generate_succeeds_iff_representable hread hsettings
    have houtput : ∃ output, schema.generate shopSettings = .ok output := by
      match hwritten : schema.generate shopSettings with
      | .ok output => exact ⟨output, rfl⟩
      | .error stop => simp [hread, hwritten, Except.toOption] at hgenerated
    exact ⟨schema, rfl, hsettings, hiff.mp houtput, hstorage houtput⟩
  | .error cause => simp [hread, Except.toOption] at hgenerated

end Schema

end SchemaCompiler
