import SchemaCompiler.Proofs.TableLayout

/-!
# Sequences that two tables share

A sequence is named after the small name of its table, so two tables share a sequence exactly if
both ask for one and their names differ in case only (`Statement.Describes.sequencesApart_iff`).
Definitions with one small name are refused, so declared tables never share a sequence. The small
name of a link entity is not compared with anything: `Rosebud` may be declared beside a relation
between `Rose` and `Bud`, and then the table and the link entity `RoseBud` draw from one sequence.
This is the only way in which the tables of a schema come to share a sequence
(`Schema.sequences_apart_iff`).
-/

set_option autoImplicit false
set_option relaxedAutoImplicit false

namespace SchemaCompiler

theorem Name.sequence_eq_iff {first second : String} :
    Name.sequence first = Name.sequence second ↔ Name.lower first = Name.lower second := by
  refine ⟨fun heq ↦ ?_, congrArg (· ++ "_id_seq")⟩
  have hlist := congrArg String.toList heq
  simp only [Name.sequence, String.toList_append] at hlist
  exact String.toList_inj.mp (List.append_cancel_right hlist)

/-- No column of the one table has a sequence of the same name as a column of the other. -/
def Table.SequencesApart (first second : Table) : Prop :=
  ∀ column ∈ first.columns, ∀ other ∈ second.columns, ∀ name ∈ column.sequence,
    name ∉ other.sequence

/-- Different tables have different sequences. -/
def Schema.SequencesApart (schema : Schema) : Prop :=
  ∀ ⦃name other : String⦄ ⦃first second : Table⦄, schema.table? name = some first →
    schema.table? other = some second → name ≠ other → first.SequencesApart second

/-! ### Statements that ask for a sequence -/

namespace Statement

/-- Some field of a statement asks for a sequence. -/
def AsksSequence (statement : Statement) : Prop :=
  ∃ field ∈ statement.fields, FieldOption.sequence ∈ field.options

instance (statement : Statement) : Decidable statement.AsksSequence :=
  inferInstanceAs (Decidable (∃ field ∈ statement.fields, FieldOption.sequence ∈ field.options))

variable {statement other : Statement} {first second : Table}

/-- The columns of a statement have a sequence if it asks for one, named after its table. -/
theorem exists_sequence_iff {name : String} :
    (∃ column ∈ statement.columns, name ∈ column.sequence) ↔
      statement.AsksSequence ∧ name = Name.sequence statement.name := by
  have hfield (field : Field) : name ∈ (field.column statement.name).sequence ↔
      FieldOption.sequence ∈ field.options ∧ name = Name.sequence statement.name := by
    unfold Field.column
    split_ifs with hoption <;> simp [hoption, eq_comm]
  constructor
  · rintro ⟨column, hcolumn, hname⟩
    rcases mem_columns_cases hcolumn with ⟨field, hmember, rfl | rfl⟩ | ⟨symbol, rfl⟩
    · obtain ⟨hoption, hname⟩ := (hfield field).mp hname
      exact ⟨⟨field, hmember, hoption⟩, hname⟩
    · obtain ⟨hoption, hname⟩ := (hfield field).mp hname
      exact ⟨⟨field, hmember, hoption⟩, hname⟩
    · cases hname
  · rintro ⟨⟨field, hmember, hoption⟩, hname⟩
    have hsequence := (hfield field).mpr ⟨hoption, hname⟩
    rcases mem_columns_of_mem_fields hmember with hcolumn | hcolumn
    · exact ⟨_, hcolumn, hsequence⟩
    · exact ⟨_, hcolumn, hsequence⟩

/-- Tables share a sequence exactly if both ask for one and their names differ in case only. -/
theorem Describes.sequencesApart_iff (hfirst : statement.Describes first)
    (hsecond : other.Describes second) :
    first.SequencesApart second ↔
      (statement.AsksSequence → other.AsksSequence →
        Name.lower statement.name ≠ Name.lower other.name) := by
  unfold Table.SequencesApart
  rw [hfirst.columns_eq, hsecond.columns_eq]
  constructor
  · intro hapart hasks hother hlower
    have hsame := Name.sequence_eq_iff.mpr hlower
    obtain ⟨column, hcolumn, hname⟩ := exists_sequence_iff.mpr ⟨hasks, rfl⟩
    obtain ⟨twin, htwin, htwinName⟩ := exists_sequence_iff.mpr ⟨hother, hsame⟩
    exact hapart column hcolumn twin htwin _ hname htwinName
  · intro hlower column hcolumn twin htwin name hname htwinName
    obtain ⟨hasks, rfl⟩ := exists_sequence_iff.mp ⟨column, hcolumn, hname⟩
    obtain ⟨hother, hsame⟩ := exists_sequence_iff.mp ⟨twin, htwin, htwinName⟩
    exact hlower hasks hother (Name.sequence_eq_iff.mp hsame)

end Statement

/-! ### Statements with one small name -/

/-- Of two different tables with one small name, one is the link entity of a relation. -/
theorem Document.Valid.exists_relation {document : Document} (hvalid : document.Valid)
    {first second : Statement} (hfirst : first ∈ document.statements)
    (hsecond : second ∈ document.statements) (hname : first.name ≠ second.name)
    (hlower : Name.lower first.name = Name.lower second.name) :
    ∃ relation, first = .relation relation ∨ second = .relation relation := by
  cases first with
  | relation relation => exact ⟨relation, Or.inl rfl⟩
  | table definition =>
    cases second with
    | relation relation => exact ⟨relation, Or.inr rfl⟩
    | table twin =>
      have hsame := List.inj_on_of_nodup_map hvalid.lowers_nodup (mem_tables_iff.mpr hfirst)
        (mem_tables_iff.mpr hsecond) hlower
      exact absurd (congrArg TableDefinition.name hsame) hname

namespace Schema

variable {schema : Schema}

/-- In a schema that was read, declared tables have different sequences. All tables have, exactly if
no link entity that asks for a sequence differs in case only from another table that asks for one.
-/
theorem sequences_apart_iff {source : String} (hread : Schema.read source = .ok schema) :
    (∀ name other first second, schema.table? name = some first →
        schema.table? other = some second → first.kind = .declared → second.kind = .declared →
        name ≠ other → first.SequencesApart second) ∧
      ∃ document, Document.parse source = .ok document ∧
        (schema.SequencesApart ↔
          ∀ relation ∈ document.relations, (Statement.relation relation).AsksSequence →
            ∀ other ∈ document.statements, other.AsksSequence → other.name ≠ relation.linkName →
              Name.lower other.name ≠ Name.lower relation.linkName) := by
  obtain ⟨document, hparse, hbuild⟩ := read_eq_ok_iff.mp hread
  have hvalid := valid_of_ofDocument hbuild
  obtain ⟨hfollows, -⟩ := ofDocument_follows hbuild
  refine ⟨fun name other first second hfirst hsecond hkind hotherKind hne ↦ ?_, document, hparse,
    fun hapart relation hrelation hasks other hother hotherAsks hne hlower ↦ ?_,
    fun hclear name other first second hfirst hsecond hne ↦ ?_⟩
  · obtain ⟨definition, hdefinition, rfl, hdescribes⟩ := hfollows.exists_definition hfirst hkind
    obtain ⟨twin, htwin, rfl, htwinDescribes⟩ := hfollows.exists_definition hsecond hotherKind
    refine (hdescribes.sequencesApart_iff htwinDescribes).mpr fun _ _ hlower ↦ ?_
    obtain ⟨relation, hcase | hcase⟩ := hvalid.exists_relation
      (Document.mem_tables_iff.mp hdefinition) (Document.mem_tables_iff.mp htwin) hne hlower
    · cases hcase
    · cases hcase
  · obtain ⟨first, hfirst, hdescribes⟩ :=
      hfollows.tables _ (Document.mem_relations_iff.mp hrelation)
    obtain ⟨second, hsecond, hotherDescribes⟩ := hfollows.tables _ hother
    exact (hotherDescribes.sequencesApart_iff hdescribes).mp (hapart hsecond hfirst hne) hotherAsks
      hasks hlower
  · obtain ⟨statement, hstatement, rfl, hdescribes⟩ := hfollows.exists_statement hfirst
    obtain ⟨twin, htwin, rfl, htwinDescribes⟩ := hfollows.exists_statement hsecond
    refine (hdescribes.sequencesApart_iff htwinDescribes).mpr fun hasks htwinAsks hlower ↦ ?_
    obtain ⟨relation, rfl | rfl⟩ := hvalid.exists_relation hstatement htwin hne hlower
    · exact hclear relation (Document.mem_relations_iff.mpr hstatement) hasks twin htwin htwinAsks
        hne.symm hlower.symm
    · exact hclear relation (Document.mem_relations_iff.mpr htwin) htwinAsks statement hstatement
        hasks hne hlower

/-- A table beside a link entity whose name differs from its own in case only. -/
def garden : String :=
  "Rose(id: int) \x7b\x7d\nBud(id: int) \x7b\x7d\nRosebud(id: int~) \x7b\x7d\n" ++
    "Rose <-> Bud \x7b\nplace: int~\n\x7d\n"

/-- The table and the link entity share a sequence. -/
theorem sequences_apart_iff_garden :
    ∃ schema, Schema.read garden = .ok schema ∧ ¬ schema.SequencesApart := by
  obtain ⟨schema, hread⟩ := exists_of_isOk (by decide +kernel : (Schema.read garden).isOk = true)
  refine ⟨schema, hread, fun hapart ↦ ?_⟩
  obtain ⟨-, document, hparse, hiff⟩ := sequences_apart_iff hread
  have hclash : (Document.parse garden).toOption.any fun document ↦
      ¬ ∀ relation ∈ document.relations, (Statement.relation relation).AsksSequence →
        ∀ other ∈ document.statements, other.AsksSequence → other.name ≠ relation.linkName →
          Name.lower other.name ≠ Name.lower relation.linkName := by
    decide +kernel
  rw [hparse] at hclash
  exact of_decide_eq_true hclash (hiff.mp hapart)

end Schema

end SchemaCompiler
