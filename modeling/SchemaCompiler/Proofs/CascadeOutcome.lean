import SchemaCompiler.Proofs.CascadeRecord
import SchemaCompiler.Proofs.PlanEntries

/-!
# Reports of deletes

A delete that succeeds reports what it did, as a tree: a node for each row of a table that takes
part in relations, over the rows that went with it. The session logs the same deletes one after the
other, together with those of the link rows. `Deleted.nodes` lists the nodes of a tree in the order
in which the rows went, which is that of the log (`Schema.Reports`), since a row goes after the rows
that belong to it.

Tree and log are made in different places of the procedures, so that they agree is carried through
each of them: what two parts report one after the other is what both of them report
(`Schema.Reports.trans`), and link rows are logged but not reported (`Cascade.reports_link`).
-/

set_option autoImplicit false
set_option relaxedAutoImplicit false

namespace SchemaCompiler

/-! ### Trees -/

namespace RelationOutcome

/-- The small name of the related table. -/
def lower : RelationOutcome → String
  | .unlinked lower => lower
  | .cascaded lower _ => lower

/-- What became of each link row, if the rows that they led to were deleted. -/
def links? : RelationOutcome → Option (List LinkOutcome)
  | .unlinked _ => none
  | .cascaded _ links => some links

end RelationOutcome

/-- The report of the link row itself. -/
def LinkOutcome.link : LinkOutcome → Option Deleted
  | .pair link _ => link

namespace Deleted

/-- The storage name of the table. -/
def storage : Deleted → String
  | .node storage _ => storage

/-- What became of each relation. -/
def relations : Deleted → List RelationOutcome
  | .node _ relations => relations

end Deleted

mutual

/-- The nodes of a report, each after those below it. -/
def Deleted.nodes : Deleted → List Deleted
  | .node storage relations => RelationOutcome.nodesOf relations ++ [.node storage relations]

/-- The nodes below some relations. -/
def RelationOutcome.nodesOf : List RelationOutcome → List Deleted
  | [] => []
  | .unlinked _ :: rest => RelationOutcome.nodesOf rest
  | .cascaded _ links :: rest => LinkOutcome.nodesOf links ++ RelationOutcome.nodesOf rest

/-- The nodes below some link rows: those of the link row, and of the row that it led to. -/
def LinkOutcome.nodesOf : List LinkOutcome → List Deleted
  | [] => []
  | .pair link target :: rest =>
    Deleted.nodesOf link ++ Deleted.nodesOf target ++ LinkOutcome.nodesOf rest

/-- The nodes of a report, if there is one. -/
def Deleted.nodesOf : Option Deleted → List Deleted
  | none => []
  | some deleted => deleted.nodes

end

theorem RelationOutcome.nodesOf_cons (outcome : RelationOutcome) (rest : List RelationOutcome) :
    nodesOf (outcome :: rest) = nodesOf [outcome] ++ nodesOf rest := by
  cases outcome with
  | unlinked lower => rfl
  | cascaded lower links => simp [nodesOf]

theorem LinkOutcome.nodesOf_cons (outcome : LinkOutcome) (rest : List LinkOutcome) :
    nodesOf (outcome :: rest) = nodesOf [outcome] ++ nodesOf rest := by
  cases outcome with
  | pair link target => simp [nodesOf]

/-! ### Reports and logs -/

/-- Whether a storage name is that of a link entity. -/
def Schema.storesLinks (schema : Schema) (storage : String) : Bool :=
  schema.tables.values.any fun table ↦ table.isLink && table.storage == storage

/-- A node is for a table: it has the storage name of the table and a relation for each related
table in order, with a list of link rows where the table owns the related one. The link rows have no
report of their own. -/
structure Deleted.IsFor (schema : Schema) (name : String) (deleted : Deleted) : Prop where
  storage : ∃ table, schema.table? name = some table ∧ deleted.storage = table.storage
  keys : deleted.relations.map RelationOutcome.lower = schema.graph.relatedTo name
  owned : ∀ outcome ∈ deleted.relations, ∃ target,
    schema.graph.resolve? outcome.lower = some target ∧
      (outcome.links?.isSome = true ↔ schema.graph.owns name target = true)
  links : ∀ outcome ∈ deleted.relations, ∀ links, outcome.links? = some links →
    ∀ link ∈ links, link.link = none

/-- The nodes of reports are those of the deletes that are logged between two states, but for those
of link rows. -/
structure Schema.Reports (schema : Schema) (state last : CascadeState) (nodes : List Deleted) :
    Prop where
  logged : ∃ passed, last.session.deletes = state.session.deletes ++ passed ∧
    nodes.map Deleted.storage =
      (passed.filter fun entry ↦ !schema.storesLinks entry.1).map Prod.fst
  isFor : ∀ node ∈ nodes, ∃ name, node.IsFor schema name

namespace Schema.Reports

variable {schema : Schema} {state middle last : CascadeState} {first second : List Deleted}

/-- Where no delete is logged, there is nothing to report. -/
theorem of_deletes_eq (hdeletes : last.session.deletes = state.session.deletes) :
    schema.Reports state last [] := by
  refine ⟨⟨[], ?_, rfl⟩, fun _ hnone ↦ absurd hnone List.not_mem_nil⟩
  rw [hdeletes, List.append_nil]

theorem trans (hfirst : schema.Reports state middle first)
    (hsecond : schema.Reports middle last second) :
    schema.Reports state last (first ++ second) := by
  obtain ⟨⟨passed, hdeletes, hlogged⟩, hfor⟩ := hfirst
  obtain ⟨⟨more, hmoreDeletes, hmoreLogged⟩, hmoreFor⟩ := hsecond
  refine ⟨⟨passed ++ more, ?_, ?_⟩, fun node hnode ↦ ?_⟩
  · rw [hmoreDeletes, hdeletes, List.append_assoc]
  · rw [List.map_append, hlogged, hmoreLogged, List.filter_append, List.map_append]
  · rcases List.mem_append.mp hnode with hnode | hnode
    · exact hfor node hnode
    · exact hmoreFor node hnode

end Schema.Reports

/-- The storage name of a table tells whether it is a link entity. -/
theorem Accepted.storesLinks_iff {schema : Schema} {plan : Plan} (haccepted : Accepted schema plan)
    {name : String} {table : Table} (htable : plan.table? name = some table) :
    schema.storesLinks table.storage = true ↔ table.kind ≠ .declared := by
  rw [Schema.storesLinks, List.any_eq_true, ← Table.isLink_iff_kind_ne]
  constructor
  · rintro ⟨other, hother, hboth⟩
    obtain ⟨hkind, hstorage⟩ := Bool.and_eq_true_iff.mp hboth
    obtain ⟨otherName, hget⟩ := OrderedMap.mem_values_iff.mp hother
    have hotherGet : plan.table? otherName = some other :=
      (haccepted.table?_eq otherName).trans hget
    obtain rfl := haccepted.coherent.storage_eq hotherGet htable (beq_iff_eq.mp hstorage)
    rw [htable] at hotherGet
    cases hotherGet
    exact hkind
  · intro hkind
    rw [haccepted.table?_eq] at htable
    exact ⟨table, OrderedMap.mem_values_iff.mpr ⟨name, htable⟩,
      Bool.and_eq_true_iff.mpr ⟨hkind, beq_self_eq_true _⟩⟩

/-! ### Parts of a delete -/

namespace Cascade

variable {Item Result : Type} {schema : Schema} {plan : Plan} {depth : Nat}
  {state last : CascadeState}

theorem session_visit {table : Table} {row : Row} {outcome : Except CascadeFault Bool}
    (hrun : (visit table row).runOn state = (outcome, last)) : last.session = state.session := by
  cases hrun
  rfl

theorem deletes_listLinks {accessor : Accessor} {row : Row}
    {outcome : Except CascadeFault (List Row)}
    (hrun : (listLinks plan accessor row).runOn state = (outcome, last)) :
    last.session.deletes = state.session.deletes := by
  unfold listLinks at hrun
  split at hrun
  · cases hrun
    exact Session.deletes_note_select _ _ _ _
  · cases hrun
    rfl

theorem deletes_followLink {accessor : Accessor} {link : Row}
    {outcome : Except CascadeFault (Option Row)}
    (hrun : (followLink plan accessor link).runOn state = (outcome, last)) :
    last.session.deletes = state.session.deletes := by
  unfold followLink at hrun
  split at hrun
  · cases hrun
    exact Session.deletes_note_select _ _ _ _
  · cases hrun
    rfl

/-- Removing a row is logged. -/
theorem deletes_remove {table : Table} {row : Row} {done : Unit}
    (hrun : (remove table row).runOn state = (.ok done, last)) :
    last.session.deletes = state.session.deletes ++ [(table.storage, table.integerKey row)] := by
  rw [runOn_remove] at hrun
  cases hdelete : state.session.delete table row with
  | error fault =>
    rw [hdelete] at hrun
    cases hrun
  | ok session =>
    rw [hdelete] at hrun
    cases hrun
    exact Session.deletes_of_delete hdelete

/-- Parts one after the other report what each of them reports. -/
theorem reports_mapM {step : Item → Cascade Result} (nodesOf : List Result → List Deleted)
    {holds : Item → Result → Prop} (hnil : nodesOf [] = [])
    (hcons : ∀ result rest, nodesOf (result :: rest) = nodesOf [result] ++ nodesOf rest)
    {items : List Item}
    (hstep : ∀ item ∈ items, ∀ state result last, (step item).runOn state = (.ok result, last) →
      schema.Reports state last (nodesOf [result]) ∧ holds item result) :
    ∀ {state : CascadeState} {results : List Result},
      (items.mapM step).runOn state = (.ok results, last) →
        schema.Reports state last (nodesOf results) ∧ List.Forall₂ holds items results := by
  induction items with
  | nil =>
    intro state results hrun
    rw [List.mapM_nil] at hrun
    cases hrun
    rw [hnil]
    exact ⟨.of_deletes_eq rfl, .nil⟩
  | cons item rest ih =>
    intro state results hrun
    rw [List.mapM_cons] at hrun
    obtain ⟨result, middle, hfirst, hmore⟩ := exists_of_bind_ok hrun
    obtain ⟨others, final, hothers, hpure⟩ := exists_of_bind_ok hmore
    cases hpure
    obtain ⟨hreports, hholds⟩ := hstep item List.mem_cons_self _ _ _ hfirst
    obtain ⟨hrest, hall⟩ := ih (fun other hother ↦ hstep other (List.mem_cons_of_mem item hother))
      hothers
    rw [hcons]
    exact ⟨hreports.trans hrest, .cons hholds hall⟩

/-- The delete of a link row is logged, but not reported. -/
theorem reports_link (haccepted : Accepted schema plan) {name : String} {table : Table} {row : Row}
    (htable : plan.table? name = some table) (hkind : table.kind ≠ .declared)
    {result : Option Deleted}
    (hrun : (deleteRow plan depth name row).runOn state = (.ok result, last)) :
    result = none ∧ schema.Reports state last [] := by
  cases depth with
  | zero => cases hrun
  | succ depth =>
    obtain ⟨found, hfound, rfl⟩ := Plan.exists_tablePlan htable
    rw [deleteRow, hfound] at hrun
    dsimp only at hrun
    obtain ⟨new, noted, hvisit, hmore⟩ := exists_of_bind_ok hrun
    have hsession := session_visit hvisit
    rw [haccepted.coherent.relationsOf_eq_nil htable hkind, List.isEmpty_nil, if_pos rfl] at hmore
    cases new with
    | false =>
      cases hmore
      exact ⟨rfl, .of_deletes_eq (congrArg Session.deletes hsession)⟩
    | true =>
      rw [if_pos rfl] at hmore
      obtain ⟨_, final, hremove, hpure⟩ := exists_of_bind_ok hmore
      cases hpure
      have hdeletes := deletes_remove hremove
      rw [hsession] at hdeletes
      refine ⟨rfl, ⟨_, hdeletes, ?_⟩, fun _ hnone ↦ absurd hnone List.not_mem_nil⟩
      rw [List.filter_cons_of_neg]
      · rfl
      · rw [(haccepted.storesLinks_iff htable).mpr hkind]
        exact Bool.false_ne_true

/-- What a direction reports of its link rows. -/
structure Answers (entry : RelationDelete) (outcome : RelationOutcome) : Prop where
  lower_eq : outcome.lower = entry.lower
  owned_iff : outcome.links?.isSome = true ↔ entry.Owns
  links : ∀ links, outcome.links? = some links → ∀ link ∈ links, link.link = none

/-- Whether the reports of deletes of related rows are those of the logged deletes. -/
def ReportsAll (schema : Schema) (delete : String → Row → Cascade (Option Deleted)) : Prop :=
  ∀ ⦃name : String⦄ ⦃row : Row⦄ ⦃state last : CascadeState⦄ ⦃result : Option Deleted⦄,
    schema.Related name → (delete name row).runOn state = (.ok result, last) →
      schema.Reports state last (Deleted.nodesOf result)

/-- A link row and the row that it leads to are reported by the latter. -/
theorem reports_cascadeLink (haccepted : Accepted schema plan)
    (hdelete : ReportsAll schema (deleteRow plan depth)) {entry : RelationDelete}
    (hentry : entry ∈ plan.relationDeletes) {accessor : Accessor} {link : Row}
    {outcome : LinkOutcome}
    (hrun : (cascadeLink plan (deleteRow plan depth) entry accessor link).runOn state =
      (.ok outcome, last)) :
    schema.Reports state last (LinkOutcome.nodesOf [outcome]) ∧ outcome.link = none := by
  have hplan := haccepted.coherent
  obtain ⟨table, htable, hshape⟩ := hplan.exists_link hentry
  have hrelated : schema.Related entry.deleted :=
    haccepted.related_iff.mpr (hplan.exists_mem_relationsOf_deleted hentry)
  unfold cascadeLink at hrun
  obtain ⟨target, asked, hfollow, hmore⟩ := exists_of_bind_ok hrun
  obtain ⟨linkOutcome, middle, hlink, hmore⟩ := exists_of_bind_ok hmore
  have hasked : schema.Reports state asked [] := .of_deletes_eq (deletes_followLink hfollow)
  obtain ⟨rfl, hmiddle⟩ := reports_link haccepted htable hshape.kind hlink
  cases target with
  | none =>
    cases hmore
    exact ⟨hasked.trans hmiddle, rfl⟩
  | some row =>
    obtain ⟨targetOutcome, final, htarget, hpure⟩ := exists_of_bind_ok hmore
    cases hpure
    refine ⟨?_, rfl⟩
    simp only [LinkOutcome.nodesOf, Deleted.nodesOf, List.nil_append, List.append_nil]
    exact (hasked.trans hmiddle).trans (hdelete hrelated htarget)

/-- Removing listed link rows reports the rows that they led to. -/
theorem reports_unlink (haccepted : Accepted schema plan)
    (hdelete : ReportsAll schema (deleteRow plan depth)) {entry : RelationDelete}
    (hentry : entry ∈ plan.relationDeletes) {links : List Row} {outcome : RelationOutcome}
    (hrun : (Cascade.unlink plan (deleteRow plan depth) entry links).runOn state =
      (.ok outcome, last)) :
    schema.Reports state last (RelationOutcome.nodesOf [outcome]) ∧ Answers entry outcome := by
  have hplan := haccepted.coherent
  have howns := isSome_accessor?_iff_owns hplan hentry
  cases haccessor : entry.owned.bind (accessor? plan entry.link) with
  | none =>
    rw [unlink_eq_of_none haccessor] at hrun
    obtain ⟨done, middle, hlinks, hpure⟩ := exists_of_bind_ok hrun
    cases hpure
    rw [haccessor] at howns
    obtain ⟨table, htable, hshape⟩ := hplan.exists_link hentry
    have hstep : ∀ link ∈ links, ∀ state result last,
        (discard (deleteRow plan depth entry.link link)).runOn state = (.ok result, last) →
          schema.Reports state last [] ∧ True := by
      intro link _ state result last hone
      rw [runOn_discard] at hone
      split at hone
      next outcome middle hlink =>
        cases hone
        exact ⟨(reports_link haccepted htable hshape.kind hlink).2, trivial⟩
      next => cases hone
    obtain ⟨hreports, -⟩ := reports_mapM (fun _ ↦ []) rfl (fun _ _ ↦ rfl) hstep hlinks
    exact ⟨hreports, rfl, howns, fun links hnone ↦ by cases hnone⟩
  | some accessor =>
    rw [unlink_eq_of_some haccessor] at hrun
    obtain ⟨outcomes, middle, hlinks, hpure⟩ := exists_of_bind_ok hrun
    cases hpure
    rw [haccessor] at howns
    obtain ⟨hreports, hall⟩ := reports_mapM LinkOutcome.nodesOf rfl LinkOutcome.nodesOf_cons
      (fun link _ state result last hone ↦ reports_cascadeLink haccepted hdelete hentry hone) hlinks
    refine ⟨?_, rfl, howns, fun links hsome link hlink ↦ ?_⟩
    · simpa only [RelationOutcome.nodesOf, List.append_nil] using hreports
    · cases hsome
      obtain ⟨stored, -, hnone⟩ := exists_left_of_forall₂ hall hlink
      exact hnone

/-- Clearing a direction reports the rows that its link rows led to. -/
theorem reports_unlinkRow (haccepted : Accepted schema plan)
    (hdelete : ReportsAll schema (deleteRow plan depth)) {entry : RelationDelete}
    (hentry : entry ∈ plan.relationDeletes) {row : Row} {outcome : RelationOutcome}
    (hrun : (unlinkRow plan (deleteRow plan depth) row entry).runOn state = (.ok outcome, last)) :
    schema.Reports state last (RelationOutcome.nodesOf [outcome]) ∧ Answers entry outcome := by
  unfold unlinkRow at hrun
  split at hrun
  next accessor _ =>
    obtain ⟨links, listed, hlist, hmore⟩ := exists_of_bind_ok hrun
    have hlisted : schema.Reports state listed [] := .of_deletes_eq (deletes_listLinks hlist)
    obtain ⟨hreports, hanswers⟩ := reports_unlink haccepted hdelete hentry hmore
    exact ⟨hlisted.trans hreports, hanswers⟩
  next => exact reports_unlink haccepted hdelete hentry hrun

theorem map_lower_of_answers {entries : List RelationDelete} {outcomes : List RelationOutcome}
    (hall : List.Forall₂ Answers entries outcomes) :
    outcomes.map RelationOutcome.lower = entries.map RelationDelete.lower := by
  induction hall with
  | nil => rfl
  | cons hanswers _ ih => rw [List.map_cons, List.map_cons, hanswers.lower_eq, ih]

/-- The report of a row with a relation for each direction is one for the table of the row. -/
theorem isFor_of_answers (haccepted : Accepted schema plan) {name : String} {table : Table}
    (htable : plan.table? name = some table) {outcomes : List RelationOutcome}
    (hall : List.Forall₂ Answers (plan.relationsOf name) outcomes) :
    (Deleted.node table.storage outcomes).IsFor schema name := by
  rw [haccepted.table?_eq] at htable
  have hsound := haccepted.sound
  refine ⟨⟨table, htable, rfl⟩, ?_, fun outcome houtcome ↦ ?_, fun outcome houtcome ↦ ?_⟩
  · show outcomes.map RelationOutcome.lower = _
    rw [map_lower_of_answers hall]
    exact Plan.map_lower_relationsOf hsound.toDeclares haccepted.planned htable
  · obtain ⟨entry, hentry, hanswers⟩ := exists_left_of_forall₂ hall houtcome
    obtain ⟨hmember, rfl⟩ := Plan.mem_relationsOf_iff.mp hentry
    obtain ⟨link, near, far, hdirects⟩ := Plan.exists_directs hsound haccepted.planned hmember
    obtain ⟨deleted, hdeleted, hkind, -⟩ := haccepted.coherent.exists_deleted hmember
    rw [haccepted.table?_eq] at hdeleted
    refine ⟨entry.deleted, ?_, ?_⟩
    · rw [hanswers.lower_eq]
      exact hsound.symbol.mpr ⟨hdirects.lower_eq, deleted, hdeleted, hkind⟩
    · rw [hanswers.owned_iff, RelationDelete.Owns, hdirects.owned_eq]
      rfl
  · obtain ⟨entry, hentry, hanswers⟩ := exists_left_of_forall₂ hall houtcome
    exact hanswers.links

/-- Deletes of related rows report what is logged. -/
theorem reportsAll_deleteRow (haccepted : Accepted schema plan) (depth : Nat) :
    ReportsAll schema (deleteRow plan depth) := by
  induction depth with
  | zero =>
    intro name row state last result _ hrun
    cases hrun
  | succ depth ih =>
    intro name row state last result hrelated hrun
    obtain ⟨entry, hentry⟩ := haccepted.related_iff.mp hrelated
    obtain ⟨hmember, rfl⟩ := Plan.mem_relationsOf_iff.mp hentry
    obtain ⟨table, htable, hkind, -⟩ := haccepted.coherent.exists_managing hmember
    obtain ⟨found, hfound, rfl⟩ := Plan.exists_tablePlan htable
    have hsome : ¬ (plan.relationsOf entry.managing).isEmpty = true := fun hempty ↦ by
      rw [List.isEmpty_iff.mp hempty] at hentry
      exact List.not_mem_nil hentry
    rw [deleteRow, hfound] at hrun
    dsimp only at hrun
    obtain ⟨new, noted, hvisit, hmore⟩ := exists_of_bind_ok hrun
    have hsession := session_visit hvisit
    have hnoted : schema.Reports state noted [] := .of_deletes_eq (congrArg _ hsession)
    rw [if_neg hsome] at hmore
    cases new with
    | false =>
      cases hmore
      exact hnoted
    | true =>
      rw [if_pos rfl] at hmore
      obtain ⟨outcomes, cleared, hclear, hmore⟩ := exists_of_bind_ok hmore
      obtain ⟨_, final, hremove, hpure⟩ := exists_of_bind_ok hmore
      cases hpure
      obtain ⟨hreports, hall⟩ := reports_mapM RelationOutcome.nodesOf rfl
        RelationOutcome.nodesOf_cons
        (fun other hother state result last hone ↦ reports_unlinkRow haccepted ih
          (Plan.mem_relationsOf_iff.mp hother).1 hone) hclear
      refine (hnoted.trans hreports).trans ⟨⟨_, deletes_remove hremove, ?_⟩, fun node hnode ↦ ?_⟩
      · rw [List.filter_cons_of_pos]
        · rfl
        · rw [Bool.not_eq_true', ← Bool.not_eq_true, haccepted.storesLinks_iff htable]
          exact not_not_intro hkind
      · rw [List.mem_singleton.mp hnode]
        exact ⟨entry.managing, isFor_of_answers haccepted htable hall⟩

end Cascade

/-! ### Deletes -/

namespace Accepted

/-- The report of a delete mirrors its log. Assumes: an accepted schema, a row of a table that takes
part in a relation, and a delete with an empty scope that reports something. The storage names of
the nodes, each after those below it, are those of the logged deletes of declared tables; and each
node is for one table, with a relation for each related table. -/
theorem outcome_mirrors_log {schema : Schema} {plan : Plan} (haccepted : Accepted schema plan)
    {session : Session} {name : String} {row : Row} (hrelated : schema.Related name)
    {deleted : Deleted} {last : CascadeState}
    (hanswer : (plan.delete name row).runOn { session := session } = (.ok (some deleted), last)) :
    (∃ passed, last.session.deletes = session.deletes ++ passed ∧
      deleted.nodes.map Deleted.storage =
        (passed.filter fun entry ↦ !schema.storesLinks entry.1).map Prod.fst) ∧
    ∀ node ∈ deleted.nodes, ∃ name, node.IsFor schema name ∧
      ∀ other table, schema.table? other = some table → node.storage = table.storage →
        other = name := by
  obtain ⟨hlogged, hfor⟩ := Cascade.reportsAll_deleteRow haccepted _ hrelated hanswer
  refine ⟨hlogged, fun node hnode ↦ ?_⟩
  obtain ⟨name, hname⟩ := hfor node hnode
  refine ⟨name, hname, fun other table hother hstorage ↦ ?_⟩
  obtain ⟨own, hown, hownStorage⟩ := hname.storage
  rw [← haccepted.table?_eq] at hother hown
  exact haccepted.coherent.storage_eq hother hown (hstorage.symm.trans hownStorage)

/-- The delete of an author reports the books and the other author in the order in which they
went. -/
theorem outcome_mirrors_log_sample :
    Sample.schema.Related "Author" ∧ ∃ deleted last,
      (Sample.plan.delete "Author" (Sample.author 1)).runOn { session := Sample.session } =
        (.ok (some deleted), last) ∧
      deleted.nodes.map Deleted.storage = ["book", "author", "book", "author"] ∧
      (∃ passed, last.session.deletes = Sample.session.deletes ++ passed ∧
        deleted.nodes.map Deleted.storage =
          (passed.filter fun entry ↦ !Sample.schema.storesLinks entry.1).map Prod.fst) ∧
      ∀ node ∈ deleted.nodes, ∃ name, node.IsFor Sample.schema name := by
  have hrelated : Sample.schema.Related "Author" := by decide +kernel
  have hnodes : (match ((Sample.plan.delete "Author" (Sample.author 1)).runOn
      { session := Sample.session }).1 with
    | .ok result => (Deleted.nodesOf result).map Deleted.storage
    | .error _ => []) = ["book", "author", "book", "author"] := by decide +kernel
  rcases hanswer : (Sample.plan.delete "Author" (Sample.author 1)).runOn
      { session := Sample.session } with ⟨fault | _ | deleted, last⟩
  · rw [hanswer] at hnodes
    cases hnodes
  · rw [hanswer] at hnodes
    cases hnodes
  · rw [hanswer] at hnodes
    obtain ⟨hlogged, hfor⟩ := Sample.accepted.outcome_mirrors_log hrelated hanswer
    refine ⟨hrelated, deleted, last, rfl, hnodes, hlogged, fun node hnode ↦ ?_⟩
    obtain ⟨name, hname, -⟩ := hfor node hnode
    exact ⟨name, hname⟩

end Accepted

end SchemaCompiler
