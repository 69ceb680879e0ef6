import SchemaCompiler.Proofs.CascadeReentry

/-!
# Deletes that remove each row once

A permitted delete takes at least one row out, and all rows with its key; so a chain of permitted
operations passes no key of a table to the session twice (`Plan.Acts.exists_passed`). A delete
therefore removes each row once, as long as it does not stop at a missing row.

It does so in every session exactly if no untracked table is reentered
(`Accepted.deletes_once_iff`). Scopes do not note the rows of an untracked table, so where such a
table is reentered there is a session in which a delete of a stored row removes the row twice and
stops. `Sample.Untracked` is the smallest schema of this kind.
-/

set_option autoImplicit false
set_option relaxedAutoImplicit false

namespace SchemaCompiler

/-! ### Operations that were passed on -/

namespace Plan

variable {plan : Plan} {first last : Session} {storage : String} {key : List Int}

theorem Holds.within (hholds : plan.Holds last storage key) (hwithin : last.Within first) :
    plan.Holds first storage key := by
  obtain ⟨name, row, hrow, hkey⟩ := hholds
  exact ⟨name, row, hwithin.mem hrow, hkey⟩

/-- No row has the key of a delete after it. -/
theorem not_holds_perform (plan : Plan) (session : Session) (storage : String) (key : List Int) :
    ¬ plan.Holds (plan.perform session (.delete storage key)) storage key := by
  rintro ⟨name, row, hrow, hkey⟩
  have hkept := (List.mem_filter.mp hrow).2
  rw [hkey] at hkept
  cases hkept

/-- Permitted operations delete each key once: some row has it before, and none after. -/
theorem Acts.exists_passed (hacts : plan.Acts first last) :
    ∃ passed, last.deletes = first.deletes ++ passed ∧ passed.Nodup ∧
      ∀ entry ∈ passed, plan.Holds first entry.1 entry.2 ∧ ¬ plan.Holds last entry.1 entry.2 := by
  induction hacts with
  | refl =>
    exact ⟨[], (List.append_nil _).symm, List.nodup_nil, fun _ hnone ↦
      absurd hnone List.not_mem_nil⟩
  | @tail middle next hbefore hstep ih =>
    obtain ⟨passed, hdeletes, hnodup, hpassed⟩ := ih
    obtain ⟨operation, hpermits, rfl⟩ := hstep
    have hwithin := within_perform plan middle operation
    have hold : ∀ entry ∈ passed, plan.Holds first entry.1 entry.2 ∧
        ¬ plan.Holds (plan.perform middle operation) entry.1 entry.2 := fun entry hentry ↦
      ⟨(hpassed entry hentry).1, fun hholds ↦ (hpassed entry hentry).2 (hholds.within hwithin)⟩
    cases operation with
    | select storage column value =>
      refine ⟨passed, ?_, hnodup, hold⟩
      rw [← hdeletes]
      simp [perform, Session.deletes, Session.note]
    | delete storage key =>
      refine ⟨passed ++ [(storage, key)], ?_, ?_, fun entry hentry ↦ ?_⟩
      · rw [← List.append_assoc, ← hdeletes]
        simp [perform, Session.deletes]
      · refine List.nodup_append.mpr ⟨hnodup, List.nodup_singleton _, ?_⟩
        rintro entry hentry new hnew rfl
        rw [List.mem_singleton.mp hnew] at hentry
        exact (hpassed _ hentry).2 hpermits.1
      · rcases List.mem_append.mp hentry with hentry | hentry
        · exact hold entry hentry
        · rw [List.mem_singleton.mp hentry]
          exact ⟨hpermits.1.within (Acts.within hbefore), not_holds_perform plan middle storage key⟩

end Plan

/-! ### Deletes that succeed -/

/-- No two rows of a declared table have one number. -/
def Schema.Identifies (schema : Schema) (session : Session) : Prop :=
  ∀ ⦃name : String⦄ ⦃table : Table⦄, schema.table? name = some table → table.kind = .declared →
    (session.rowsOf name).Pairwise fun first second ↦
      ∀ id, first.integer? "id" = some id → second.integer? "id" ≠ some id

namespace Accepted

variable {schema : Schema} {plan : Plan}

/-- A delete of a stored row succeeds and passes no key to the session twice. Assumes: no untracked
table is reentered. -/
theorem exists_passed_of_direct (haccepted : Accepted schema plan) (hdirect : plan.Direct)
    {session : Session} (hstores : plan.Stores session) {name : String} {row : Row}
    (hrelated : schema.Related name) (hrow : row ∈ session.rowsOf name) :
    ∃ result last passed,
      (plan.delete name row).runOn { session := session } = (.ok result, last) ∧
      last.session.deletes = session.deletes ++ passed ∧ passed.Nodup := by
  have hplan := haccepted.coherent
  obtain ⟨entry, hentry⟩ := haccepted.related_iff.mp hrelated
  obtain ⟨hmember, rfl⟩ := Plan.mem_relationsOf_iff.mp hentry
  obtain ⟨table, htable, -⟩ := hplan.exists_managing hmember
  rcases hanswer : (plan.delete entry.managing row).runOn { session := session } with
    ⟨outcome, last⟩
  obtain ⟨hrun, hfuel⟩ :=
    hplan.run_delete hstores.valid htable (hstores htable row hrow) hanswer
  have hstop := hrun.stop_eq_none hplan hdirect hstores.valid htable ⟨entry, hentry⟩
    (Or.inl ⟨row, hrow, rfl⟩) hfuel
  cases outcome with
  | error fault => cases hstop
  | ok result =>
    obtain ⟨passed, hdeletes, hnodup, -⟩ := (hrun.acts hplan hstores.valid).exists_passed
    exact ⟨result, last, passed, rfl, hdeletes, hnodup⟩

/-- Where an untracked table is reentered, a delete of a stored row fails in some session. -/
theorem exists_failure_of_reenters (haccepted : Accepted schema plan) {name : String}
    {table : Table} (htable : plan.table? name = some table) (huntracked : ¬ table.Tracked)
    (hreenters : plan.Reenters name) :
    ∃ session, plan.Stores session ∧ schema.Identifies session ∧ schema.Related name ∧
      ∃ row ∈ session.rowsOf name, ∀ result last,
        (plan.delete name row).runOn { session := session } ≠ (.ok result, last) := by
  have hplan := haccepted.coherent
  obtain ⟨length, path, hcircuit, rfl, before, after, hsplit, hnew, hback⟩ :=
    hreenters.exists_circuit hplan
  have hzero : 0 < length := Nat.lt_of_lt_of_le (by decide) hcircuit.long
  have hstores : plan.Stores (plan.around length path) := Plan.Circuit.stores hplan
  have hrow : plan.placed path 0 ∈ (plan.around length path).rowsOf (path 0).managing :=
    Plan.mem_around_iff.mpr (Or.inl ⟨0, hzero, rfl, rfl⟩)
  have hmember := Plan.mem_relationsOf_iff.mpr ⟨hcircuit.mem 0 hzero, rfl⟩
  refine ⟨plan.around length path, hstores, fun other otherTable hother hkind ↦ ?_,
    haccepted.related_iff.mpr ⟨_, hmember⟩, plan.placed path 0, hrow, fun result last hanswer ↦ ?_⟩
  · rw [← haccepted.table?_eq] at hother
    exact hcircuit.pairwise_id hplan hother hkind
  · obtain ⟨hrun, -⟩ := hplan.run_delete hstores.valid htable (hstores htable _ hrow) hanswer
    exact hcircuit.stop_ne_none hplan htable huntracked hsplit hnew hback hrun rfl

/-- Deletes of stored rows succeed and remove no row twice, in every session, exactly if no
untracked table is reentered. Assumes: an accepted schema. A session holds rows that fit their
tables, and the rows of a declared table have different numbers; a delete starts with an empty
scope. -/
theorem deletes_once_iff (haccepted : Accepted schema plan) :
    (∀ session, plan.Stores session → schema.Identifies session →
      ∀ name, schema.Related name → ∀ row ∈ session.rowsOf name, ∃ result last passed,
        (plan.delete name row).runOn { session := session } = (.ok result, last) ∧
        last.session.deletes = session.deletes ++ passed ∧ passed.Nodup) ↔
      ∀ name table, schema.table? name = some table → ¬ table.Tracked → ¬ plan.Reenters name := by
  constructor
  · intro honce name table htable huntracked hreenters
    rw [← haccepted.table?_eq] at htable
    obtain ⟨session, hstores, hidentifies, hrelated, row, hrow, hfails⟩ :=
      haccepted.exists_failure_of_reenters htable huntracked hreenters
    obtain ⟨result, last, -, hanswer, -⟩ :=
      honce session hstores hidentifies name hrelated row hrow
    exact hfails result last hanswer
  · intro hdirect session hstores _ name hrelated row hrow
    refine haccepted.exists_passed_of_direct (fun other table hother ↦ ?_) hstores hrelated hrow
    rw [haccepted.table?_eq] at hother
    exact hdirect other table hother

end Accepted

/-! ### A schema with an untracked table -/

namespace Sample.Untracked

/-- Pairs have a text in their key, and pairs and marks own each other. -/
def source : String :=
  "Pair(code: NameStr, id: int) \x7b\x7d\nMark(id: int) \x7b\x7d\nPair^ <<->> Mark^ \x7b\x7d"

/-- The schema of pairs and marks. -/
def schema : Schema :=
  match Schema.read source with
  | .ok schema => schema
  | .error _ => {}

/-- The plan of pairs and marks. -/
def plan : Plan :=
  match Plan.ofSchema schema with
  | .ok plan => plan
  | .error _ => {}

theorem accepted : Accepted schema plan :=
  .of_isOk (by decide +kernel : Schema.read source = .ok schema) (by decide +kernel)
    (by decide +kernel)

theorem exists_untracked : ∃ table, schema.table? "Pair" = some table ∧ ¬ table.Tracked := by
  have hany : (schema.table? "Pair").any fun table ↦ ¬ table.Tracked := by decide +kernel
  obtain ⟨table, htable, huntracked⟩ := (Option.any_eq_true _ _).mp hany
  exact ⟨table, htable, of_decide_eq_true huntracked⟩

/-- Deletes of pairs lead to marks and from marks back to pairs. -/
theorem reenters : plan.Reenters "Pair" := by
  have hforth : ∃ entry, plan.relationsOf "Pair" = [entry] ∧ entry.deleted = "Mark" ∧
      entry.Owns := by
    have hmap : (plan.relationsOf "Pair").map (fun entry ↦ (entry.deleted, entry.owned.isSome)) =
        [("Mark", true)] := by decide +kernel
    obtain ⟨entry, hentry, hpair⟩ := List.map_eq_singleton_iff.mp hmap
    exact ⟨entry, hentry, (Prod.mk.inj hpair).1, (Prod.mk.inj hpair).2⟩
  have hback : plan.Owned "Mark" "Pair" := by
    have hany : ∃ entry ∈ plan.relationDeletes, entry.managing = "Mark" ∧ entry.deleted = "Pair" ∧
        entry.Owns := by decide +kernel
    exact hany
  obtain ⟨entry, hentry, hdeleted, howns⟩ := hforth
  refine ⟨[], entry, [], hentry, howns, entry, ?_, List.not_mem_nil, .refl, ?_⟩
  · rw [hentry]
    exact List.mem_cons_self
  · rw [hdeleted]
    exact hback

/-- A pair. -/
def pair (id : Int) : Row := ⟨[("code", .text ""), ("id", .integer id)]⟩

/-- A mark. -/
def mark (id : Int) : Row := ⟨[("id", .integer id)]⟩

/-- Which pair has which mark. -/
def link (pair mark : Int) : Row := ⟨[("pair_id", .integer pair), ("mark_id", .integer mark)]⟩

/-- Two pairs have both marks. -/
def session : Session where
  rowsOf name :=
    if name = "Pair" then [pair 1, pair 2]
    else if name = "Mark" then [mark 1, mark 2]
    else if name = "PairMark" then [link 1 1, link 2 1, link 2 2, link 1 2]
    else []

/-- The delete of the first pair comes back to it over both marks and the second pair. -/
example : Cascade.stop? ((plan.delete "Pair" (pair 1)).runOn { session := session }).1 =
    some (.missing ⟨"pair", [1]⟩) := by decide +kernel

end Sample.Untracked

/-- In the schema of pairs and marks, some delete of a stored row fails or removes a row twice. -/
theorem Accepted.deletes_once_iff_untracked :
    Accepted Sample.Untracked.schema Sample.Untracked.plan ∧
      ¬ ∀ session, Sample.Untracked.plan.Stores session →
        Sample.Untracked.schema.Identifies session →
        ∀ name, Sample.Untracked.schema.Related name → ∀ row ∈ session.rowsOf name,
          ∃ result last passed,
            (Sample.Untracked.plan.delete name row).runOn { session := session } =
              (.ok result, last) ∧
            last.session.deletes = session.deletes ++ passed ∧ passed.Nodup := by
  refine ⟨Sample.Untracked.accepted, fun honce ↦ ?_⟩
  obtain ⟨table, htable, huntracked⟩ := Sample.Untracked.exists_untracked
  exact Sample.Untracked.accepted.deletes_once_iff.mp honce "Pair" table htable huntracked
    Sample.Untracked.reenters

end SchemaCompiler
