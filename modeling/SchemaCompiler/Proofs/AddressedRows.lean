import SchemaCompiler.Proofs.Acceptance

/-!
# Which rows a removal takes

A session compares rows by the integers among the values of their primary keys. So a removal takes
the stored rows that have the values of the given row in the integer columns of the key
(`Row.Fits.integerKey_eq_iff`), and leaves all other rows, in their order; without such a row it
fails and leaves everything as it was.

The rows that a given row addresses are those with its values in all columns of the key. They are
the rows that go exactly if the key has integer columns only (`Accepted.removes_addressed_iff`). A
table with any other column in its key has two rows that differ in this column alone, and a session
takes them for one (`Table.WellFormed.exists_confused`).
-/

set_option autoImplicit false
set_option relaxedAutoImplicit false

namespace SchemaCompiler

/-- The names of the columns of the primary key that hold integers. -/
def Table.integerKeyColumns (table : Table) : List String :=
  (table.columns.filter fun column ↦ column.primaryKey && column.type.isInteger).map Column.name

/-- Rows have the same values in some columns. -/
def Row.Agrees (columns : List String) (row other : Row) : Prop :=
  ∀ column ∈ columns, row.value? column = other.value? column

instance (columns : List String) (row other : Row) : Decidable (row.Agrees columns other) :=
  inferInstanceAs (Decidable (∀ column ∈ columns, row.value? column = other.value? column))

/-- A removal takes the stored rows of a table that agree with a row in some columns: they go, all
other rows of all tables stay in their order, and the log has one more entry. If there are none, the
removal fails and changes nothing. -/
structure Cascade.Removes (columns : List String) (table : Table) (row : Row)
    (state : CascadeState) : Prop where
  found : (∃ stored ∈ state.session.rowsOf table.name, stored.Agrees columns row) →
    ∃ next, (remove table row).runOn state = (.ok (), { state with session := next }) ∧
      (∀ name, next.rowsOf name = (state.session.rowsOf name).filter fun stored ↦
        ¬ (name = table.name ∧ stored.Agrees columns row)) ∧
      next.log = state.session.log ++ [.delete table.storage (table.integerKey row)]
  missing : (∀ stored ∈ state.session.rowsOf table.name, ¬ stored.Agrees columns row) →
    (remove table row).runOn state =
      (.error (.missing ⟨table.storage, table.integerKey row⟩), state)

/-! ### Keys and the values behind them -/

namespace Table

theorem mem_integerKeyColumns_iff {table : Table} {name : String} :
    name ∈ table.integerKeyColumns ↔ ∃ column ∈ table.columns,
      column.primaryKey = true ∧ column.type.isInteger = true ∧ column.name = name := by
  simp [integerKeyColumns, and_assoc]

theorem Tracked.integerKeyColumns_eq {table : Table} (htracked : table.Tracked) :
    table.integerKeyColumns = table.keyColumns := by
  unfold integerKeyColumns keyColumns
  congr 1
  refine List.filter_congr fun column hcolumn ↦ ?_
  cases hkey : column.primaryKey with
  | true => rw [htracked column hcolumn hkey, Bool.and_true]
  | false => rfl

end Table

namespace Row

theorem integer?_eq_some_iff {row : Row} {column : String} {number : Int} :
    row.integer? column = some number ↔ row.value? column = some (.integer number) := by
  unfold integer?
  split
  · next found hvalue => simp [hvalue]
  · next hother =>
    simp only [reduceCtorEq, false_iff]
    exact hother number

/-- Rows have one key exactly if they agree in the integer columns of the key. -/
theorem Fits.integerKey_eq_iff {table : Table} {row other : Row} (hshape : table.WellFormed)
    (hrow : row.Fits table) (hother : other.Fits table) :
    table.integerKey row = table.integerKey other ↔
      row.Agrees table.integerKeyColumns other := by
  constructor
  · intro hkeys name hname
    obtain ⟨column, hcolumn, hkey, htype, rfl⟩ := Table.mem_integerKeyColumns_iff.mp hname
    have hsame := hrow.integer?_eq_of_integerKey_eq hshape hother hkeys
      (Table.mem_keyColumns_iff.mpr ⟨column, hcolumn, hkey, rfl⟩)
    obtain ⟨number, hnumber⟩ := Option.isSome_iff_exists.mp
      ((hrow.isSome_key hshape hcolumn hkey).trans htype)
    rw [integer?_eq_some_iff.mp hnumber, integer?_eq_some_iff.mp (hsame ▸ hnumber)]
  · intro hagrees
    refine List.filterMap_congr fun name hname ↦ ?_
    obtain ⟨column, hcolumn, hkey, rfl⟩ := Table.mem_keyColumns_iff.mp hname
    cases htype : column.type.isInteger with
    | true =>
      unfold integer?
      rw [hagrees _ (Table.mem_integerKeyColumns_iff.mpr ⟨column, hcolumn, hkey, htype, rfl⟩)]
    | false =>
      have hnone {fitting : Row} (hfits : fitting.Fits table) :
          fitting.integer? column.name = none := by
        rw [← Option.not_isSome_iff_eq_none, hfits.isSome_key hshape hcolumn hkey, htype]
        exact Bool.false_ne_true
      rw [hnone hrow, hnone hother]

end Row

/-- Where one key means agreement, a removal takes the rows that agree. -/
theorem Cascade.removes_of_integerKey_eq_iff {columns : List String} {table : Table} {row : Row}
    {state : CascadeState}
    (hkeys : ∀ stored ∈ state.session.rowsOf table.name,
      table.integerKey stored = table.integerKey row ↔ stored.Agrees columns row) :
    Removes columns table row state where
  found := by
    rintro ⟨stored, hstored, hagrees⟩
    cases hdelete : state.session.delete table row with
    | error fault =>
      exact absurd ((hkeys stored hstored).mpr hagrees)
        ((Session.delete_eq_error hdelete).2 stored hstored)
    | ok next =>
      refine ⟨next, by rw [runOn_remove, hdelete], fun name ↦ ?_, ?_⟩
      · rw [Session.rowsOf_of_delete hdelete]
        refine List.filter_congr fun other hother ↦ Bool.eq_iff_iff.mpr ?_
        by_cases hname : name = table.name
        · subst hname
          simp [← hkeys other hother]
        · simp [hname]
      · rw [(Session.delete_eq_ok hdelete).2]
        rfl
  missing := by
    intro hnone
    cases hdelete : state.session.delete table row with
    | error fault => rw [runOn_remove, hdelete, (Session.delete_eq_error hdelete).1]
    | ok next =>
      obtain ⟨⟨stored, hstored, hsame⟩, -⟩ := Session.delete_eq_ok hdelete
      exact absurd ((hkeys stored hstored).mp hsame) (hnone stored hstored)

/-- If a removal takes the rows that agree in some columns, and also those that agree in others, then
these are the same rows. -/
theorem Cascade.Removes.agrees_iff {columns others : List String} {table : Table} {row : Row}
    {state : CascadeState} (hcolumns : Removes columns table row state)
    (hothers : Removes others table row state) (hrow : row ∈ state.session.rowsOf table.name)
    {stored : Row} (hstored : stored ∈ state.session.rowsOf table.name) :
    stored.Agrees columns row ↔ stored.Agrees others row := by
  obtain ⟨next, hrun, hrows, -⟩ := hcolumns.found ⟨row, hrow, fun _ _ ↦ rfl⟩
  obtain ⟨last, hlast, hleft, -⟩ := hothers.found ⟨row, hrow, fun _ _ ↦ rfl⟩
  rw [hrun] at hlast
  obtain rfl : next = last := congrArg (fun result ↦ result.2.session) hlast
  have hkept : stored ∈ next.rowsOf table.name ↔ ¬ stored.Agrees columns row := by
    simp [hrows, hstored]
  have hkeptToo : stored ∈ next.rowsOf table.name ↔ ¬ stored.Agrees others row := by
    simp [hleft, hstored]
  exact not_iff_not.mp (hkept.symm.trans hkeptToo)

/-! ### Rows that are taken for one -/

/-- A value of a column that holds no integers, other than the one that it is filled with. -/
def Column.otherFill (column : Column) : Value :=
  match column.type with
  | .enumeration _ => .variant "other"
  | _ => .text "other"

theorem Column.accepts_otherFill {column : Column} (htype : column.type.isInteger = false) :
    column.Accepts column.otherFill := by
  unfold otherFill
  cases hcolumn : column.type <;>
    simp_all [Accepts, ColumnType.isInteger, ColumnType.enumeration?]

theorem Column.otherFill_ne_fill (column : Column) (number : Int) :
    column.otherFill ≠ column.fill number := by
  unfold otherFill fill
  cases column.type <;> simp

/-- The row with another value in a column. -/
def Row.put (row : Row) (column : String) (value : Value) : Row :=
  ⟨row.values.map fun entry ↦ if entry.1 = column then (column, value) else entry⟩

theorem Row.value?_put (row : Row) (column : String) (value : Value) (name : String) :
    (row.put column value).value? name =
      (row.value? name).map fun old ↦ if name = column then value else old := by
  obtain ⟨values⟩ := row
  unfold value? put
  induction values with
  | nil => rfl
  | cons entry rest ih =>
    have hfirst : (if entry.1 = column then (column, value) else entry).1 = entry.1 := by
      split_ifs with hcolumn
      · exact hcolumn.symm
      · rfl
    by_cases hname : entry.1 = name
    · subst hname
      rw [List.map_cons, List.find?_cons_of_pos (by simp [hfirst]),
        List.find?_cons_of_pos (by simp)]
      simp [apply_ite Prod.snd]
    · rw [List.map_cons, List.find?_cons_of_neg (by simpa [hfirst] using hname),
        List.find?_cons_of_neg (by simpa using hname)]
      exact ih

/-- A column of the key that holds no integers has rows that differ in this column alone, so that
their keys are the same. -/
theorem Table.WellFormed.exists_confused {table : Table} (hshape : table.WellFormed)
    (huntracked : ¬ table.Tracked) :
    ∃ row other : Row, row.Fits table ∧ other.Fits table ∧
      table.integerKey other = table.integerKey row ∧ ¬ other.Agrees table.keyColumns row := by
  unfold Table.Tracked at huntracked
  push Not at huntracked
  obtain ⟨column, hcolumn, hkey, htype⟩ := huntracked
  rw [ne_eq, Bool.not_eq_true] at htype
  let row := Row.filled table fun _ ↦ 0
  let other := row.put column.name column.otherFill
  have hvalue {known : Column} (hknown : known ∈ table.columns) :
      row.value? known.name = some (known.fill 0) :=
    Row.value?_filled hshape hknown
  have hother {known : Column} (hknown : known ∈ table.columns) : other.value? known.name =
      some (if known.name = column.name then column.otherFill else known.fill 0) := by
    rw [Row.value?_put, hvalue hknown]
    rfl
  have hrow : row.Fits table := Row.fits_filled hshape
  have hfits : other.Fits table := by
    intro known hknown
    refine ⟨_, hother hknown, ?_⟩
    split_ifs with hname
    · rw [hshape.eq_of_name_eq hknown hcolumn hname]
      exact column.accepts_otherFill htype
    · exact known.accepts_fill 0
  refine ⟨row, other, hrow, hfits, (hfits.integerKey_eq_iff hshape hrow).mpr ?_, fun hagrees ↦ ?_⟩
  · intro name hname
    obtain ⟨known, hknown, -, hinteger, rfl⟩ := mem_integerKeyColumns_iff.mp hname
    have hne : known.name ≠ column.name := by
      intro hsame
      rw [hshape.eq_of_name_eq hknown hcolumn hsame, htype] at hinteger
      cases hinteger
    rw [hother hknown, hvalue hknown, if_neg hne]
  · have hsame := hagrees _ (mem_keyColumns_iff.mpr ⟨column, hcolumn, hkey, rfl⟩)
    rw [hother hcolumn, hvalue hcolumn, if_pos rfl, Option.some.injEq] at hsame
    exact column.otherFill_ne_fill 0 hsame

/-! ### Tables of a schema -/

namespace Accepted

variable {schema : Schema} {plan : Plan}

/-- A removal takes the rows that agree with a row in the integer columns of the key. In every
session these are the addressed rows, which agree with it in all columns of the key, exactly if the
key has no other columns. Assumes: an accepted schema, and rows that fit their tables. -/
theorem removes_addressed_iff (haccepted : Accepted schema plan) {name : String} {table : Table}
    (htable : schema.table? name = some table) :
    (∀ state row, plan.Stores state.session → row.Fits table →
        Cascade.Removes table.integerKeyColumns table row state) ∧
      ((∀ state row, plan.Stores state.session → row.Fits table →
        Cascade.Removes table.keyColumns table row state) ↔ table.Tracked) := by
  have hplan := haccepted.coherent
  rw [← haccepted.table?_eq] at htable
  have hshape := hplan.shape htable
  obtain rfl := hplan.name_eq htable
  have hremoves : ∀ state row, plan.Stores state.session → row.Fits table →
      Cascade.Removes table.integerKeyColumns table row state := fun state row hstores hrow ↦
    Cascade.removes_of_integerKey_eq_iff fun stored hstored ↦
      (hstores htable stored hstored).integerKey_eq_iff hshape hrow
  refine ⟨hremoves, fun hexact ↦ ?_, fun htracked ↦ htracked.integerKeyColumns_eq ▸ hremoves⟩
  by_contra huntracked
  obtain ⟨row, other, hrow, hother, hkeys, hdiffer⟩ := hshape.exists_confused huntracked
  -- both laws are compared on a session with these two rows
  let session := Session.empty.setRows table [row, other]
  have hrows : session.rowsOf table.name = [row, other] := if_pos rfl
  have hstores : plan.Stores session :=
    plan.stores_empty.setRows htable (by simp [hrow, hother])
  have hfirst : row ∈ session.rowsOf table.name := hrows ▸ List.mem_pair.mpr (Or.inl rfl)
  have hsecond : other ∈ session.rowsOf table.name := hrows ▸ List.mem_pair.mpr (Or.inr rfl)
  have hsame := (hremoves { session := session } row hstores hrow).agrees_iff
    (hexact { session := session } row hstores hrow) hfirst hsecond
  exact hdiffer (hsame.mp ((hother.integerKey_eq_iff hshape hrow).mp hkeys))

end Accepted

/-! ### A table with a date in its key -/

namespace Sample.Calendar

/-- Entries are addressed by a day and a place on the day. -/
def source : String := "Entry(day: Date, slot: SmallInteger) \x7b note: String? \x7d"

/-- The schema of entries. -/
def schema : Schema :=
  match Schema.read source with
  | .ok schema => schema
  | .error _ => {}

/-- The plan of entries. -/
def plan : Plan :=
  match Plan.ofSchema schema with
  | .ok plan => plan
  | .error _ => {}

theorem accepted : Accepted schema plan :=
  .of_isOk (by decide +kernel : Schema.read source = .ok schema) (by decide +kernel)
    (by decide +kernel)

/-- An entry without a note. -/
def entry (day : String) (slot : Int) : Row :=
  ⟨[("day", .text day), ("slot", .integer slot), ("note", .null)]⟩

-- The removal of one of two entries in the same place takes both.
example : (schema.table? "Entry").any (fun table ↦
    let session := Session.empty.setRows table [entry "2024-05-01" 3, entry "2024-05-02" 3]
    ((Cascade.remove table (entry "2024-05-01" 3)).runOn
      { session := session }).2.session.rowsOf "Entry" = []) := by
  decide +kernel

end Sample.Calendar

/-- In the schema of entries, some removal takes other rows than the addressed ones. -/
theorem Accepted.removes_addressed_iff_calendar :
    ∃ table, Sample.Calendar.schema.table? "Entry" = some table ∧
      ¬ ∀ state row, Sample.Calendar.plan.Stores state.session → row.Fits table →
        Cascade.Removes table.keyColumns table row state := by
  have huntracked : (Sample.Calendar.schema.table? "Entry").any fun table ↦ ¬ table.Tracked := by
    decide +kernel
  obtain ⟨table, htable, hany⟩ := (Option.any_eq_true _ _).mp huntracked
  exact ⟨table, htable, fun hexact ↦ of_decide_eq_true hany <|
    (Sample.Calendar.accepted.removes_addressed_iff htable).2.mp hexact⟩

end SchemaCompiler
