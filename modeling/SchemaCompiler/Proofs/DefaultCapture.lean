import SchemaCompiler.Proofs.ParserGrammar
import SchemaCompiler.Proofs.RowShape
import SchemaCompiler.Proofs.SchemaContent
import SchemaCompiler.Proofs.Tokenization
import SchemaCompiler.Proofs.WellFormedness

/-!
# Defaults as they stand in the text

A default is the raw text between the `=` of a field and the end of its line, a comment or the end
of the text, without the blanks around it. It is not divided into tokens, and a parser that has
looked ahead into it goes back to the `=`. So what a parsed document says of a default can be
checked against the characters of the text (`DefaultText.Stands`): its span covers its text, and
between the `=` and the text and between the text and the end of the line stand blanks only.

The rule of `Reads` for defaults names the line that a default stands in. By induction over the
rules, with texts that begin at any offset, every default that is read has such a line
(`Reads.exists_line`), and the defaults follow one another (`Reads.pairwise_initials`).
-/

set_option autoImplicit false
set_option relaxedAutoImplicit false

namespace SchemaCompiler

/-- A default stands in a text where its span says. Between the `=` before it and its text there are
blanks of one line, and after its text there are blanks up to the end of the line, a comment or the
end of the text. -/
structure DefaultText.Stands (source : List Char) (initial : DefaultText) : Prop where
  nonempty : initial.span.start < initial.span.stop
  inside : initial.span.stop ≤ Text.width source
  text : initial.span.text? source = some initial.text.toList
  wellFormed : initial.WellFormed
  before : ∃ earlier gap, Text.takeBytes source initial.span.start = some (earlier ++ '=' :: gap) ∧
    ∀ character ∈ gap, Text.isLineBlank character = true
  after : ∃ gap rest, Text.dropBytes source initial.span.stop = some (gap ++ rest) ∧
    (∀ character ∈ gap, Text.isLineBlank character = true) ∧ Text.Stops Text.isRaw rest

/-! ### Lines -/

namespace Text

/-- The blanks of a line before its text. -/
def leading (line : List Char) : List Char := line.takeWhile isBlank

/-- The blanks of a line after its text. -/
def trailing (line : List Char) : List Char :=
  ((line.dropWhile isBlank).reverse.takeWhile isBlank).reverse

/-- A line is its text with the blanks around it. -/
theorem leading_trim_trailing (line : List Char) :
    leading line ++ (trim line ++ trailing line) = line := by
  rw [leading, trim, trailing, trimEnd_append, List.takeWhile_append_dropWhile]

theorem isBlank_of_mem_leading {line : List Char} {character : Char}
    (hmember : character ∈ leading line) : isBlank character = true :=
  forall_mem_takeWhile isBlank line character hmember

theorem isBlank_of_mem_trailing {line : List Char} {character : Char}
    (hmember : character ∈ trailing line) : isBlank character = true :=
  forall_mem_takeWhile isBlank _ character (List.mem_reverse.mp hmember)

/-- A blank of a line is one within the line. -/
theorem isLineBlank_of_isRaw {character : Char} (hraw : isRaw character = true)
    (hblank : isBlank character = true) : isLineBlank character = true := by
  rw [isRaw, Bool.and_eq_true] at hraw
  rw [isLineBlank, hraw.1, hblank, Bool.and_self]

end Text

/-! ### Defaults that are read -/

namespace Reads

open Text

variable {offset : Nat} {text : List Char} {items : List Item} {initial : DefaultText}

/-- Every default that is read is that of a line somewhere in the text. -/
theorem exists_line (hreads : Reads offset text items) (hmember : .initial initial ∈ items) :
    ∃ before line rest, text = before ++ '=' :: (line ++ rest) ∧
      initial = .ofLine (offset + width before + '='.utf8Size) line ∧
      (∀ character ∈ line, isRaw character = true) ∧ Stops isRaw rest ∧ trim line ≠ [] := by
  induction hreads with
  | done => cases hmember
  | @blank offset character rest items _ _ ih =>
    obtain ⟨before, line, rest, rfl, rfl, hline⟩ := ih hmember
    exact ⟨character :: before, line, rest, rfl, by simp [Nat.add_assoc], hline⟩
  | @comment offset body rest items _ _ _ ih =>
    obtain ⟨before, line, rest, rfl, rfl, hline⟩ := ih hmember
    exact ⟨'#' :: (body ++ before), line, rest, by simp, by simp [Nat.add_assoc], hline⟩
  | @token offset token rest items _ _ _ ih =>
    obtain ⟨before, line, rest, rfl, rfl, hline⟩ := ih (by simpa using hmember)
    exact ⟨token.text.toList ++ before, line, rest, by simp, by simp [Nat.add_assoc], hline⟩
  | @initial offset line rest items hraw hstops htext _ ih =>
    rcases List.mem_cons.mp hmember with hfirst | hrest
    · exact ⟨[], line, rest, rfl, Item.initial.inj hfirst, hraw, hstops, htext⟩
    · obtain ⟨before, other, after, rfl, rfl, hline⟩ := ih hrest
      exact ⟨'=' :: (line ++ before), other, after, by simp, by simp [Nat.add_assoc], hline⟩

/-- Every default that is read divides the text: its `=` and blanks, the default, and blanks up to
the end of the line. -/
theorem exists_parts (hreads : Reads offset text items) (hmember : .initial initial ∈ items) :
    ∃ before gap space rest,
      text = (before ++ '=' :: gap) ++ (initial.text.toList ++ (space ++ rest)) ∧
      initial.span = ⟨offset + width (before ++ '=' :: gap),
        offset + width (before ++ '=' :: gap) + width initial.text.toList⟩ ∧
      (∀ character ∈ gap, isLineBlank character = true) ∧
      (∀ character ∈ space, isLineBlank character = true) ∧ Stops isRaw rest := by
  obtain ⟨before, line, rest, rfl, rfl, hraw, hstops, -⟩ := hreads.exists_line hmember
  have hparts := leading_trim_trailing line
  refine ⟨before, leading line, trailing line, rest, ?_, ?_, fun character hblank ↦ ?_,
    fun character hblank ↦ ?_, hstops⟩
  · show _ = (before ++ '=' :: leading line) ++
      ((String.ofList (trim line)).toList ++ (trailing line ++ rest))
    conv_lhs => rw [← hparts]
    simp
  · simp [DefaultText.ofLine, leading, Nat.add_assoc]
  · refine isLineBlank_of_isRaw (hraw character ?_) (isBlank_of_mem_leading hblank)
    rw [← hparts]
    exact List.mem_append_left _ hblank
  · refine isLineBlank_of_isRaw (hraw character ?_) (isBlank_of_mem_trailing hblank)
    rw [← hparts]
    exact List.mem_append_right _ (List.mem_append_right _ hblank)

theorem wellFormed_of_mem (hreads : Reads offset text items) (hmember : .initial initial ∈ items) :
    initial.WellFormed := by
  obtain ⟨stop, hspells, -⟩ := hreads.exists_spells
  exact hspells.valid _ hmember

/-- A default that is read begins after the offset and ends in the text. -/
theorem initial_bounds (hreads : Reads offset text items) (hmember : .initial initial ∈ items) :
    offset < initial.span.start ∧ initial.span.start < initial.span.stop ∧
      initial.span.stop ≤ offset + width text := by
  have hne : initial.text.toList ≠ [] := by
    simpa using (hreads.wellFormed_of_mem hmember).ne_empty
  obtain ⟨before, gap, space, rest, rfl, hspan, -⟩ := hreads.exists_parts hmember
  have hpos := width_pos hne
  have hequal := '='.utf8Size_pos
  rw [hspan]
  simp only [width_append, width_cons]
  omega

theorem stands (hreads : Reads 0 text items) (hmember : .initial initial ∈ items) :
    initial.Stands text := by
  have hwellFormed := hreads.wellFormed_of_mem hmember
  obtain ⟨-, hnonempty, hinside⟩ := hreads.initial_bounds hmember
  obtain ⟨before, gap, space, rest, rfl, hspan, hgap, hspace, hstops⟩ := hreads.exists_parts hmember
  rw [Nat.zero_add] at hspan hinside
  refine ⟨hnonempty, hinside, ?_, hwellFormed, ⟨before, gap, ?_, hgap⟩, space, rest, ?_, hspace,
    hstops⟩
  · rw [hspan, Span.text?, if_pos (Nat.le_add_right _ _), Nat.add_sub_cancel_left,
      dropBytes_append, Option.bind_some, takeBytes_append]
  · rw [hspan, takeBytes_append]
  · rw [hspan, ← width_append, ← List.append_assoc, dropBytes_append]

/-- The defaults that are read follow one another. -/
theorem pairwise_initials (hreads : Reads offset text items) :
    (Item.initials items).Pairwise fun first second ↦ first.span.stop < second.span.start := by
  induction hreads with
  | done => exact .nil
  | blank _ _ ih => exact ih
  | comment _ _ _ ih => exact ih
  | token _ _ _ ih => exact ih
  | @initial offset line rest items hraw hstops htext hrest ih =>
    refine List.pairwise_cons.mpr ⟨fun second hsecond ↦ ?_, ih⟩
    have hstart := (hrest.initial_bounds (Item.mem_initials_iff.mp hsecond)).1
    have hline : width (leading line) + width (trim line) ≤ width line := by
      conv_rhs => rw [← leading_trim_trailing line]
      simp only [width_append]
      omega
    simp only [DefaultText.ofLine, width_cons] at hstart ⊢
    rw [← leading]
    omega

end Reads

/-! ### Columns -/

/-- A column is found under its name. -/
theorem Table.WellFormed.column?_eq_some {table : Table} (hshape : table.WellFormed)
    {column : Column} (hcolumn : column ∈ table.columns) :
    table.column? column.name = some column := by
  unfold Table.column?
  rcases hshape.mem_columns_iff.mp hcolumn with hprimary | hordinary
  · rw [hprimary]
  · have hapart : table.primary.get? column.name = none ∨
        table.ordinary.get? column.name = none := hshape.apart
    rw [hordinary] at hapart
    rw [hapart.resolve_right (Option.some_ne_none column), hordinary]

/-- Every field has a column with the text of its default. -/
theorem Statement.exists_mem_columns {statement : Statement} {field : Field}
    (hfield : field ∈ statement.fields) :
    ∃ column ∈ statement.columns, column.name = field.name ∧
      column.initial = field.initial.map DefaultText.text := by
  rcases mem_columns_of_mem_fields hfield with hcolumn | hcolumn
  · exact ⟨_, hcolumn, rfl, rfl⟩
  · exact ⟨_, hcolumn, rfl, rfl⟩

/-- In a schema that was built, the column of a field has the text of its default. -/
theorem Schema.exists_column {document : Document} {schema : Schema}
    (hbuild : Schema.ofDocument document = .ok schema) {statement : Statement}
    (hstatement : statement ∈ document.statements) {field : Field}
    (hfield : field ∈ statement.fields) :
    ∃ table column, schema.table? statement.name = some table ∧
      table.column? field.name = some column ∧
      column.initial = field.initial.map DefaultText.text := by
  obtain ⟨table, htable, hdescribes⟩ := (ofDocument_follows hbuild).1.tables statement hstatement
  obtain ⟨column, hcolumn, hname, htext⟩ := Statement.exists_mem_columns hfield
  rw [← hdescribes.columns_eq] at hcolumn
  have hshape := (ofDocument_sound hbuild).1.shape htable
  refine ⟨table, column, htable, ?_, htext⟩
  rw [← hname]
  exact hshape.column?_eq_some hcolumn

/-! ### Documents -/

/-- The defaults of a parsed document are as they stand in the text. Each covers its span, is
trimmed and stands alone between its `=` and the end of the line, a comment or the end of the text;
their spans follow one another; and in a schema that is built from the document, the column of the
field has the same text. -/
theorem Document.defaults_stand {source : String} {document : Document}
    (hparse : Document.parse source = .ok document) :
    (∀ initial ∈ document.defaults, initial.Stands source.toList) ∧
    document.defaults.Pairwise (fun first second ↦ first.span.stop < second.span.start) ∧
    ∀ schema, Schema.ofDocument document = .ok schema →
      ∀ statement ∈ document.statements, ∀ field ∈ statement.fields,
        ∀ initial, field.initial = some initial →
          ∃ table column, schema.table? statement.name = some table ∧
            table.column? field.name = some column ∧ column.initial = some initial.text := by
  obtain ⟨items, hreads, hwritten⟩ := Document.parse_eq_ok_iff.mp hparse
  rw [← hwritten.initials_eq]
  refine ⟨fun initial hinitial ↦ hreads.stands (Item.mem_initials_iff.mp hinitial),
    hreads.pairwise_initials, ?_⟩
  intro schema hbuild statement hstatement field hfield initial hsome
  obtain ⟨table, column, htable, hcolumn, htext⟩ := Schema.exists_column hbuild hstatement hfield
  rw [hsome] at htext
  exact ⟨table, column, htable, hcolumn, htext⟩

/-- A text with two defaults, the first one with characters of several bytes and a comment after
it. -/
def Document.almanac : String :=
  "Day(id: int) \x7b\n  note: String =\u00a0\u00ab \u2103 \u00bb  # shown\n  high: int=  9\n\x7d"

theorem Document.defaults_stand_almanac : ∃ document schema,
    Document.parse almanac = .ok document ∧ Schema.ofDocument document = .ok schema ∧
      document.defaults.map DefaultText.text = ["\u00ab \u2103 \u00bb", "9"] ∧
      (∀ initial ∈ document.defaults, initial.Stands almanac.toList) ∧
      document.defaults.Pairwise (fun first second ↦ first.span.stop < second.span.start) ∧
      ∀ statement ∈ document.statements, ∀ field ∈ statement.fields,
        ∀ initial, field.initial = some initial →
          ∃ table column, schema.table? statement.name = some table ∧
            table.column? field.name = some column ∧ column.initial = some initial.text := by
  have hok : ((Document.parse almanac).toOption.any fun document ↦
      (Schema.ofDocument document).isOk && decide
        (document.defaults.map DefaultText.text = ["\u00ab \u2103 \u00bb", "9"])) = true := by
    decide +kernel
  cases hparse : Document.parse almanac with
  | error fault =>
    rw [hparse] at hok
    cases hok
  | ok document =>
    rw [hparse] at hok
    obtain ⟨hbuilt, htexts⟩ := Bool.and_eq_true_iff.mp hok
    obtain ⟨schema, hbuild⟩ := exists_of_isOk hbuilt
    obtain ⟨hstand, hpairwise, hcolumns⟩ := Document.defaults_stand hparse
    exact ⟨document, schema, rfl, hbuild, of_decide_eq_true htexts, hstand, hpairwise,
      hcolumns schema hbuild⟩

end SchemaCompiler
