import SchemaCompiler.Proofs.ParserGrammar
import SchemaCompiler.Proofs.WellFormedness

/-!
# The canonical text of a document

`Document.canonical` writes a document with each statement on lines of its own and each field on a
line. A well formed document is read back from its canonical text as it was, except for the spans of
its defaults, which are places in the text; and every document that is read from any text is well
formed. So the well formed documents are exactly those that a text can write.

Reading is followed from the end of a text to its beginning: `Readable text property` says that a
text, at whatever offset it stands, is read as items with a property, and each lemma about it
prefixes a part of the text and the items of that part.
-/

set_option autoImplicit false
set_option relaxedAutoImplicit false

namespace SchemaCompiler

/-! ### Documents up to spans -/

def Field.withoutSpan (field : Field) : Field :=
  { field with initial := field.initial.map fun initial ↦ { initial with span := ⟨0, 0⟩ } }

def TableDefinition.withoutSpans (definition : TableDefinition) : TableDefinition :=
  { definition with
    primaries := definition.primaries.map Field.withoutSpan
    fields := definition.fields.map Field.withoutSpan }

def Relation.withoutSpans (relation : Relation) : Relation :=
  { relation with fields := relation.fields.map Field.withoutSpan }

def Statement.withoutSpans : Statement → Statement
  | .table definition => .table definition.withoutSpans
  | .relation sides => .relation sides.withoutSpans

/-- A document with the spans of its defaults left out. -/
def Document.withoutSpans (document : Document) : Document :=
  ⟨document.statements.map Statement.withoutSpans⟩

/-! ### Canonical text -/

def canonicalDefault : Option DefaultText → String
  | none => ""
  | some initial => " = " ++ initial.text

def Field.canonical (field : Field) : String :=
  field.name ++ ": " ++ field.type ++ String.ofList (field.options.map FieldOption.toChar)
    ++ canonicalDefault field.initial

/-- The fields of a block, one a line. -/
def canonicalLines (fields : List Field) : String :=
  String.join (fields.map fun field ↦ "    " ++ field.canonical ++ "\n")

/-- The clause of a table definition, on lines of its own. -/
def canonicalClause : Option Shown → String
  | none => ""
  | some .all => "    " ++ "repr" ++ " = " ++ "all" ++ "\n"
  | some (.fields names) =>
    "    " ++ "repr" ++ " \x7b\n" ++ "        " ++ String.intercalate ",\n        " names ++ "\n"
      ++ "    " ++ "\x7d\n"

def TableDefinition.canonical (definition : TableDefinition) : String :=
  definition.name ++ "(" ++ String.intercalate ", " (definition.primaries.map Field.canonical)
    ++ ") \x7b\n" ++ canonicalLines definition.fields ++ canonicalClause definition.shown ++ "\x7d"

/-- A symbol and its weight. -/
def Side.canonical (side : Side) : String :=
  side.symbol ++ String.ofList (List.replicate side.weight '^')

def Relation.canonical (relation : Relation) : String :=
  relation.left.canonical ++ " " ++ String.ofList (List.replicate relation.left.markers '<') ++ "-"
    ++ String.ofList (List.replicate relation.right.markers '>') ++ " " ++ relation.right.canonical
    ++ " \x7b\n" ++ canonicalLines relation.fields ++ "\x7d"

def Statement.canonical : Statement → String
  | .table definition => definition.canonical
  | .relation sides => sides.canonical

/-- The canonical text of a document. -/
def Document.canonical (document : Document) : String :=
  String.join (document.statements.map fun statement ↦ statement.canonical ++ "\n")

theorem canonicalLines_cons (field : Field) (fields : List Field) :
    (canonicalLines (field :: fields)).toList
      = ' ' :: ' ' :: ' ' :: ' ' ::
        (field.canonical.toList ++ '\n' :: (canonicalLines fields).toList) := by
  simp [canonicalLines]

/-! ### Reading from the end to the beginning -/

/-- A text is read, at every offset, as items with a property. -/
def Readable (text : List Char) (property : List Item → Prop) : Prop :=
  ∀ offset, ∃ items, property items ∧ Reads offset text items

namespace Readable

open Text

variable {property stronger : List Item → Prop} {text rest : List Char}

theorem mono (hreadable : Readable text stronger)
    (hstronger : ∀ items, stronger items → property items) : Readable text property := by
  intro offset
  obtain ⟨items, hitems, hreads⟩ := hreadable offset
  exact ⟨items, hstronger items hitems, hreads⟩

theorem nil (hnil : property []) : Readable [] property :=
  fun offset ↦ ⟨[], hnil, .done offset⟩

theorem blank (hrest : Readable rest property) : Readable (' ' :: rest) property := by
  intro offset
  obtain ⟨items, hitems, hreads⟩ := hrest (offset + ' '.utf8Size)
  exact ⟨items, hitems, .blank (by decide) hreads⟩

theorem blanks (number : Nat) (hrest : Readable rest property) :
    Readable (List.replicate number ' ' ++ rest) property := by
  induction number with
  | zero => exact hrest
  | succ number ih => exact ih.blank

theorem token {token : Token} (hvalid : token.Valid) (hstops : Stops token.continues rest)
    (hrest : Readable rest fun tail ↦ property (.token token :: tail)) :
    Readable (token.text.toList ++ rest) property := by
  intro offset
  obtain ⟨tail, htail, hreads⟩ := hrest (offset + width token.text.toList)
  exact ⟨.token token :: tail, htail, .token hvalid hstops hreads⟩

theorem mark (mark : Mark) (hrest : Readable rest fun tail ↦ property (.mark mark :: tail)) :
    Readable (mark.toChar :: rest) property := by
  simpa [Token.text] using @token property rest (.mark mark) trivial (by simp) hrest

theorem symbol {name : String} (hname : IsSymbol name.toList) (hstops : Stops isSymbolChar rest)
    (hrest : Readable rest fun tail ↦ property (.symbol name :: tail)) :
    Readable (name.toList ++ rest) property :=
  @token property rest (.symbol name) hname hstops hrest

theorem marks (mark : Mark) (number : Nat)
    (hrest : Readable rest fun tail ↦ property (List.replicate number (.mark mark) ++ tail)) :
    Readable (List.replicate number mark.toChar ++ rest) property := by
  induction number generalizing property with
  | zero => exact hrest
  | succ number ih => exact .mark mark (ih hrest)

theorem initial {initial : DefaultText} (hinitial : initial.WellFormed)
    (hstops : Stops isRaw rest)
    (hrest : Readable rest fun tail ↦
      ∀ other : DefaultText, other.text = initial.text → property (.initial other :: tail)) :
    Readable ('=' :: ' ' :: (initial.text.toList ++ rest)) property := by
  have htrim : trim (' ' :: initial.text.toList) = initial.text.toList := by
    have hhead : initial.text.toList.dropWhile isBlank = initial.text.toList := by
      simpa using @Stops.dropWhile_append isBlank [] _ hinitial.head (by simp)
    have hlast : Stops isBlank initial.text.toList.reverse := by
      simpa [Stops] using hinitial.last
    have hblank : isBlank ' ' = true := by decide
    simp [trim, hblank, hhead, trimEnd_of_stops hlast]
  have hline : ∀ character ∈ ' ' :: initial.text.toList, isRaw character = true := by
    simpa [isRaw] using hinitial.isRaw
  intro offset
  obtain ⟨tail, htail, hreads⟩ := hrest (offset + width ('=' :: ' ' :: initial.text.toList))
  have hne : trim (' ' :: initial.text.toList) ≠ [] := by
    simpa [htrim] using hinitial.ne_empty
  refine ⟨_, htail (.ofLine (offset + '='.utf8Size) (' ' :: initial.text.toList)) ?_,
    .initial hline hstops hne hreads⟩
  simp [DefaultText.ofLine, htrim]

end Readable

/-! ### Fields -/

theorem FieldOption.toChar_mark (option : FieldOption) : option.mark.toChar = option.toChar := by
  cases option <;> rfl

theorem FieldOption.isSymbolChar_toChar (option : FieldOption) :
    isSymbolChar option.toChar = false := by
  cases option <;> decide

namespace Readable

open Text

variable {property : List Item → Prop} {rest : List Char}

theorem options {options : List FieldOption}
    (hrest : Readable rest fun tail ↦
      property (options.map (fun option ↦ .mark option.mark) ++ tail)) :
    Readable (options.map FieldOption.toChar ++ rest) property := by
  induction options generalizing property with
  | nil => exact hrest
  | cons option options ih =>
    rw [List.map_cons, List.cons_append, ← option.toChar_mark]
    exact .mark option.mark (ih hrest)

theorem default {initial : Option DefaultText} (hinitial : ∀ text ∈ initial, text.WellFormed)
    (hline : initial ≠ none → Stops isRaw rest)
    (hrest : Readable rest fun tail ↦ ∀ other : Option DefaultText,
      other.map DefaultText.text = initial.map DefaultText.text →
        property ((other.map Item.initial).toList ++ tail)) :
    Readable ((canonicalDefault initial).toList ++ rest) property := by
  cases initial with
  | none => exact hrest.mono fun tail htail ↦ htail none rfl
  | some initial =>
    simp only [canonicalDefault, String.toList_append, List.append_assoc]
    refine .blank (.initial (hinitial initial rfl) (hline (by simp)) (hrest.mono ?_))
    intro tail htail other hother
    exact htail (some other) (by simp [hother])

theorem stops_default {initial : Option DefaultText} (hstops : Stops isSymbolChar rest) :
    Stops isSymbolChar ((canonicalDefault initial).toList ++ rest) := by
  cases initial with
  | none => exact hstops
  | some initial => simp [canonicalDefault]; decide

theorem stops_options {options : List FieldOption} (hstops : Stops isSymbolChar rest) :
    Stops isSymbolChar (options.map FieldOption.toChar ++ rest) := by
  cases options with
  | nil => exact hstops
  | cons option options => simp [option.isSymbolChar_toChar]

/-- A field is read back up to its span. Its default takes the rest of the line. -/
theorem field {field : Field} (hfield : field.WellFormed) (hstops : Stops isSymbolChar rest)
    (hline : field.initial ≠ none → Stops isRaw rest)
    (hrest : Readable rest fun tail ↦
      ∀ other : Field, other.withoutSpan = field.withoutSpan → property (other.items ++ tail)) :
    Readable (field.canonical.toList ++ rest) property := by
  simp only [Field.canonical, String.toList_append, String.toList_ofList, List.append_assoc]
  refine .symbol hfield.name (stops_cons.2 (by decide)) (.mark .colon (.blank (.symbol hfield.type
    (stops_options (stops_default hstops)) (.options (.default hfield.initial hline ?_)))))
  refine hrest.mono fun tail htail initial hinitial ↦ ?_
  have hspan : { field with initial := initial : Field }.withoutSpan = field.withoutSpan := by
    cases initial <;> cases hgiven : field.initial <;> simp_all [Field.withoutSpan]
  simpa [Field.items] using htail { field with initial := initial } hspan

/-- Fields one a line are read back up to their spans. -/
theorem lines {fields : List Field} (hfields : ∀ field ∈ fields, field.WellFormed)
    (hrest : Readable rest fun tail ↦ ∀ (others : List Field) (own : List Item),
      others.map Field.withoutSpan = fields.map Field.withoutSpan →
        (∀ last, FieldLines last others (own ++ last)) → property (own ++ tail)) :
    Readable ((canonicalLines fields).toList ++ rest) property := by
  induction fields generalizing property with
  | nil =>
    refine hrest.mono fun tail htail ↦ ?_
    exact htail [] [] rfl fun last ↦ .nil
  | cons field fields ih =>
    rw [canonicalLines_cons]
    simp only [List.cons_append, List.append_assoc]
    have hothers : ∀ other ∈ fields, other.WellFormed :=
      fun other hmem ↦ hfields other (by simp [hmem])
    refine .blank (.blank (.blank (.blank (.field (hfields field (by simp))
      (stops_cons.2 (by decide)) (fun _ ↦ by simp [isRaw])
      (.mark .newline (ih hothers (hrest.mono ?_)))))))
    intro tail htail others own hsame hlines first hfirst
    have hall := htail (first :: others) (first.items ++ (newlines 1 ++ own))
      (by simp [hfirst, hsame]) fun last ↦ by simpa using FieldLines.line 0 (hlines last)
    simpa [newlines] using hall

/-! ### Lists with commas -/

/-- Values with a separator between them are read back if each of them is. -/
theorem separated {α β : Type} {text : α → List Char} (view : α → β) {separator : List Char}
    {between : List Item} {separates : List Item → Prop} {writes : α → List Item → Prop}
    {ends : List Char → Prop} {values : List α} (hvalues : values ≠ [])
    (hvalue : ∀ value ∈ values, ∀ {rest : List Char} {property : List Item → Prop}, ends rest →
      Readable rest (fun tail ↦ ∀ (other : α) (own : List Item), view other = view value →
        writes other own → property (own ++ tail)) → Readable (text value ++ rest) property)
    (hseparator : ∀ {rest : List Char} {property : List Item → Prop},
      Readable rest (fun tail ↦ property (between ++ tail)) →
        Readable (separator ++ rest) property)
    (hbetween : separates between) (hends : ∀ rest, ends (separator ++ rest)) (hlast : ends rest)
    (hrest : Readable rest fun tail ↦ ∀ (others : List α) (own : List Item),
      others.map view = values.map view → Separated separates writes others own →
        property (own ++ tail)) :
    Readable (separator.intercalate (values.map text) ++ rest) property := by
  induction values generalizing property with
  | nil => exact absurd rfl hvalues
  | cons value values ih =>
    cases values with
    | nil =>
      have hreadable : Readable (text value ++ rest) property := by
        refine hvalue value (by simp) hlast (hrest.mono ?_)
        intro tail htail other own hother hwrites
        exact htail [other] own (by simp [hother]) (.one hwrites)
      simpa [List.intercalate] using hreadable
    | cons next values =>
      have hreadable : Readable (text value ++ (separator
          ++ (separator.intercalate ((next :: values).map text) ++ rest))) property := by
        refine hvalue value (by simp) (hends _) (hseparator (ih (by simp)
          (fun other hmem ↦ hvalue other (by simp_all)) (hrest.mono ?_)))
        intro tail htail others own hothers hown first firstOwn hfirst hwrites
        have hall := htail (first :: others) _ (by simp_all) (.more hwrites hbetween hown)
        simpa using hall
      simpa [List.intercalate] using hreadable

/-- The fields of a primary key are read back, as none has a default. -/
theorem key {fields : List Field} (hne : fields ≠ [])
    (hfields : ∀ field ∈ fields, field.WellFormed ∧ field.initial = none)
    (hrest : Readable rest fun tail ↦ ∀ (others : List Field) (own : List Item),
      others.map Field.withoutSpan = fields.map Field.withoutSpan →
        Separated IsComma (fun field own ↦ own = field.items) others own → property (own ++ tail))
    (hlast : Stops isSymbolChar rest) :
    Readable ((String.intercalate ", " (fields.map Field.canonical)).toList ++ rest) property := by
  rw [String.toList_intercalate, List.map_map]
  refine separated Field.withoutSpan hne (fun field hmem rest property hstops hvalue ↦ ?_)
    (fun hbetween ↦ ?_) (show IsComma [.mark .comma] from rfl) (fun rest ↦ ?_) hlast hrest
  · refine .field (hfields field hmem).1 hstops (fun hsome ↦ absurd (hfields field hmem).2 hsome) ?_
    exact hvalue.mono fun tail htail other hother ↦ htail other _ hother rfl
  · exact .mark .comma (.blank hbetween)
  · exact stops_cons.2 (by decide)

/-- The names of a clause are read back. -/
theorem names {names : List String} (hne : names ≠ [])
    (hnames : ∀ name ∈ names, IsSymbol name.toList)
    (hrest : Readable rest fun tail ↦ ∀ own : List Item,
      Separated IsCommaGap (fun name own ↦ own = [.symbol name]) names own → property (own ++ tail))
    (hlast : Stops isSymbolChar rest) :
    Readable ((String.intercalate ",\n        " names).toList ++ rest) property := by
  have hothers : Readable rest fun tail ↦ ∀ (others : List String) (own : List Item),
      others.map id = names.map id →
        Separated IsCommaGap (fun name own ↦ own = [.symbol name]) others own →
          property (own ++ tail) := by
    refine hrest.mono fun tail htail others own hothers hown ↦ htail own ?_
    simpa [show others = names by simpa using hothers] using hown
  rw [String.toList_intercalate]
  refine separated id hne (fun name hmem rest property hstops hvalue ↦ ?_) (fun hbetween ↦ ?_)
    (show IsCommaGap (.mark .comma :: newlines 1) from ⟨1, rfl⟩) (fun rest ↦ ?_) hlast hothers
  · refine .symbol (hnames name hmem) hstops ?_
    exact hvalue.mono fun tail htail ↦ htail name _ rfl rfl
  · exact .mark .comma (.mark .newline (.blanks 8 hbetween))
  · exact stops_cons.2 (by decide)

/-! ### Statements -/

theorem isSymbol_repr : IsSymbol "repr".toList :=
  ⟨'r', "epr".toList, by simp, by decide, List.all_eq_true.1 (by decide)⟩

theorem isSymbol_all : IsSymbol "all".toList :=
  ⟨'a', "ll".toList, by simp, by decide, List.all_eq_true.1 (by decide)⟩

theorem clause {shown : Option Shown}
    (hshown : ∀ names, shown = some (.fields names) →
      names ≠ [] ∧ ∀ name ∈ names, IsSymbol name.toList)
    (hrest : Readable rest fun tail ↦ ∀ (own : List Item) (after : Nat), ClauseWritten shown own →
      property (own ++ (newlines after ++ tail))) :
    Readable ((canonicalClause shown).toList ++ rest) property := by
  rcases shown with _ | _ | names
  · exact hrest.mono fun tail htail ↦ htail [] 0 rfl
  · simp only [canonicalClause, String.toList_append, List.append_assoc]
    apply Readable.blanks 4
    apply Readable.symbol isSymbol_repr (stops_cons.2 (by decide))
    apply Readable.blank
    apply Readable.mark .equal
    apply Readable.blank
    apply Readable.symbol isSymbol_all (stops_cons.2 (by decide))
    apply Readable.mark .newline
    exact hrest.mono fun tail htail ↦ htail _ 1 rfl
  · obtain ⟨hne, hnames⟩ := hshown names rfl
    simp only [canonicalClause, String.toList_append, List.append_assoc]
    apply Readable.blanks 4
    apply Readable.symbol isSymbol_repr (stops_cons.2 (by decide))
    apply Readable.blank
    apply Readable.mark .openBrace
    apply Readable.mark .newline
    apply Readable.blanks 8
    apply Readable.names hne hnames ?_ (stops_cons.2 (by decide))
    apply Readable.mark .newline
    apply Readable.blanks 4
    apply Readable.mark .closeBrace
    apply Readable.mark .newline
    refine hrest.mono fun tail htail own hown ↦ ?_
    have hall := htail _ 1 ⟨1, own, 1, hown, rfl⟩
    simpa [newlines] using hall

theorem table {definition : TableDefinition} (hdefinition : definition.WellFormed)
    (hrest : Readable rest fun tail ↦ ∀ (other : TableDefinition) (own : List Item),
      other.withoutSpans = definition.withoutSpans → other.Written own → property (own ++ tail)) :
    Readable (definition.canonical.toList ++ rest) property := by
  simp only [TableDefinition.canonical, String.toList_append, List.append_assoc]
  apply Readable.symbol hdefinition.name (stops_cons.2 (by decide))
  apply Readable.mark .openParen
  apply Readable.key hdefinition.primaries_ne_nil hdefinition.primaries ?_
    (stops_cons.2 (by decide))
  apply Readable.mark .closeParen
  apply Readable.blank
  apply Readable.mark .openBrace
  apply Readable.mark .newline
  apply Readable.lines hdefinition.fields
  apply Readable.clause hdefinition.shown
  apply Readable.mark .closeBrace
  refine hrest.mono fun tail htail clause after hclause fields block hfields hblock primaries key
    hprimaries hkey ↦ ?_
  have hall := htail ⟨definition.name, primaries, fields, definition.shown⟩ _
    (by simp [TableDefinition.withoutSpans, hprimaries, hfields])
    ⟨key, 0, 1, clause, after, _, hkey, hclause, hblock _, rfl⟩
  simpa [newlines] using hall

theorem stops_marks {mark : Mark} {number : Nat} (hmark : isSymbolChar mark.toChar = false)
    (hstops : Stops isSymbolChar rest) :
    Stops isSymbolChar (List.replicate number mark.toChar ++ rest) := by
  cases number with
  | zero => exact hstops
  | succ number => simpa [List.replicate_succ] using hmark

/-- A symbol and its weight are read back. -/
theorem side {side : Side} (hside : side.WellFormed) (hstops : Stops isSymbolChar rest)
    (hrest : Readable rest fun tail ↦
      property (.symbol side.symbol :: (List.replicate side.weight (.mark .caret) ++ tail))) :
    Readable (side.canonical.toList ++ rest) property := by
  simp only [Side.canonical, String.toList_append, String.toList_ofList, List.append_assoc]
  exact .symbol hside.symbol (@stops_marks rest .caret side.weight (by decide) hstops)
    (.marks .caret side.weight hrest)

theorem relation {relation : Relation} (hrelation : relation.WellFormed)
    (hrest : Readable rest fun tail ↦ ∀ (other : Relation) (own : List Item),
      other.withoutSpans = relation.withoutSpans → other.Written own → property (own ++ tail)) :
    Readable (relation.canonical.toList ++ rest) property := by
  simp only [Relation.canonical, String.toList_append, String.toList_ofList, List.append_assoc]
  apply Readable.side hrelation.left (stops_cons.2 (by decide))
  apply Readable.blank
  apply Readable.marks .less
  apply Readable.mark .minus
  apply Readable.marks .greater
  apply Readable.blank
  apply Readable.side hrelation.right (stops_cons.2 (by decide))
  apply Readable.blank
  apply Readable.mark .openBrace
  apply Readable.mark .newline
  apply Readable.lines hrelation.fields
  apply Readable.mark .closeBrace
  refine hrest.mono fun tail htail fields block hfields hblock ↦ ?_
  have hall := htail ⟨relation.left, relation.right, fields⟩ _
    (by simp [Relation.withoutSpans, hfields])
    ⟨_, 0, 1, _, hrelation.left.markers, hrelation.right.markers, Or.inl rfl, hblock _, rfl⟩
  simpa [newlines] using hall

theorem statement {statement : Statement} (hstatement : statement.WellFormed)
    (hrest : Readable rest fun tail ↦ ∀ (other : Statement) (own : List Item),
      other.withoutSpans = statement.withoutSpans → other.Written own → property (own ++ tail)) :
    Readable (statement.canonical.toList ++ rest) property := by
  cases statement with
  | table definition =>
    refine table hstatement (hrest.mono fun tail htail other own hother hown ↦ ?_)
    exact htail (.table other) own (congrArg Statement.table hother) hown
  | relation sides =>
    refine relation hstatement (hrest.mono fun tail htail other own hother hown ↦ ?_)
    exact htail (.relation other) own (congrArg Statement.relation hother) hown

end Readable

/-! ### Documents -/

namespace Document

/-- A statement in front of a document, on a line of its own. -/
theorem Written.cons {statement : Statement} {statements : List Statement} {own items : List Item}
    (hown : statement.Written own) (hitems : Written ⟨statements⟩ items) :
    Written ⟨statement :: statements⟩ (own ++ .mark .newline :: items) := by
  obtain ⟨before, body, after, ⟨hnil, rfl⟩ | hbody, rfl⟩ := hitems
  · obtain rfl : statements = [] := hnil
    refine ⟨0, own, before + after + 1, Or.inr (.one hown), ?_⟩
    simp [newlines_succ, newlines_add]
  · refine ⟨0, _, after, Or.inr (.more hown ⟨before, rfl⟩ hbody), ?_⟩
    simp [newlines_succ]

/-- A well formed document is read back from its canonical text, up to spans. -/
theorem readable_canonical {document : Document} (hdocument : document.WellFormed) :
    Readable document.canonical.toList fun items ↦
      ∃ other : Document, other.withoutSpans = document.withoutSpans ∧ other.Written items := by
  obtain ⟨statements⟩ := document
  induction statements with
  | nil => exact .nil ⟨⟨[]⟩, rfl, 0, [], 0, Or.inl ⟨rfl, rfl⟩, rfl⟩
  | cons statement statements ih =>
    have htext : (canonical ⟨statement :: statements⟩).toList
        = statement.canonical.toList ++ '\n' :: (canonical ⟨statements⟩).toList := by
      simp [canonical]
    rw [htext]
    apply Readable.statement (hdocument statement (by simp))
    apply Readable.mark .newline
    refine (ih fun other hmem ↦ hdocument other (by simp_all)).mono ?_
    rintro items ⟨⟨others⟩, hothers, hitems⟩ first own hfirst hown
    refine ⟨⟨first :: others⟩, ?_, hitems.cons hown⟩
    simp_all [withoutSpans]

/-- The image of the parser are the well formed documents, and printing is undone by parsing. -/
theorem parse_image_and_round_trip :
    (∀ (source : String) (document : Document), parse source = .ok document →
      document.WellFormed) ∧
    ∀ document : Document, document.WellFormed →
      ∃ parsed, parse document.canonical = .ok parsed ∧
        parsed.withoutSpans = document.withoutSpans := by
  constructor
  · intro source document hparse
    exact (parse_eq_ok_iff.1 hparse).wellFormed
  · intro document hdocument
    obtain ⟨items, ⟨parsed, hparsed, hwritten⟩, hreads⟩ := readable_canonical hdocument 0
    exact ⟨parsed, parse_eq_ok_iff.2 ⟨items, hreads, hwritten⟩, hparsed⟩

theorem parse_image_and_round_trip_diary :
    ∃ document, parse diary = .ok document ∧ document.WellFormed ∧
      ∃ parsed, parse document.canonical = .ok parsed ∧
        parsed.withoutSpans = document.withoutSpans := by
  obtain ⟨document, hparse⟩ := exists_parse_diary
  have hdocument := parse_image_and_round_trip.1 diary document hparse
  exact ⟨document, hparse, hdocument, parse_image_and_round_trip.2 document hdocument⟩

end Document

end SchemaCompiler
