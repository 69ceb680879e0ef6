import Mathlib.Data.List.Forall2
import SchemaCompiler.Proofs.CanonicalText
import SchemaCompiler.Proofs.LineEnds

/-!
# Parsing a text and a padded text

A parser that runs on a text and on a padded text goes through the same steps. Its readers hold the
same tokens, read from places beside each other, and remember the same stray character
(`Pages.Readers`). `Pages.Agrees` says that two parsers, run on such readers, both succeed or both
fail, with values and faults that are alike; it is carried through sequences, choices and
repetitions by one lemma each, so there is one short lemma for each rule of the grammar.

Only a repetition needs more than its step: its limit is taken from the characters left, which are
not as many in the two texts. A step that answers with an item takes characters, so neither limit is
ever reached.
-/

set_option autoImplicit false
set_option relaxedAutoImplicit false

namespace SchemaCompiler

open Text

/-- Lists of which the members are viewed alike are viewed alike. -/
theorem map_eq_of_forall₂ {α β γ : Type} {view : α → γ} {display : β → γ} {values : List α}
    {others : List β} (halike : List.Forall₂ (fun value other ↦ display other = view value)
      values others) :
    others.map display = values.map view := by
  induction halike with
  | nil => rfl
  | cons hvalue _ ih => rw [List.map_cons, List.map_cons, hvalue, ih]

/-! ### Two readers that look ahead -/

namespace Pages

/-- Readings of the same token, from places beside each other. -/
def Reads (pages : Pages) (reading other : Reading) : Prop :=
  other.token = reading.token ∧ pages.Beside reading.start other.start

/-- Readers that hold the same tokens, at places beside each other. -/
structure Readers (pages : Pages) (first second : Lexer) : Prop where
  first_source : first.source = pages.source
  second_source : second.source = pages.padded
  first_faithful : first.Faithful
  second_faithful : second.Faithful
  cursor : pages.Beside first.cursor second.cursor
  ahead : List.Forall₂ pages.Reads first.ahead second.ahead
  stray : Option.Rel pages.Strays first.stray second.stray

namespace Readers

variable {pages : Pages} {first second : Lexer}

theorem front (hreaders : pages.Readers first second) :
    pages.Beside first.front second.front := by
  have hahead := hreaders.ahead
  have hcursor := hreaders.cursor
  unfold Lexer.front
  generalize first.ahead = readings at hahead ⊢
  generalize second.ahead = others at hahead ⊢
  cases hahead with
  | nil => exact hcursor
  | cons hreads _ => exact hreads.2

theorem extend (hreaders : pages.Readers first second) :
    pages.Readers first.extend second.extend := by
  have hfirst := hreaders.first_faithful.extend.1
  have hsecond := hreaders.second_faithful.extend.1
  obtain ⟨source, cursor, readings, stray⟩ := first
  obtain ⟨padded, place, others, found⟩ := second
  obtain ⟨hsource, hpadded, -, -, hcursor, hahead, hstray⟩ := hreaders
  cases hstray with
  | some hstrays => exact ⟨hsource, hpadded, hfirst, hsecond, hcursor, hahead, .some hstrays⟩
  | none =>
    have hfinds := hcursor.scan
    simp only [Lexer.extend] at hfirst hsecond hfinds ⊢
    generalize cursor.scan = scanned at hfirst hfinds ⊢
    generalize place.scan = also at hsecond hfinds ⊢
    cases hfinds with
    | token htoken hstart hstop =>
      exact ⟨hsource, hpadded, hfirst, hsecond, hstop,
        List.rel_append hahead (.cons ⟨htoken, hstart⟩ .nil), .none⟩
    | stray hstart hstrays =>
      exact ⟨hsource, hpadded, hfirst, hsecond, hstart, hahead, .some hstrays⟩
    | finish hstop => exact ⟨hsource, hpadded, hfirst, hsecond, hstop, hahead, .none⟩

theorem fill (hreaders : pages.Readers first second) (count : Nat) :
    pages.Readers (first.fill count) (second.fill count) := by
  induction count with
  | zero => exact hreaders
  | succ count ih =>
    have hlength := ih.ahead.length_eq
    simp only [Lexer.fill, hlength]
    split_ifs
    · exact ih.extend
    · exact ih

theorem next (hreaders : pages.Readers first second) :
    pages.Readers first.next.2 second.next.2 := by
  have hfirst := hreaders.first_faithful.next.1
  have hsecond := hreaders.second_faithful.next.1
  have hfilled := hreaders.fill 1
  unfold Lexer.next at hfirst hsecond ⊢
  generalize first.fill 1 = first at hfirst hfilled ⊢
  generalize second.fill 1 = second at hsecond hfilled ⊢
  obtain ⟨source, cursor, readings, stray⟩ := first
  obtain ⟨padded, place, others, found⟩ := second
  obtain ⟨hsource, hpadded, -, -, hcursor, hahead, hstray⟩ := hfilled
  cases hahead with
  | nil => exact ⟨hsource, hpadded, hfirst, hsecond, hcursor, .nil, hstray⟩
  | cons _ hrest => exact ⟨hsource, hpadded, hfirst, hsecond, hcursor, hrest, hstray⟩

theorem peek (hreaders : pages.Readers first second) (count : Nat) :
    (second.peek count).1.map Lexeme.token = (first.peek count).1.map Lexeme.token ∧
      pages.Readers (first.peek count).2 (second.peek count).2 := by
  have hfilled := hreaders.fill (count + 1)
  refine ⟨?_, hfilled⟩
  have htokens : (second.fill (count + 1)).ahead.map Reading.token =
      (first.fill (count + 1)).ahead.map Reading.token :=
    map_eq_of_forall₂ (hfilled.ahead.imp fun _ _ hreads ↦ hreads.1)
  have htoken := congrArg (·[count]?) htokens
  simpa [Lexer.peek, Function.comp_def, Reading.lexeme] using htoken

theorem restOfLine (hreaders : pages.Readers first second) :
    second.restOfLine.1.text = first.restOfLine.1.text ∧
      pages.Readers first.restOfLine.2 second.restOfLine.2 := by
  obtain ⟨htext, hstop⟩ := hreaders.front.raw
  have hfirst := hreaders.first_faithful
  have hsecond := hreaders.second_faithful
  refine ⟨String.ofList_inj.1 htext, hreaders.first_source, hreaders.second_source,
    hfirst.restOfLine.1, hsecond.restOfLine.1, hstop, .nil, ?_⟩
  rw [hfirst.stray_restOfLine, hsecond.stray_restOfLine]
  exact .none

end Readers

end Pages

/-! ### Two runs of a parser -/

/-- Faults of two parsers: the same stray character, so many lines further down, or the same token
that the same rule does not allow. -/
inductive ParseFault.Alike (lines : Nat) : ParseFault → ParseFault → Prop
  | lexical (fault : LexicalFault) : Alike lines (.lexical fault) (.lexical (fault.down lines))
  | grammar (rule : Rule) (expected : Expected) (found : Option Token) (first second : Position) :
      Alike lines (.grammar rule expected found first) (.grammar rule expected found second)

namespace Pages

variable {α β γ δ : Type}

/-- Two parsers that are run side by side both succeed or both fail. -/
structure Agrees (pages : Pages) (alike : α → β → Prop) (parser : Parser α)
    (other : Parser β) : Prop where
  run {first second : Lexer} (hreaders : pages.Readers first second) :
    Agree (ParseFault.Alike pages.lines)
      (fun value found ↦ alike value.1 found.1 ∧ pages.Readers value.2 found.2)
      (parser.run first) (other.run second)

namespace Agrees

variable {pages : Pages} {alike : α → β → Prop} {likewise : γ → δ → Prop} {parser : Parser α}
  {other : Parser β}

theorem pure {value : α} {found : β} (halike : alike value found) :
    pages.Agrees alike (Pure.pure value) (Pure.pure found) :=
  ⟨fun hreaders ↦ .ok ⟨halike, hreaders⟩⟩

theorem bind {next : α → Parser γ} {otherNext : β → Parser δ}
    (hparser : pages.Agrees alike parser other)
    (hnext : ∀ {value found}, alike value found →
      pages.Agrees likewise (next value) (otherNext found)) :
    pages.Agrees likewise (parser >>= next) (other >>= otherNext) := by
  refine ⟨fun {first second} hreaders ↦ ?_⟩
  rw [StateT.run_bind, StateT.run_bind]
  exact (hparser.run hreaders).bind fun _ _ hvalues ↦ (hnext hvalues.1).run hvalues.2

theorem map {convert : α → γ} {change : β → δ} (hparser : pages.Agrees alike parser other)
    (hlikewise : ∀ {value found}, alike value found → likewise (convert value) (change found)) :
    pages.Agrees likewise (convert <$> parser) (change <$> other) := by
  rw [map_eq_pure_bind, map_eq_pure_bind]
  exact hparser.bind fun halike ↦ .pure (hlikewise halike)

theorem mono {wider : α → β → Prop} (hparser : pages.Agrees alike parser other)
    (hwider : ∀ {value found}, alike value found → wider value found) :
    pages.Agrees wider parser other := by
  refine ⟨fun {first second} hreaders ↦ ?_⟩
  have hagree := hparser.run hreaders
  generalize parser.run first = result at hagree ⊢
  generalize other.run second = found at hagree ⊢
  cases hagree with
  | ok hvalues => exact .ok ⟨hwider hvalues.1, hvalues.2⟩
  | error hfaults => exact .error hfaults

/-- Two parsers with the same answer go on alike. -/
theorem look {view : Parser α} {next : α → Parser γ} {otherNext : α → Parser δ}
    (hview : pages.Agrees Eq view view)
    (hnext : ∀ value, pages.Agrees likewise (next value) (otherNext value)) :
    pages.Agrees likewise (view >>= next) (view >>= otherNext) :=
  hview.bind fun hvalue ↦ hvalue ▸ hnext _

theorem ite {condition : Prop} [Decidable condition] {parser' : Parser α} {other' : Parser β}
    (hparser : pages.Agrees alike parser other) (hparser' : pages.Agrees alike parser' other') :
    pages.Agrees alike (if condition then parser else parser')
      (if condition then other else other') := by
  split_ifs
  · exact hparser
  · exact hparser'

end Agrees

end Pages

namespace Parser

variable {α : Type} {pages : Pages}

theorem agrees_peek (count : Nat) : pages.Agrees Eq (peek count) (peek count) :=
  ⟨fun hreaders ↦ .ok ⟨(hreaders.peek count).1.symm, (hreaders.peek count).2⟩⟩

theorem agrees_advance : pages.Agrees Eq advance advance :=
  ⟨fun hreaders ↦ .ok ⟨rfl, hreaders.next⟩⟩

theorem run_fail (rule : Rule) (expected : Expected) (lexer : Lexer) :
    (fail rule expected : Parser α).run lexer =
      (match (lexer.peek 0).2.stray with
        | some stray => throw (.lexical (stray.locate (lexer.peek 0).2.source))
        | none => throw (.grammar rule expected ((lexer.peek 0).1.map Lexeme.token)
            (.ofOffset (lexer.peek 0).2.source (((lexer.peek 0).1.map fun lexeme ↦
              lexeme.span.start).getD (Text.width (lexer.peek 0).2.source)))) : Parser α).run
        lexer :=
  rfl

theorem agrees_fail {β : Type} {alike : α → β → Prop} (rule : Rule) (expected : Expected) :
    pages.Agrees alike (fail rule expected) (fail rule expected) := by
  refine ⟨fun {first second} hreaders ↦ ?_⟩
  obtain ⟨htoken, hpeeked⟩ := hreaders.peek 0
  have hstray := hpeeked.stray
  rw [run_fail, run_fail, htoken, hpeeked.first_source, hpeeked.second_source]
  generalize (first.peek 0).2.stray = found at hstray ⊢
  generalize (second.peek 0).2.stray = also at hstray ⊢
  cases hstray with
  | some hstrays => exact .error (hstrays ▸ .lexical _)
  | none => exact .error (.grammar rule expected _ _ _)

theorem agrees_isMark (count : Nat) (mark : Mark) :
    pages.Agrees Eq (isMark count mark) (isMark count mark) :=
  (agrees_peek count).look fun _ ↦ .pure rfl

theorem agrees_isSymbol : pages.Agrees Eq isSymbol isSymbol := by
  refine (agrees_peek 0).look fun token ↦ ?_
  split
  · exact .pure rfl
  · exact .pure rfl

theorem agrees_isSymbolBefore (mark : Mark) :
    pages.Agrees Eq (isSymbolBefore mark) (isSymbolBefore mark) :=
  agrees_isSymbol.look fun _ ↦ .ite (agrees_isMark 1 mark) (.pure rfl)

theorem agrees_accept (mark : Mark) : pages.Agrees Eq (accept mark) (accept mark) :=
  (agrees_isMark 0 mark).look fun _ ↦ .ite (agrees_advance.look fun _ ↦ .pure rfl) (.pure rfl)

theorem agrees_expect (rule : Rule) (mark : Mark) :
    pages.Agrees Eq (expect rule mark) (expect rule mark) :=
  (agrees_accept mark).look fun _ ↦ .ite (.pure rfl) (agrees_fail rule (.mark mark))

theorem agrees_symbol (rule : Rule) : pages.Agrees Eq (symbol rule) (symbol rule) := by
  refine (agrees_peek 0).look fun token ↦ ?_
  split
  · exact agrees_advance.look fun _ ↦ .pure rfl
  · exact agrees_fail rule .symbol

theorem agrees_keyword (rule : Rule) (word : String) :
    pages.Agrees Eq (keyword rule word) (keyword rule word) :=
  (agrees_peek 0).look fun _ ↦ .ite agrees_advance (agrees_fail rule (.word word))

theorem agrees_defaultText :
    pages.Agrees (fun text other ↦ other.text = text.text) defaultText defaultText := by
  refine ⟨fun {first second} hreaders ↦ ?_⟩
  obtain ⟨htext, hrest⟩ := hreaders.restOfLine
  rw [run_defaultText, run_defaultText, htext, ← first.restOfLine_eq, ← second.restOfLine_eq]
  have hagrees : pages.Agrees (fun text other : DefaultText ↦ other.text = text.text)
      (if first.restOfLine.1.text.isEmpty then fail .defaultText .defaultText
        else return ⟨String.ofList first.restOfLine.1.text, first.restOfLine.1.span⟩)
      (if first.restOfLine.1.text.isEmpty then fail .defaultText .defaultText
        else return ⟨String.ofList second.restOfLine.1.text, second.restOfLine.1.span⟩) :=
    .ite (agrees_fail .defaultText .defaultText) (.pure (congrArg String.ofList htext))
  exact hagrees.run hrest

/-! ### Repetition -/

section Repetition

variable {alike : α → α → Prop} {step : Parser (Option α)}
  {relation : Cursor → Option α → Cursor → Prop}

/-- Within limits that are not reached, two repetitions go through the same steps. -/
theorem agree_repeatUpTo (hstep : pages.Agrees (Option.Rel alike) step step)
    (hrecognizes : step.Recognizes relation) (hprogresses : Progresses relation)
    {limit other : Nat} {first second : Lexer} (hreaders : pages.Readers first second)
    (hlimit : first.place.rest.length < limit) (hother : second.place.rest.length < other) :
    Agree (ParseFault.Alike pages.lines)
      (fun value found ↦ List.Forall₂ alike value.1 found.1 ∧ pages.Readers value.2 found.2)
      ((repeatUpTo step limit).run first) ((repeatUpTo step other).run second) := by
  induction limit generalizing other first second with
  | zero => simp at hlimit
  | succ limit ih =>
    cases other with
    | zero => simp at hother
    | succ other =>
      rw [repeatUpTo, repeatUpTo, StateT.run_bind, StateT.run_bind]
      refine (hstep.run hreaders).bind ?_
      rintro ⟨answer, next⟩ ⟨found, last⟩ hfirst hsecond
        ⟨hanswer, (hnext : pages.Readers next last)⟩
      cases hanswer with
      | none => exact .ok ⟨.nil, hnext⟩
      | some halike =>
        have hshorter := hprogresses (hrecognizes.sound hreaders.first_faithful hfirst).2
        have halso := hprogresses (hrecognizes.sound hreaders.second_faithful hsecond).2
        refine (ih hnext (by omega) (by omega)).bind fun _ _ hothers ↦ ?_
        exact .ok ⟨.cons halike hothers.1, hothers.2⟩

theorem agrees_many (hstep : pages.Agrees (Option.Rel alike) step step)
    (hrecognizes : step.Recognizes relation) (hprogresses : Progresses relation) :
    pages.Agrees (List.Forall₂ alike) (many step) (many step) := by
  refine ⟨fun {first second} hreaders ↦ ?_⟩
  rw [run_many, run_many]
  exact agree_repeatUpTo hstep hrecognizes hprogresses hreaders (length_place_lt first)
    (length_place_lt second)

end Repetition

theorem agrees_count (mark : Mark) : pages.Agrees Eq (count mark) (count mark) := by
  have hstep : pages.Agrees (Option.Rel Eq)
      (do return if ← accept mark then some () else none)
      (do return if ← accept mark then some () else none) := by
    refine (agrees_accept mark).look fun taken ↦ .pure ?_
    cases taken with
    | true => exact .some rfl
    | false => exact .none
  exact (agrees_many hstep (recognizes_countStep mark) (progresses_takesOrEnds (by simp))).bind
    fun hmarks ↦ .pure hmarks.length_eq

theorem agrees_skipNewlines : pages.Agrees Eq skipNewlines skipNewlines :=
  (agrees_count .newline).look fun _ ↦ .pure rfl

theorem agrees_commaSeparated {alike : α → α → Prop} {gap : Parser Unit} {item : Parser α}
    {relation : Cursor → Option α → Cursor → Prop} (hgap : pages.Agrees Eq gap gap)
    (hitem : pages.Agrees alike item item)
    (hstep : (do
      if ← accept .comma then
        gap
        return some (← item)
      else return none : Parser (Option α)).Recognizes relation)
    (hprogresses : Progresses relation) :
    pages.Agrees (List.Forall₂ alike) (commaSeparated gap item) (commaSeparated gap item) := by
  have hmany := agrees_many ((agrees_accept .comma).look fun _ ↦ .ite
    (hgap.look fun _ ↦ hitem.bind fun halike ↦ .pure (.some halike)) (.pure .none)) hstep
    hprogresses
  exact hitem.bind fun halike ↦ hmany.bind fun hothers ↦ .pure (.cons halike hothers)

/-! ### Fields -/

theorem agrees_fieldOption : pages.Agrees (Option.Rel Eq) fieldOption fieldOption :=
  (agrees_accept .question).look fun _ ↦ .ite (.pure (.some rfl)) <|
    (agrees_accept .bang).look fun _ ↦ .ite (.pure (.some rfl)) <|
      (agrees_accept .tilde).look fun _ ↦ .ite (.pure (.some rfl)) (.pure .none)

theorem agrees_options : pages.Agrees Eq (many fieldOption) (many fieldOption) :=
  (agrees_many agrees_fieldOption recognizes_fieldOption (progresses_takesOrEnds (by simp))).mono
    fun hoptions ↦ by rwa [List.forall₂_eq_eq_eq] at hoptions

/-- The same field, up to the span of its default. -/
def SameField (field other : Field) : Prop := other.withoutSpan = field.withoutSpan

theorem agrees_field : pages.Agrees SameField field field := by
  have hanswer (name type : String) (options : List FieldOption) {initial other}
      (hinitial : Option.Rel (fun text other : DefaultText ↦ other.text = text.text)
        initial other) :
      pages.Agrees SameField (Pure.pure (⟨name, type, options, initial⟩ : Field) : Parser Field)
        (Pure.pure (⟨name, type, options, other⟩ : Field)) := by
    refine .pure ?_
    cases hinitial with
    | none => rfl
    | some htext => simp [SameField, Field.withoutSpan, htext]
  exact (agrees_symbol .field).look fun name ↦
    (agrees_expect .field .colon).look fun _ ↦
    (agrees_symbol .fieldType).look fun type ↦
    agrees_options.look fun options ↦
    (agrees_accept .equal).look fun _ ↦
    .ite ((agrees_defaultText.map fun htext ↦ .some htext).bind (hanswer name type options))
      ((Pages.Agrees.pure .none).bind (hanswer name type options))

theorem agrees_fields : pages.Agrees (List.Forall₂ SameField) fields fields :=
  agrees_many (agrees_skipNewlines.look fun _ ↦ (agrees_isSymbolBefore .colon).look fun _ ↦ .ite
    (agrees_field.bind fun hfield ↦ (agrees_isMark 0 .newline).look fun _ ↦
      (agrees_isMark 0 .closeBrace).look fun _ ↦ .ite (.pure (.some hfield))
        (agrees_fail .fieldList .newlineAfterField))
    (.pure .none)) recognizes_fieldStep progresses_fieldStep

/-! ### Statements -/

theorem agrees_shown : pages.Agrees Eq shown shown :=
  (agrees_keyword .shown "repr").look fun _ ↦
  (agrees_accept .equal).look fun _ ↦ .ite
    ((agrees_keyword .shown "all").look fun _ ↦ .pure rfl)
    ((agrees_expect .shown .openBrace).look fun _ ↦ agrees_skipNewlines.look fun _ ↦
      (agrees_commaSeparated agrees_skipNewlines (agrees_symbol .shown) recognizes_nameStep
        (progresses_commaStep fun ⟨_, hgap⟩ ↦ ⟨_, hgap⟩)).bind fun hnames ↦
      agrees_skipNewlines.look fun _ ↦ (agrees_expect .shown .closeBrace).look fun _ ↦
      .pure (by rw [List.forall₂_eq_eq_eq] at hnames; rw [hnames]))

/-- The same table definition, up to the spans of its defaults. -/
def SameTable (definition other : TableDefinition) : Prop :=
  other.withoutSpans = definition.withoutSpans

theorem agrees_table : pages.Agrees SameTable table table := by
  have hend (name : String) {primaries others ordinary also : List Field}
      (hprimaries : List.Forall₂ SameField primaries others)
      (hordinary : List.Forall₂ SameField ordinary also) (clause : Option Shown) :
      pages.Agrees SameTable
        (do expect .table .closeBrace; return ⟨name, primaries, ordinary, clause⟩)
        (do expect .table .closeBrace; return ⟨name, others, also, clause⟩) := by
    refine (agrees_expect .table .closeBrace).look fun _ ↦ .pure ?_
    simp [SameTable, TableDefinition.withoutSpans, map_eq_of_forall₂ hprimaries,
      map_eq_of_forall₂ hordinary]
  exact (agrees_symbol .table).look fun name ↦
    (agrees_expect .table .openParen).look fun _ ↦
    (agrees_commaSeparated (.pure rfl) agrees_field recognizes_primaryStep
      (progresses_commaStep fun hcomma ↦ ⟨[], hcomma⟩)).bind fun hprimaries ↦
    (agrees_expect .table .closeParen).look fun _ ↦
    agrees_skipNewlines.look fun _ ↦
    (agrees_expect .table .openBrace).look fun _ ↦
    agrees_fields.bind fun hordinary ↦
    (agrees_peek 0).look fun _ ↦ .ite
      (agrees_shown.look fun clause ↦ agrees_skipNewlines.look fun _ ↦
        (Pages.Agrees.pure rfl).look fun _ ↦ hend name hprimaries hordinary _)
      ((Pages.Agrees.pure rfl).look fun _ ↦ hend name hprimaries hordinary _)

theorem agrees_weightedSymbol : pages.Agrees Eq weightedSymbol weightedSymbol :=
  (agrees_symbol .weightedSymbol).look fun _ ↦ (agrees_count .caret).look fun _ ↦ .pure rfl

theorem agrees_markers (rule : Rule) (mark : Mark) :
    pages.Agrees Eq (markers rule mark) (markers rule mark) :=
  (agrees_expect rule mark).look fun _ ↦ (agrees_accept mark).look fun _ ↦ .pure rfl

/-- The same relation, up to the spans of its defaults. -/
def SameRelation (relation other : Relation) : Prop := other.withoutSpans = relation.withoutSpans

theorem agrees_relation : pages.Agrees SameRelation relation relation := by
  have hend (left : Side) (number : Nat) : pages.Agrees SameRelation
      (do
        let right ← weightedSymbol
        skipNewlines
        expect .relation .openBrace
        let extra ← fields
        expect .relation .closeBrace
        return ⟨left, ⟨right.1, right.2, number⟩, extra⟩)
      (do
        let right ← weightedSymbol
        skipNewlines
        expect .relation .openBrace
        let extra ← fields
        expect .relation .closeBrace
        return ⟨left, ⟨right.1, right.2, number⟩, extra⟩) :=
    agrees_weightedSymbol.look fun right ↦ agrees_skipNewlines.look fun _ ↦
    (agrees_expect .relation .openBrace).look fun _ ↦ agrees_fields.bind fun hextra ↦
    (agrees_expect .relation .closeBrace).look fun _ ↦
    .pure (by simp [SameRelation, Relation.withoutSpans, map_eq_of_forall₂ hextra])
  exact agrees_weightedSymbol.look fun left ↦
    (agrees_markers .leftMarker .less).look fun leftMarkers ↦
    (agrees_accept .minus).look fun _ ↦
    (agrees_markers .rightMarker .greater).look fun rightMarkers ↦ .ite
      (hend ⟨left.1, left.2, leftMarkers⟩ rightMarkers)
      ((agrees_expect .relation .minus).look fun _ ↦
        hend ⟨left.1, left.2, leftMarkers⟩ rightMarkers)

/-- The same statement, up to the spans of its defaults. -/
def SameStatement (statement other : Statement) : Prop :=
  other.withoutSpans = statement.withoutSpans

theorem agrees_statement : pages.Agrees SameStatement statement statement :=
  agrees_isSymbol.look fun _ ↦ .ite
    ((agrees_isMark 1 .openParen).look fun _ ↦ .ite
      (agrees_table.bind fun htable ↦ .pure (congrArg Statement.table htable))
      (agrees_relation.bind fun hrelation ↦ .pure (congrArg Statement.relation hrelation)))
    (agrees_fail .statements .statement)

theorem agrees_statements :
    pages.Agrees (List.Forall₂ SameStatement) statements statements :=
  agrees_many (agrees_skipNewlines.look fun _ ↦ (agrees_peek 0).look fun _ ↦ .ite (.pure .none)
    (agrees_statement.bind fun hitem ↦ (agrees_isMark 0 .newline).look fun _ ↦
      (agrees_peek 0).look fun _ ↦ .ite (.pure (.some hitem))
        (agrees_fail .statements .newlineAfterStatement)))
    recognizes_statementStep progresses_statementStep

end Parser

/-! ### Whole texts -/

theorem Pages.readers_ofSource {source padded : List Char} (hpadded : Padded source padded) :
    (⟨source, padded, 0⟩ : Pages).Readers (.ofSource source) (.ofSource padded) where
  first_source := rfl
  second_source := rfl
  first_faithful := Lexer.faithful_ofSource source
  second_faithful := Lexer.faithful_ofSource padded
  cursor := beside_begin hpadded
  ahead := .nil
  stray := .none

/-- Padding changes neither the document of a text nor, apart from the column of a token, the fault
because of which it has none. -/
theorem agree_parse {source padded : String} (hpadded : Padded source.toList padded.toList) :
    Agree (ParseFault.Alike 0)
      (fun document other : Document ↦ other.withoutSpans = document.withoutSpans)
      (Document.parse source) (Document.parse padded) := by
  refine (Parser.agrees_statements.run (Pages.readers_ofSource hpadded)).bind ?_
  rintro ⟨statements, last⟩ ⟨others, next⟩ - - ⟨hstatements, hreaders⟩
  have hstray := hreaders.stray
  have hsource : last.source = source.toList := hreaders.first_source
  have hother : next.source = padded.toList := hreaders.second_source
  simp only [hsource, hother]
  generalize last.stray = found at hstray ⊢
  generalize next.stray = also at hstray ⊢
  cases hstray with
  | some hstrays => exact .error (hstrays ▸ .lexical _)
  | none => exact .ok (congrArg Document.mk (map_eq_of_forall₂ hstatements))

/-- What stands at the ends of lines does not matter. A text and a padded text have the same tokens,
the same document up to the spans of its defaults, and the same stray character in the same place,
if there is one. -/
theorem reads_alike_of_padded {source padded : String}
    (hpadded : Padded source.toList padded.toList) :
    Agree Eq (fun lexemes others ↦ others.map Lexeme.token = lexemes.map Lexeme.token)
      (tokenize source) (tokenize padded) ∧
    Agree (fun fault other ↦ ∀ stray, fault = .lexical stray ↔ other = .lexical stray)
      (fun document other : Document ↦ other.withoutSpans = document.withoutSpans)
      (Document.parse source) (Document.parse padded) := by
  refine ⟨agree_tokenize hpadded, ?_⟩
  have hparse := agree_parse hpadded
  generalize Document.parse source = result at hparse ⊢
  generalize Document.parse padded = other at hparse ⊢
  cases hparse with
  | ok hdocument => exact .ok hdocument
  | error halike =>
    refine .error fun stray ↦ ?_
    cases halike with
    | lexical fault => exact Iff.rfl
    | grammar => simp

/-- A text with a default that no tokens make up. -/
def stained : String := "A(id: int~) \x7b\n at: Day = $now\n\x7d"

/-- The same text with a carriage return and comments. -/
def paddedStained : String := "A(id: int~) \x7b\r\n at: Day = $now \t# set\n\x7d# done"

theorem padded_stained : Padded stained.toList paddedStained.toList := by
  have hsource : stained.toList = "A(id: int~) \x7b".toList ++ '\n' ::
      (" at: Day = $now".toList ++ '\n' :: ("\x7d".toList ++ [])) := by
    decide +kernel
  have hother : paddedStained.toList = "A(id: int~) \x7b".toList ++ (['\r'] ++ '\n' ::
      (" at: Day = $now".toList ++ (([' ', '\t'] ++ '#' :: " set".toList) ++ '\n' ::
        ("\x7d".toList ++ ([] ++ '#' :: " done".toList))))) := by
    decide +kernel
  rw [hsource, hother]
  have hreturn : ∀ character ∈ ['\r'], isLineBlank character = true := List.all_eq_true.mp rfl
  have hblanks : ∀ character ∈ [' ', '\t'], isLineBlank character = true := List.all_eq_true.mp rfl
  refine .append (.newline ⟨_, [], rfl, hreturn, Or.inl rfl⟩ ?_) (by decide)
  refine .append (.newline ⟨_, _, rfl, hblanks, Or.inr ⟨_, rfl, by decide⟩⟩ ?_) (by decide)
  refine .append (.finish ?_) (by decide)
  exact ⟨[], _, rfl, List.forall_mem_nil _, Or.inr ⟨_, rfl, by decide⟩⟩

theorem reads_alike_of_padded_stained :
    (tokenize stained = .error ⟨'$', ⟨2, 12⟩⟩ ∧ tokenize paddedStained = .error ⟨'$', ⟨2, 12⟩⟩) ∧
      ∃ document other, Document.parse stained = .ok document ∧
        Document.parse paddedStained = .ok other ∧
        other.withoutSpans = document.withoutSpans := by
  obtain ⟨htokenize, hparse⟩ := reads_alike_of_padded padded_stained
  have hstray : tokenize stained = .error ⟨'$', ⟨2, 12⟩⟩ := by decide +kernel
  have hok : (Document.parse stained).isOk = true := by decide +kernel
  refine ⟨⟨hstray, ?_⟩, ?_⟩
  · rw [hstray] at htokenize
    generalize tokenize paddedStained = result at htokenize ⊢
    cases htokenize with
    | error heq => rw [heq]
  · generalize Document.parse stained = result at hparse hok ⊢
    generalize Document.parse paddedStained = other at hparse ⊢
    cases hparse with
    | ok hdocument => exact ⟨_, _, rfl, rfl, hdocument⟩
    | error => cases hok

end SchemaCompiler
