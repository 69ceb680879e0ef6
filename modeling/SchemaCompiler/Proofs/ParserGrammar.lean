import SchemaCompiler.Proofs.Grammar
import SchemaCompiler.Proofs.Recognition

/-!
# The parser accepts exactly its grammar

Every parser of a rule recognizes what the rule of the grammar derives. A rule that ends in a
repetition, such as the options of a field, is recognized together with a condition on the token
that follows, since the parser takes as many repetitions as there are; in the rules around it, that
token is one that the condition allows.
-/

set_option autoImplicit false
set_option relaxedAutoImplicit false

namespace SchemaCompiler

namespace Parser

open Cursor

/-! ### Ends of lines -/

theorem recognizes_skipNewlines :
    skipNewlines.Recognizes fun cursor _ stop ↦
      (∃ number, cursor.Spells (newlines number) stop) ∧
        stop.token? ≠ some (.mark .newline) :=
  ((recognizes_count .newline).bind fun _ ↦ .pure ()).congr fun cursor _ stop ↦ by
    simp [newlines]

/-! ### Fields -/

theorem recognizes_fieldOption :
    fieldOption.Recognizes (TakesOrEnds (fun option ↦ [.mark option.mark])
      fun cursor ↦ ∀ option : FieldOption, cursor.token? ≠ some (.mark option.mark)) := by
  refine (recognizes_branch .question (.pure (some FieldOption.nullable))
    (recognizes_branch .bang (.pure (some FieldOption.unique))
      (recognizes_branch .tilde (.pure (some FieldOption.sequence)) (.pure none)))).congr
    fun cursor answer stop ↦ ?_
  cases answer with
  | none => split_ifs <;> simp_all [TakesOrEnds, FieldOption.forall_iff, FieldOption.mark]
  | some option => cases option <;> split_ifs <;> simp_all [TakesOrEnds, FieldOption.mark]

/-- The token at a place does not go on with a field. -/
def EndsField (cursor : Cursor) : Prop :=
  (∀ option : FieldOption, cursor.token? ≠ some (.mark option.mark)) ∧
    cursor.token? ≠ some (.mark .equal)

theorem endsField_of_mark {cursor : Cursor} {mark : Mark}
    (htoken : cursor.token? = some (.mark mark))
    (hmark : mark ∉ [Mark.question, .bang, .tilde, .equal]) : EndsField cursor := by
  rw [EndsField, htoken]
  constructor
  · intro option
    cases option <;> simp_all [FieldOption.mark]
  · simp_all

theorem endsField_afterRaw (cursor : Cursor) : EndsField cursor.afterRaw := by
  constructor
  · intro option htoken
    cases option <;> simpa [FieldOption.mark] using token?_afterRaw htoken
  · intro htoken
    simpa using token?_afterRaw htoken

theorem recognizes_field :
    field.Recognizes fun cursor value stop ↦ cursor.Spells value.items stop ∧ EndsField stop := by
  refine ((recognizes_symbol .field).bind fun name ↦
    (recognizes_expect .field .colon).bind fun _ ↦
    (recognizes_symbol .fieldType).bind fun type ↦
    (recognizes_many_items recognizes_fieldOption (by simp)).bind fun options ↦
    (recognizes_accept .equal).bind fun _ ↦
    .ite ((recognizes_defaultText.map some).bind fun initial ↦
        .pure (⟨name, type, options, initial⟩ : Field))
      ((Recognizes.pure none).bind fun initial ↦
        .pure (⟨name, type, options, initial⟩ : Field))).congr fun cursor value stop ↦ ?_
  obtain ⟨givenName, givenType, givenOptions, givenInitial⟩ := value
  simp only [spells_token_cons, spells_nil, ← List.map_eq_flatMap, ne_eq, and_assoc,
    exists_eq_left', Field.mk.injEq, exists_and_left, exists_eq_left, Bool.exists_bool,
    Bool.false_eq_true, ↓reduceIte, exists_const, Field.items, spells_append]
  constructor
  · rintro ⟨name, hname, hcolon, type, htype, options, middle, hoptions, hends, hinitial⟩
    rcases hinitial with ⟨hequal, rfl, rfl, rfl, rfl, rfl⟩ | ⟨hequal, hraw, rfl, rfl, rfl, rfl, rfl⟩
    · exact ⟨hname, hcolon, htype, ⟨stop, hoptions, rfl⟩, hends, hequal⟩
    · exact ⟨hname, hcolon, htype, ⟨middle, hoptions, hequal, ⟨rfl, hraw⟩, rfl⟩,
        endsField_afterRaw middle.after⟩
  · rintro ⟨hname, hcolon, htype, ⟨middle, hoptions, hinitial⟩, hends⟩
    refine ⟨givenName, hname, hcolon, givenType, htype, givenOptions, middle, hoptions, ?_⟩
    cases givenInitial with
    | none =>
      obtain rfl : stop = middle := hinitial
      exact ⟨hends.1, Or.inl ⟨hends.2, rfl, rfl, rfl, rfl, rfl⟩⟩
    | some text =>
      obtain ⟨hequal, ⟨rfl, hraw⟩, rfl⟩ := hinitial
      refine ⟨?_, Or.inr ⟨hequal, hraw, rfl, rfl, rfl, rfl, rfl⟩⟩
      rw [hequal]
      intro option
      cases option <;> simp [FieldOption.mark]

/-! ### Lists with commas -/

section Commas

variable {α : Type} {gap : Parser Unit} {item : Parser α} {allows separates : List Item → Prop}
  {writes : α → List Item → Prop} {opens ends : Cursor → Prop}

/-- One more item of a list with commas, or the end of the list. -/
def CommaStep (separates : List Item → Prop) (writes : α → List Item → Prop)
    (ends : Cursor → Prop) : Cursor → Option α → Cursor → Prop
  | cursor, some value, stop =>
    (∃ separator own, separates separator ∧ writes value own ∧
      cursor.Spells (separator ++ own) stop) ∧ ends stop
  | cursor, none, stop => cursor.token? ≠ some (.mark .comma) ∧ stop = cursor

theorem recognizes_commaStep
    (hgap : gap.Recognizes fun cursor _ stop ↦
      (∃ own, allows own ∧ cursor.Spells own stop) ∧ opens stop)
    (hitem : item.Recognizes fun cursor value stop ↦
      (∃ own, writes value own ∧ cursor.Spells own stop) ∧ ends stop)
    (hseparates : ∀ items, separates items ↔ ∃ own, allows own ∧ items = .mark .comma :: own)
    (hopens : ∀ {value own cursor stop}, writes value own → cursor.Spells own stop →
      opens cursor) :
    (do
      if ← accept .comma then
        gap
        return some (← item)
      else return none : Parser (Option α)).Recognizes (CommaStep separates writes ends) := by
  refine ((recognizes_accept .comma).bind fun _ ↦ .ite
    (hgap.bind fun _ ↦ hitem.bind fun value ↦ .pure (some value)) (.pure none)).congr
    fun cursor answer stop ↦ ?_
  cases answer with
  | none => simp [CommaStep]
  | some value =>
    constructor
    · rintro ⟨_ | _, middle, htaken, hrest⟩
      · simp at hrest
      · obtain ⟨_, next, ⟨⟨between, hallows, hbetween⟩, -⟩, _, _, hvalue, heq, rfl⟩ := hrest
        obtain rfl : value = _ := Option.some.inj heq
        obtain ⟨⟨own, hwrites, hspells⟩, hends⟩ := hvalue
        obtain ⟨hcomma, rfl⟩ := htaken
        have hseparator : cursor.Spells (.mark .comma :: between) next := ⟨hcomma, hbetween⟩
        exact ⟨⟨_, own, (hseparates _).2 ⟨between, hallows, rfl⟩, hwrites,
          spells_append.2 ⟨next, hseparator, hspells⟩⟩, hends⟩
    · rintro ⟨⟨separator, own, hseparator, hwrites, hspells⟩, hends⟩
      obtain ⟨between, hallows, rfl⟩ := (hseparates _).1 hseparator
      obtain ⟨next, ⟨hcomma, hbetween⟩, hspells⟩ := spells_append.1 hspells
      exact ⟨true, cursor.after, ⟨hcomma, rfl⟩, (), next,
        ⟨⟨between, hallows, hbetween⟩, hopens hwrites hspells⟩, value, stop,
        ⟨⟨own, hwrites, hspells⟩, hends⟩, rfl, rfl⟩

/-- One item, and then the further items of a list with commas. -/
theorem chain_commaStep_iff (hends : ∀ {cursor : Cursor},
      cursor.token? = some (.mark .comma) → ends cursor)
    (hcomma : ∀ {separator}, separates separator → ∃ own, separator = .mark .comma :: own)
    {values : List α} {value : α} {cursor stop : Cursor} :
    (∃ middle, ((∃ own, writes value own ∧ cursor.Spells own middle) ∧ ends middle) ∧
        Chain (CommaStep separates writes ends) middle values stop) ↔
      (∃ items, Separated separates writes (value :: values) items ∧ cursor.Spells items stop) ∧
        ends stop ∧ stop.token? ≠ some (.mark .comma) := by
  induction values generalizing value cursor with
  | nil =>
    simp only [Chain, CommaStep, separated_singleton_iff]
    constructor
    · rintro ⟨middle, ⟨hvalue, hmiddle⟩, hcomma, rfl⟩
      exact ⟨hvalue, hmiddle, hcomma⟩
    · rintro ⟨hvalue, hmiddle, hcomma⟩
      exact ⟨stop, ⟨hvalue, hmiddle⟩, hcomma, rfl⟩
  | cons next values ih =>
    simp only [Chain, CommaStep, separated_cons_cons_iff]
    constructor
    · rintro ⟨middle, ⟨⟨own, hwrites, hspells⟩, -⟩, last,
        ⟨⟨separator, nextOwn, hseparator, hnext, hnextSpells⟩, hlast⟩, hchain⟩
      obtain ⟨start, hbetween, hnextSpells⟩ := spells_append.1 hnextSpells
      obtain ⟨⟨rest, hrest, hrestSpells⟩, hstop⟩ :=
        ih.1 ⟨last, ⟨⟨nextOwn, hnext, hnextSpells⟩, hlast⟩, hchain⟩
      exact ⟨⟨_, ⟨own, separator, rest, hwrites, hseparator, hrest, rfl⟩, spells_append.2
        ⟨middle, hspells, spells_append.2 ⟨start, hbetween, hrestSpells⟩⟩⟩, hstop⟩
    · rintro ⟨⟨_, ⟨own, separator, rest, hwrites, hseparator, hrest, rfl⟩, hspells⟩, hstop⟩
      obtain ⟨middle, hown, htail⟩ := spells_append.1 hspells
      obtain ⟨start, hbetween, hrestSpells⟩ := spells_append.1 htail
      obtain ⟨last, ⟨⟨nextOwn, hnext, hnextSpells⟩, hlast⟩, hchain⟩ :=
        ih.2 ⟨⟨rest, hrest, hrestSpells⟩, hstop⟩
      obtain ⟨between, rfl⟩ := hcomma hseparator
      exact ⟨middle, ⟨⟨own, hwrites, hown⟩, hends hbetween.token?⟩, last,
        ⟨⟨_, nextOwn, hseparator, hnext, spells_append.2 ⟨start, hbetween, hnextSpells⟩⟩, hlast⟩,
        hchain⟩

theorem progresses_commaStep
    (hcomma : ∀ {separator}, separates separator → ∃ own, separator = .mark .comma :: own) :
    Progresses (CommaStep separates writes ends) := by
  rintro cursor stop value ⟨⟨separator, own, hseparator, -, hspells⟩, -⟩
  obtain ⟨between, rfl⟩ := hcomma hseparator
  exact hspells.length_lt

/-- A list with commas is recognized if its items and the steps to further items are, where an item
may end before a comma. -/
theorem recognizes_commaSeparated
    (hitem : item.Recognizes fun cursor value stop ↦
      (∃ own, writes value own ∧ cursor.Spells own stop) ∧ ends stop)
    (hstep : (do
      if ← accept .comma then
        gap
        return some (← item)
      else return none : Parser (Option α)).Recognizes (CommaStep separates writes ends))
    (hcomma : ∀ {separator}, separates separator → ∃ own, separator = .mark .comma :: own)
    (hends : ∀ {cursor : Cursor}, cursor.token? = some (.mark .comma) → ends cursor) :
    (commaSeparated gap item).Recognizes fun cursor values stop ↦
      (∃ items, Separated separates writes values items ∧ cursor.Spells items stop) ∧
        ends stop ∧ stop.token? ≠ some (.mark .comma) := by
  have hmany := recognizes_many hstep (progresses_commaStep hcomma)
  refine (hitem.bind fun first ↦ hmany.bind fun others ↦ .pure (first :: others)).congr
    fun cursor values stop ↦ ?_
  cases values with
  | nil =>
    constructor
    · rintro ⟨first, middle, -, others, last, -, heq, -⟩
      simp at heq
    · rintro ⟨⟨items, hseparated, -⟩, -⟩
      cases hseparated
  | cons value values =>
    rw [← chain_commaStep_iff hends hcomma]
    constructor
    · rintro ⟨first, middle, hfirst, others, last, hchain, heq, rfl⟩
      obtain ⟨rfl, rfl⟩ := List.cons_eq_cons.1 heq
      exact ⟨middle, hfirst, hchain⟩
    · rintro ⟨middle, hfirst, hchain⟩
      exact ⟨value, middle, hfirst, values, stop, hchain, rfl, rfl⟩

end Commas

theorem recognizes_primary :
    field.Recognizes fun cursor value stop ↦
      (∃ own, own = value.items ∧ cursor.Spells own stop) ∧ EndsField stop :=
  recognizes_field.congr fun cursor value stop ↦ by simp

theorem recognizes_primaryStep :
    (do
      if ← accept .comma then
        pure ()
        return some (← field)
      else return none : Parser (Option Field)).Recognizes
      (CommaStep IsComma (fun field own ↦ own = field.items) EndsField) := by
  have hgap : (pure () : Parser Unit).Recognizes fun cursor _ stop ↦
      (∃ own, own = [] ∧ cursor.Spells own stop) ∧ True :=
    (Recognizes.pure ()).congr fun cursor _ stop ↦ by simp
  exact recognizes_commaStep hgap recognizes_primary (fun items ↦ by simp [IsComma])
    fun _ _ ↦ trivial

theorem recognizes_primaries :
    (commaSeparated (pure ()) field).Recognizes fun cursor fields stop ↦
      (∃ items, Separated IsComma (fun field own ↦ own = field.items) fields items ∧
        cursor.Spells items stop) ∧
      EndsField stop ∧ stop.token? ≠ some (.mark .comma) :=
  recognizes_commaSeparated recognizes_primary recognizes_primaryStep
    (fun hcomma ↦ ⟨[], hcomma⟩) fun hcomma ↦ endsField_of_mark hcomma (by decide)

theorem isCommaGap_iff {items : List Item} :
    IsCommaGap items ↔
      ∃ own, (∃ number, own = newlines number) ∧ items = .mark .comma :: own := by
  constructor
  · rintro ⟨number, rfl⟩
    exact ⟨_, ⟨number, rfl⟩, rfl⟩
  · rintro ⟨_, ⟨number, rfl⟩, rfl⟩
    exact ⟨number, rfl⟩

theorem recognizes_name :
    (symbol .shown).Recognizes fun cursor name stop ↦
      (∃ own, own = [.symbol name] ∧ cursor.Spells own stop) ∧ True :=
  (recognizes_symbol .shown).congr fun cursor value stop ↦ by simp

theorem recognizes_nameStep :
    (do
      if ← accept .comma then
        skipNewlines
        return some (← symbol .shown)
      else return none : Parser (Option String)).Recognizes
      (CommaStep IsCommaGap (fun name own ↦ own = [.symbol name]) fun _ ↦ True) := by
  have hgap : skipNewlines.Recognizes fun cursor _ stop ↦
      (∃ own, (∃ number, own = newlines number) ∧ cursor.Spells own stop) ∧
        stop.token? ≠ some (.mark .newline) := by
    refine recognizes_skipNewlines.congr fun cursor _ stop ↦ and_congr_left fun _ ↦ ?_
    constructor
    · rintro ⟨number, hspells⟩
      exact ⟨_, ⟨number, rfl⟩, hspells⟩
    · rintro ⟨_, ⟨number, rfl⟩, hspells⟩
      exact ⟨number, hspells⟩
  refine recognizes_commaStep hgap recognizes_name (fun _ ↦ isCommaGap_iff) ?_
  rintro name own cursor stop rfl hspells
  simp [hspells.token?, Item.first]

theorem recognizes_names :
    (commaSeparated skipNewlines (symbol .shown)).Recognizes fun cursor names stop ↦
      (∃ items, Separated IsCommaGap (fun name own ↦ own = [.symbol name]) names items ∧
        cursor.Spells items stop) ∧
      stop.token? ≠ some (.mark .comma) :=
  (recognizes_commaSeparated recognizes_name recognizes_nameStep
    (fun ⟨number, hgap⟩ ↦ ⟨_, hgap⟩) fun _ ↦ trivial).congr fun cursor names stop ↦ by simp

/-! ### Blocks of fields -/

/-- A symbol and a colon stand at a place. -/
def BeginsField (cursor : Cursor) : Prop :=
  (∃ name, cursor.token? = some (.symbol name)) ∧ cursor.after.token? = some (.mark .colon)

theorem beginsField_iff {cursor : Cursor} :
    (cursor.beginsSymbol && cursor.tokenAt? 1 == some (.mark .colon)) = true ↔
      BeginsField cursor := by
  rw [Bool.and_eq_true, beginsSymbol_iff, beq_iff_eq]
  refine and_congr_right fun ⟨name, hname⟩ ↦ ?_
  simp [tokenAt?, hname]

theorem beginsField_of_spells {cursor stop : Cursor} {field : Field}
    (hspells : cursor.Spells field.items stop) : BeginsField cursor :=
  ⟨⟨field.name, hspells.1⟩, hspells.2.1⟩

theorem not_beginsField_of_brace {cursor stop : Cursor} {rest : List Item}
    (hspells : cursor.Spells (.mark .closeBrace :: rest) stop) : ¬BeginsField cursor := by
  rintro ⟨⟨name, hname⟩, -⟩
  simp [hspells.token?, Item.first] at hname

/-- One more field of a block, or the end of its fields. -/
def FieldStep : Cursor → Option Field → Cursor → Prop
  | cursor, some field, stop =>
    (∃ number, cursor.Spells (newlines number ++ field.items) stop) ∧
      (stop.token? = some (.mark .newline) ∨ stop.token? = some (.mark .closeBrace))
  | cursor, none, stop =>
    (∃ number, cursor.Spells (newlines number) stop) ∧
      stop.token? ≠ some (.mark .newline) ∧ ¬BeginsField stop

theorem recognizes_fieldStep :
    (do
      skipNewlines
      if ← isSymbolBefore .colon then
        let item ← field
        if (← isMark 0 .newline) || (← isMark 0 .closeBrace) then return some item
        else fail .fieldList .newlineAfterField
      else return none : Parser (Option Field)).Recognizes FieldStep := by
  refine (recognizes_skipNewlines.bind fun _ ↦
    (recognizes_isSymbolBefore .colon).look fun _ ↦ .ite
      (recognizes_field.bind fun value ↦ (recognizes_isMark 0 .newline).look fun _ ↦
        (recognizes_isMark 0 .closeBrace).look fun _ ↦
          .ite (.pure (some value)) (recognizes_fail .fieldList .newlineAfterField))
      (.pure none)).congr fun cursor answer stop ↦ ?_
  constructor
  · rintro ⟨_, middle, ⟨⟨number, hnewlines⟩, hnewline⟩, hanswer⟩
    split_ifs at hanswer with hbegins
    · obtain ⟨field, last, ⟨hfield, -⟩, hanswer⟩ := hanswer
      split_ifs at hanswer with hends
      obtain ⟨rfl, rfl⟩ := hanswer
      refine ⟨⟨number, spells_append.2 ⟨middle, hnewlines, hfield⟩⟩, ?_⟩
      simpa [tokenAt?] using hends
    · obtain ⟨rfl, rfl⟩ := hanswer
      exact ⟨⟨number, hnewlines⟩, hnewline, mt beginsField_iff.2 hbegins⟩
  · cases answer with
    | none =>
      rintro ⟨hnewlines, hnewline, hbegins⟩
      refine ⟨(), stop, ⟨hnewlines, hnewline⟩, ?_⟩
      rw [if_neg (mt beginsField_iff.1 hbegins)]
      exact ⟨rfl, rfl⟩
    | some field =>
      rintro ⟨⟨number, hspells⟩, hends⟩
      obtain ⟨middle, hnewlines, hfield⟩ := spells_append.1 hspells
      have hbegins := beginsField_of_spells hfield
      refine ⟨(), middle, ⟨⟨number, hnewlines⟩, by simp [hfield.1]⟩, ?_⟩
      rw [if_pos (beginsField_iff.2 hbegins)]
      refine ⟨field, stop, ⟨hfield, ?_⟩, ?_⟩
      · rcases hends with hends | hends
        · exact endsField_of_mark hends (by decide)
        · exact endsField_of_mark hends (by decide)
      · rw [if_pos (by simpa [tokenAt?] using hends)]
        exact ⟨rfl, rfl⟩

theorem progresses_fieldStep : Progresses FieldStep := by
  rintro cursor stop field ⟨⟨number, hspells⟩, -⟩
  obtain ⟨middle, hnewlines, hfield⟩ := spells_append.1 hspells
  exact hfield.length_lt.trans_le hnewlines.length_le

theorem recognizes_fields : fields.Recognizes (Chain FieldStep) :=
  recognizes_many recognizes_fieldStep progresses_fieldStep

theorem token?_ne_newline_of_chain {fields : List Field} {cursor stop : Cursor}
    (hchain : Chain FieldStep cursor fields stop) : stop.token? ≠ some (.mark .newline) := by
  induction fields generalizing cursor with
  | nil => exact hchain.2.1
  | cons field fields ih =>
    obtain ⟨next, -, hchain⟩ := hchain
    exact ih hchain

/-- The fields that a parser takes before a tail stand one a line before it. -/
theorem fieldLines_of_chain {fields : List Field} {cursor middle stop : Cursor} {first : Item}
    {rest : List Item} (hchain : Chain FieldStep cursor fields middle)
    (htail : middle.Spells (first :: rest) stop) :
    ∃ gap block, FieldLines (first :: rest) fields block ∧
      cursor.Spells (newlines gap ++ block) stop := by
  induction fields generalizing cursor with
  | nil =>
    obtain ⟨⟨number, hnewlines⟩, -⟩ := hchain
    exact ⟨number, _, .nil, spells_append.2 ⟨middle, hnewlines, htail⟩⟩
  | cons field fields ih =>
    obtain ⟨next, ⟨⟨number, hspells⟩, hends⟩, hchain⟩ := hchain
    obtain ⟨gap, block, hblock, hrest⟩ := ih hchain
    cases gap with
    | succ gap =>
      refine ⟨number, _, .line gap hblock, ?_⟩
      rw [← List.append_assoc]
      exact spells_append.2 ⟨next, hspells, hrest⟩
    | zero =>
      refine ⟨number, _, .beforeBrace hblock ?_, ?_⟩
      · obtain ⟨head, others, rfl, hhead⟩ := hblock.exists_cons
        have hnext : next.token? = some head.first := hrest.token?
        rcases hhead with rfl | ⟨name, rfl⟩
        · have hnewline := token?_ne_newline_of_chain hchain
          rw [htail.token?, ← hnext] at hnewline
          have hbrace := hends.resolve_left hnewline
          rw [hnext, Option.some.injEq] at hbrace
          simp [Item.eq_mark_of_first_eq hbrace (by decide)]
        · simp [hnext, Item.first] at hends
      · rw [← List.append_assoc]
        exact spells_append.2 ⟨next, hspells, hrest⟩

/-- Fields that stand one a line before a tail are taken up to it. -/
theorem exists_chain_of_fieldLines {fields : List Field} {cursor stop : Cursor} {first : Item}
    {rest tail block : List Item} (number : Nat) {gap : Nat} (hblock : FieldLines tail fields block)
    (htail : tail = newlines number ++ first :: rest) (hnewline : first.first ≠ .mark .newline)
    (hbegins : ∀ {middle : Cursor}, middle.Spells (first :: rest) stop → ¬BeginsField middle)
    (hspells : cursor.Spells (newlines gap ++ block) stop) :
    ∃ middle, Chain FieldStep cursor fields middle ∧ middle.Spells (first :: rest) stop := by
  induction hblock generalizing cursor gap with
  | nil =>
    rw [htail, ← List.append_assoc, ← newlines_add] at hspells
    obtain ⟨middle, hnewlines, hrest⟩ := spells_append.1 hspells
    refine ⟨middle, ⟨⟨_, hnewlines⟩, ?_, hbegins hrest⟩, hrest⟩
    simpa [hrest.token?] using hnewline
  | @line field fields block count hblock ih =>
    rw [← List.append_assoc] at hspells
    obtain ⟨next, hfield, hrest⟩ := spells_append.1 hspells
    obtain ⟨middle, hchain, hmiddle⟩ := ih hrest
    have hends : next.token? = some (.mark .newline) := by
      rw [newlines_succ] at hrest
      exact hrest.token?
    exact ⟨middle, ⟨next, ⟨⟨gap, hfield⟩, Or.inl hends⟩, hchain⟩, hmiddle⟩
  | @beforeBrace field fields block hblock hbrace ih =>
    rw [← List.append_assoc] at hspells
    obtain ⟨next, hfield, hrest⟩ := spells_append.1 hspells
    obtain ⟨middle, hchain, hmiddle⟩ := @ih next 0 hrest
    have hends : next.token? = some (.mark .closeBrace) := by
      obtain ⟨others, rfl⟩ := List.head?_eq_some_iff.1 hbrace
      exact hrest.token?
    exact ⟨middle, ⟨next, ⟨⟨gap, hfield⟩, Or.inr hends⟩, hchain⟩, hmiddle⟩

/-! ### Table definitions -/

/-- Ends of lines before a token of another kind are taken up to it. -/
theorem exists_skip_of_spells {cursor stop : Cursor} {number : Nat} {first : Item}
    {rest : List Item} (hspells : cursor.Spells (newlines number ++ first :: rest) stop)
    (hfirst : first.first ≠ .mark .newline) :
    ∃ middle, ((∃ number, cursor.Spells (newlines number) middle) ∧
      middle.token? ≠ some (.mark .newline)) ∧ middle.Spells (first :: rest) stop := by
  obtain ⟨middle, hnewlines, hrest⟩ := spells_append.1 hspells
  refine ⟨middle, ⟨⟨number, hnewlines⟩, ?_⟩, hrest⟩
  simpa [hrest.token?] using hfirst

theorem token?_newlines_append {cursor stop : Cursor} {number : Nat} {first : Item}
    {rest : List Item} (hspells : cursor.Spells (newlines number ++ first :: rest) stop) :
    cursor.token? = some (.mark .newline) ∨ cursor.token? = some first.first := by
  cases number with
  | zero => exact Or.inr hspells.token?
  | succ number =>
    rw [newlines_succ] at hspells
    exact Or.inl hspells.token?

theorem recognizes_shown :
    shown.Recognizes fun cursor clause stop ↦
      ∃ items, clause.Written items ∧ cursor.Spells items stop := by
  refine ((recognizes_keyword .shown "repr").bind fun _ ↦
    (recognizes_accept .equal).bind fun _ ↦ .ite
      ((recognizes_keyword .shown "all").bind fun _ ↦ .pure Shown.all)
      ((recognizes_expect .shown .openBrace).bind fun _ ↦
        recognizes_skipNewlines.bind fun _ ↦ recognizes_names.bind fun names ↦
          recognizes_skipNewlines.bind fun _ ↦
            (recognizes_expect .shown .closeBrace).bind fun _ ↦
              .pure (Shown.fields names))).congr fun cursor clause stop ↦ ?_
  constructor
  · rintro ⟨_, start, hrepr, _ | _, middle, hequal, hanswer⟩
    · obtain ⟨_, opened, hopen, _, listed, ⟨⟨before, hbefore⟩, -⟩, names, named,
        ⟨⟨body, hbody, hnames⟩, -⟩, _, closed, ⟨⟨after, hafter⟩, -⟩, _, last, hclose, rfl, rfl⟩ :=
        hanswer
      obtain ⟨-, rfl⟩ := hequal
      obtain ⟨hrepr, rfl⟩ := hrepr
      obtain ⟨hopen, rfl⟩ := hopen
      refine ⟨_, ⟨before, body, after, hbody, rfl⟩, hrepr, hopen, ?_⟩
      exact spells_append.2 ⟨listed, hbefore, spells_append.2 ⟨named, hnames,
        spells_append.2 ⟨closed, hafter, hclose⟩⟩⟩
    · obtain ⟨_, last, ⟨hall, rfl⟩, rfl, rfl⟩ := hanswer
      obtain ⟨hrepr, rfl⟩ := hrepr
      obtain ⟨hequal, rfl⟩ := hequal
      exact ⟨_, rfl, hrepr, hequal, hall, rfl⟩
  · rintro ⟨items, hwritten, hspells⟩
    cases clause with
    | all =>
      obtain rfl := hwritten
      obtain ⟨hrepr, hequal, hall, rfl⟩ := hspells
      exact ⟨(), _, ⟨hrepr, rfl⟩, true, _, ⟨hequal, rfl⟩, (), _, ⟨hall, rfl⟩, rfl, rfl⟩
    | fields names =>
      obtain ⟨before, body, after, hbody, rfl⟩ := hwritten
      obtain ⟨hrepr, hopen, hspells⟩ := hspells
      obtain ⟨listed, hbefore, hspells⟩ := spells_append.1 hspells
      obtain ⟨named, hnames, hspells⟩ := spells_append.1 hspells
      obtain ⟨closed, hafter, hclose⟩ := exists_skip_of_spells hspells (by simp [Item.first])
      have hlisted : listed.token? ≠ some (.mark .newline) := by
        obtain ⟨name, others, rfl⟩ := hbody.exists_symbol fun hname ↦ ⟨_, _, hname⟩
        simp [hnames.token?, Item.first]
      have hnamed : named.token? ≠ some (.mark .comma) := by
        rcases token?_newlines_append hspells with hnewline | hbrace
        · simp [hnewline]
        · simp [hbrace, Item.first]
      have hequal : cursor.after.token? ≠ some (.mark .equal) := by simp [hopen]
      exact ⟨(), _, ⟨hrepr, rfl⟩, false, _, ⟨hequal, rfl⟩, (), _, ⟨hopen, rfl⟩, (), listed,
        ⟨⟨before, hbefore⟩, hlisted⟩, names, named, ⟨⟨body, hbody, hnames⟩, hnamed⟩, (), closed,
        hafter, (), stop, hclose, rfl, rfl⟩

/-- What follows the fields of a table: its clause, if there is one, and the closing brace. -/
def TableEnd (cursor : Cursor) (shown : Option Shown) (stop : Cursor) : Prop :=
  match shown with
  | none => cursor.Spells [.mark .closeBrace] stop
  | some clause =>
    ∃ items number, clause.Written items ∧
      cursor.Spells (items ++ (newlines number ++ [.mark .closeBrace])) stop

/-- The block of a table is its fields, one a line, and what follows them. -/
theorem chain_tableEnd_iff {fields : List Field} {shown : Option Shown} {cursor stop : Cursor} :
    (∃ middle, Chain FieldStep cursor fields middle ∧ TableEnd middle shown stop) ↔
      ∃ gap clause after block, ClauseWritten shown clause ∧
        FieldLines (clause ++ (newlines after ++ [.mark .closeBrace])) fields block ∧
        cursor.Spells (newlines gap ++ block) stop := by
  constructor
  · rintro ⟨middle, hchain, hend⟩
    cases shown with
    | none =>
      obtain ⟨gap, block, hblock, hspells⟩ := fieldLines_of_chain hchain hend
      exact ⟨gap, [], 0, block, rfl, hblock, hspells⟩
    | some clause =>
      obtain ⟨items, after, hclause, hend⟩ := hend
      obtain ⟨sign, others, -, rfl⟩ := hclause.exists_repr
      obtain ⟨gap, block, hblock, hspells⟩ := fieldLines_of_chain hchain hend
      exact ⟨gap, _, after, block, hclause, hblock, hspells⟩
  · rintro ⟨gap, items, after, block, hclause, hblock, hspells⟩
    cases shown with
    | none =>
      obtain rfl : items = [] := hclause
      exact exists_chain_of_fieldLines after hblock rfl (by simp [Item.first])
        not_beginsField_of_brace hspells
    | some clause =>
      obtain ⟨sign, others, hsign, rfl⟩ := (hclause : clause.Written items).exists_repr
      have hbegins {middle : Cursor} (hrest : middle.Spells (.symbol "repr" :: .mark sign ::
          (others ++ (newlines after ++ [.mark .closeBrace]))) stop) : ¬BeginsField middle := by
        rintro ⟨-, hcolon⟩
        simp [hrest.2.token?, Item.first, hsign] at hcolon
      obtain ⟨middle, hchain, hend⟩ := exists_chain_of_fieldLines 0 hblock rfl
        (by simp [Item.first]) hbegins hspells
      exact ⟨middle, hchain, _, after, hclause, hend⟩

theorem recognizes_tableEnd (name : String) (primaries ordinary : List Field) :
    (do
      let clause ← if (← peek 0) == some (.symbol "repr") then
          let clause ← shown
          skipNewlines
          pure (some clause)
        else pure none
      expect .table .closeBrace
      return ⟨name, primaries, ordinary, clause⟩ : Parser TableDefinition).Recognizes
      fun cursor definition stop ↦
        ∃ clause, TableEnd cursor clause stop ∧
          definition = ⟨name, primaries, ordinary, clause⟩ := by
  have hclose (clause : Option Shown) := (recognizes_expect .table .closeBrace).bind fun _ ↦
    .pure (⟨name, primaries, ordinary, clause⟩ : TableDefinition)
  refine ((recognizes_peek 0).look fun _ ↦ .ite
    (recognizes_shown.bind fun clause ↦ recognizes_skipNewlines.bind fun _ ↦
      (Recognizes.pure (some clause)).bind hclose)
    ((Recognizes.pure none).bind hclose)).congr fun cursor definition stop ↦ ?_
  constructor
  · intro hanswer
    split_ifs at hanswer
    · obtain ⟨clause, shown, ⟨items, hwritten, hclause⟩, _, _, ⟨⟨number, hnewlines⟩, -⟩, _, skipped,
        ⟨rfl, rfl⟩, _, _, hbrace, rfl, rfl⟩ := hanswer
      exact ⟨some clause, ⟨items, number, hwritten, spells_append.2 ⟨shown, hclause,
        spells_append.2 ⟨skipped, hnewlines, hbrace⟩⟩⟩, rfl⟩
    · obtain ⟨_, _, ⟨rfl, rfl⟩, _, _, hbrace, rfl, rfl⟩ := hanswer
      exact ⟨none, hbrace, rfl⟩
  · rintro ⟨clause, hend, rfl⟩
    cases clause with
    | none =>
      rw [if_neg (by simp [tokenAt?, (hend : cursor.Spells _ stop).token?, Item.first])]
      exact ⟨none, cursor, ⟨rfl, rfl⟩, (), stop, hend, rfl, rfl⟩
    | some clause =>
      obtain ⟨items, number, hwritten, hend⟩ := hend
      obtain ⟨shown, hclause, hrest⟩ := spells_append.1 hend
      obtain ⟨skipped, hnewlines, hbrace⟩ := exists_skip_of_spells hrest (by simp [Item.first])
      have hrepr : cursor.token? = some (.symbol "repr") := by
        obtain ⟨sign, others, -, rfl⟩ := hwritten.exists_repr
        exact hclause.token?
      rw [if_pos (by simp [tokenAt?, hrepr])]
      exact ⟨clause, shown, ⟨items, hwritten, hclause⟩, (), skipped, hnewlines, some clause,
        skipped, ⟨rfl, rfl⟩, (), stop, hbrace, rfl, rfl⟩

theorem recognizes_table :
    table.Recognizes fun cursor definition stop ↦
      ∃ items, definition.Written items ∧ cursor.Spells items stop := by
  refine ((recognizes_symbol .table).bind fun name ↦
    (recognizes_expect .table .openParen).bind fun _ ↦
    recognizes_primaries.bind fun primaries ↦
    (recognizes_expect .table .closeParen).bind fun _ ↦
    recognizes_skipNewlines.bind fun _ ↦
    (recognizes_expect .table .openBrace).bind fun _ ↦
    recognizes_fields.bind fun ordinary ↦
    recognizes_tableEnd name primaries ordinary).congr fun cursor definition stop ↦ ?_
  constructor
  · rintro ⟨name, _, ⟨hname, rfl⟩, _, _, ⟨hparen, rfl⟩, primaries, listed,
      ⟨⟨key, hkey, hprimaries⟩, -⟩, _, _, ⟨hclose, rfl⟩, _, headed, ⟨⟨before, hbefore⟩, -⟩, _,
      _, ⟨hbrace, rfl⟩, ordinary, middle, hchain, clause, hend, rfl⟩
    obtain ⟨gap, items, after, block, hclause, hblock, hspells⟩ :=
      chain_tableEnd_iff.1 ⟨middle, hchain, hend⟩
    refine ⟨_, ⟨key, before, gap, items, after, block, hkey, hclause, hblock, rfl⟩,
      hname, hparen, ?_⟩
    exact spells_append.2 ⟨listed, hprimaries, hclose, spells_append.2 ⟨headed, hbefore, hbrace,
      hspells⟩⟩
  · rintro ⟨_, ⟨key, before, gap, items, after, block, hkey, hclause, hblock, rfl⟩, hname, hparen,
      hspells⟩
    obtain ⟨listed, hprimaries, hclose, hspells⟩ := spells_append.1 hspells
    obtain ⟨headed, hbefore, hbrace, hspells⟩ :=
      exists_skip_of_spells hspells (by simp [Item.first])
    obtain ⟨middle, hchain, hend⟩ :=
      chain_tableEnd_iff.2 ⟨gap, items, after, block, hclause, hblock, hspells⟩
    exact ⟨definition.name, _, ⟨hname, rfl⟩, (), _, ⟨hparen, rfl⟩, definition.primaries, listed,
      ⟨⟨key, hkey, hprimaries⟩, endsField_of_mark hclose (by decide), by simp [hclose]⟩, (), _,
      ⟨hclose, rfl⟩, (), headed, hbefore, (), _, ⟨hbrace, rfl⟩, definition.fields, middle, hchain,
      definition.shown, hend, rfl⟩

/-! ### Relations -/

theorem recognizes_weightedSymbol :
    weightedSymbol.Recognizes fun cursor value stop ↦
      cursor.Spells (.symbol value.1 :: List.replicate value.2 (.mark .caret)) stop ∧
        stop.token? ≠ some (.mark .caret) := by
  refine ((recognizes_symbol .weightedSymbol).bind fun name ↦
    (recognizes_count .caret).bind fun weight ↦ .pure (name, weight)).congr
    fun cursor value stop ↦ ?_
  constructor
  · rintro ⟨name, _, ⟨hname, rfl⟩, weight, _, ⟨hweight, hcaret⟩, rfl, rfl⟩
    exact ⟨⟨hname, hweight⟩, hcaret⟩
  · rintro ⟨⟨hname, hweight⟩, hcaret⟩
    exact ⟨value.1, _, ⟨hname, rfl⟩, value.2, stop, ⟨hweight, hcaret⟩, rfl, rfl⟩

/-- One marker is taken only if no second one follows. -/
theorem recognizes_markers (rule : Rule) (mark : Mark) :
    (markers rule mark).Recognizes fun cursor number stop ↦
      cursor.Spells (List.replicate number (.mark mark)) stop ∧
        ((number = 1 ∧ stop.token? ≠ some (.mark mark)) ∨ number = 2) := by
  refine ((recognizes_expect rule mark).bind fun _ ↦
    (recognizes_accept mark).bind fun _ ↦ .pure _).congr fun cursor number stop ↦ ?_
  constructor
  · rintro ⟨_, _, ⟨hfirst, rfl⟩, _ | _, _, hsecond, rfl, rfl⟩
    · obtain ⟨hsecond, rfl⟩ := hsecond
      exact ⟨⟨hfirst, rfl⟩, Or.inl ⟨rfl, hsecond⟩⟩
    · exact ⟨⟨hfirst, hsecond⟩, Or.inr rfl⟩
  · rintro ⟨hspells, ⟨rfl, hstop⟩ | rfl⟩
    · obtain ⟨hfirst, rfl⟩ := hspells
      exact ⟨(), _, ⟨hfirst, rfl⟩, false, _, ⟨hstop, rfl⟩, rfl, rfl⟩
    · exact ⟨(), _, ⟨hspells.1, rfl⟩, true, stop, hspells.2, rfl, rfl⟩

theorem token?_replicate {cursor stop : Cursor} {mark : Mark} {number : Nat}
    (hnumber : number = 1 ∨ number = 2)
    (hspells : cursor.Spells (List.replicate number (.mark mark)) stop) :
    cursor.token? = some (.mark mark) := by
  rcases hnumber with rfl | rfl
  · exact hspells.1
  · exact hspells.1

/-- The block of a relation is its fields, one a line, and the closing brace. -/
theorem chain_closeBrace_iff {fields : List Field} {cursor stop : Cursor} :
    (∃ middle, Chain FieldStep cursor fields middle ∧ middle.Spells [.mark .closeBrace] stop) ↔
      ∃ gap block, FieldLines [.mark .closeBrace] fields block ∧
        cursor.Spells (newlines gap ++ block) stop := by
  constructor
  · rintro ⟨middle, hchain, hbrace⟩
    exact fieldLines_of_chain hchain hbrace
  · rintro ⟨gap, block, hblock, hspells⟩
    exact exists_chain_of_fieldLines 0 hblock rfl (by simp [Item.first]) not_beginsField_of_brace
      hspells

/-- The right side of a relation and its block. -/
def RightEnd (cursor : Cursor) (name : String) (weight : Nat) (fields : List Field)
    (stop : Cursor) : Prop :=
  ∃ before gap block, FieldLines [.mark .closeBrace] fields block ∧
    cursor.Spells (.symbol name :: (List.replicate weight (.mark .caret) ++
      (newlines before ++ (.mark .openBrace :: (newlines gap ++ block))))) stop

theorem recognizes_rightEnd (left : Side) (number : Nat) :
    (do
      let (right, weight) ← weightedSymbol
      skipNewlines
      expect .relation .openBrace
      let extra ← fields
      expect .relation .closeBrace
      return ⟨left, ⟨right, weight, number⟩, extra⟩ : Parser Relation).Recognizes
      fun cursor value stop ↦
        ∃ name weight fields, RightEnd cursor name weight fields stop ∧
          value = ⟨left, ⟨name, weight, number⟩, fields⟩ := by
  refine (recognizes_weightedSymbol.bind fun right ↦
    recognizes_skipNewlines.bind fun _ ↦
    (recognizes_expect .relation .openBrace).bind fun _ ↦
    recognizes_fields.bind fun extra ↦
    (recognizes_expect .relation .closeBrace).bind fun _ ↦
    .pure (⟨left, ⟨right.1, right.2, number⟩, extra⟩ : Relation)).congr fun cursor value stop ↦ ?_
  constructor
  · rintro ⟨right, weighted, ⟨hright, -⟩, _, headed, ⟨⟨before, hbefore⟩, -⟩, _, _, ⟨hbrace, rfl⟩,
      extra, middle, hchain, _, _, hclose, rfl, rfl⟩
    obtain ⟨gap, block, hblock, hspells⟩ := chain_closeBrace_iff.1 ⟨middle, hchain, hclose⟩
    refine ⟨right.1, right.2, extra, ⟨before, gap, block, hblock, hright.1, ?_⟩, rfl⟩
    exact spells_append.2 ⟨weighted, hright.2, spells_append.2 ⟨headed, hbefore, hbrace, hspells⟩⟩
  · rintro ⟨name, weight, fields, ⟨before, gap, block, hblock, hname, hspells⟩, rfl⟩
    obtain ⟨weighted, hweight, hspells⟩ := spells_append.1 hspells
    have hcaret : weighted.token? ≠ some (.mark .caret) := by
      rcases token?_newlines_append hspells with hnewline | hbrace
      · simp [hnewline]
      · simp [hbrace, Item.first]
    obtain ⟨headed, hbefore, hbrace, hspells⟩ :=
      exists_skip_of_spells hspells (by simp [Item.first])
    obtain ⟨middle, hchain, hclose⟩ := chain_closeBrace_iff.2 ⟨gap, block, hblock, hspells⟩
    exact ⟨(name, weight), weighted, ⟨⟨hname, hweight⟩, hcaret⟩, (), headed, hbefore, (), _,
      ⟨hbrace, rfl⟩, fields, middle, hchain, (), stop, hclose, rfl, rfl⟩

theorem recognizes_relation :
    relation.Recognizes fun cursor value stop ↦
      ∃ items, value.Written items ∧ cursor.Spells items stop := by
  refine (recognizes_weightedSymbol.bind fun left ↦
    (recognizes_markers .leftMarker .less).bind fun leftMarkers ↦
    (recognizes_accept .minus).bind fun dashed ↦
    (recognizes_markers .rightMarker .greater).bind fun rightMarkers ↦ .ite
      (recognizes_rightEnd ⟨left.1, left.2, leftMarkers⟩ rightMarkers)
      ((recognizes_expect .relation .minus).bind fun _ ↦
        recognizes_rightEnd ⟨left.1, left.2, leftMarkers⟩ rightMarkers)).congr
    fun cursor value stop ↦ ?_
  constructor
  · rintro ⟨left, weighted, ⟨hleft, -⟩, leftMarkers, marked, ⟨hless, hleftMarkers⟩, dashed, pointed,
      hdash, rightMarkers, passed, ⟨hgreater, hrightMarkers⟩, hanswer⟩
    obtain ⟨dash, ended, hwritten, hdashes, name, weight, fields,
        ⟨before, gap, block, hblock, hend⟩, rfl⟩ :
        ∃ dash ended, DashWritten rightMarkers dash ∧ marked.Spells dash ended ∧
          ∃ name weight fields, RightEnd ended name weight fields stop ∧
            value = ⟨⟨left.1, left.2, leftMarkers⟩, ⟨name, weight, rightMarkers⟩, fields⟩ := by
      cases dashed with
      | true =>
        obtain ⟨hminus, rfl⟩ := hdash
        exact ⟨_, passed, Or.inl rfl, ⟨hminus, hgreater⟩, hanswer⟩
      | false =>
        obtain ⟨-, rfl⟩ := hdash
        obtain ⟨_, ended, hminus, hend⟩ := hanswer
        exact ⟨_, ended, Or.inr rfl, spells_append.2 ⟨passed, hgreater, hminus⟩, hend⟩
    refine ⟨_, ⟨dash, before, gap, block, hleftMarkers.imp_left And.left,
      hrightMarkers.imp_left And.left, hwritten, hblock, rfl⟩, hleft.1, ?_⟩
    exact spells_append.2 ⟨weighted, hleft.2, spells_append.2 ⟨marked, hless,
      spells_append.2 ⟨ended, hdashes, hend⟩⟩⟩
  · rintro ⟨_, ⟨dash, before, gap, block, hleftMarkers, hrightMarkers, hdash, hblock, rfl⟩, hname,
      hspells⟩
    obtain ⟨weighted, hweight, hspells⟩ := spells_append.1 hspells
    obtain ⟨marked, hless, hspells⟩ := spells_append.1 hspells
    obtain ⟨ended, hdashes, hend⟩ := spells_append.1 hspells
    have hcaret : weighted.token? ≠ some (.mark .caret) := by
      simp [token?_replicate hleftMarkers hless]
    have hmarked : marked.token? ≠ some (.mark .less) := by
      rcases hdash with rfl | rfl
      · simp [hdashes.token?, Item.first]
      · obtain ⟨passed, hgreater, -⟩ := spells_append.1 hdashes
        simp [token?_replicate hrightMarkers hgreater]
    have hanswer : ∃ name weight fields, RightEnd ended name weight fields stop ∧
        value = ⟨⟨value.left.symbol, value.left.weight, value.left.markers⟩,
          ⟨name, weight, value.right.markers⟩, fields⟩ :=
      ⟨_, _, _, ⟨before, gap, block, hblock, hend⟩, rfl⟩
    refine ⟨(value.left.symbol, value.left.weight), weighted, ⟨⟨hname, hweight⟩, hcaret⟩,
      value.left.markers, marked, ⟨hless, hleftMarkers.imp_left fun hone ↦ ⟨hone, hmarked⟩⟩, ?_⟩
    rcases hdash with rfl | rfl
    · refine ⟨true, _, ⟨hdashes.1, rfl⟩, value.right.markers, ended, ⟨hdashes.2, ?_⟩, hanswer⟩
      exact hrightMarkers.imp_left fun hone ↦ ⟨hone, by simp [hend.token?, Item.first]⟩
    · obtain ⟨passed, hgreater, hminus⟩ := spells_append.1 hdashes
      have hfirst := token?_replicate hrightMarkers hgreater
      refine ⟨false, marked, ⟨by simp [hfirst], rfl⟩, value.right.markers, passed,
        ⟨hgreater, ?_⟩, (), ended, hminus, hanswer⟩
      exact hrightMarkers.imp_left fun hone ↦ ⟨hone, by simp [hminus.token?, Item.first]⟩

/-! ### Statements -/

theorem recognizes_statement :
    statement.Recognizes fun cursor value stop ↦
      ∃ items, value.Written items ∧ cursor.Spells items stop := by
  refine (recognizes_isSymbol.look fun _ ↦ .ite
    ((recognizes_isMark 1 .openParen).look fun _ ↦ .ite
      (recognizes_table.bind fun definition ↦ .pure (Statement.table definition))
      (recognizes_relation.bind fun sides ↦ .pure (Statement.relation sides)))
    (recognizes_fail .statements .statement)).congr fun cursor value stop ↦ ?_
  constructor
  · intro hanswer
    split_ifs at hanswer with hsymbol hparen
    · obtain ⟨definition, _, hwritten, rfl, rfl⟩ := hanswer
      exact hwritten
    · obtain ⟨sides, _, hwritten, rfl, rfl⟩ := hanswer
      exact hwritten
  · rintro ⟨items, hwritten, hspells⟩
    obtain ⟨name, second, others, rfl, hsecond⟩ := hwritten.exists_cons_cons
    rw [if_pos (beginsSymbol_iff.2 ⟨name, hspells.1⟩)]
    have hnext : cursor.tokenAt? 1 = some second.first := by
      simpa [tokenAt?, hspells.1] using hspells.2.token?
    cases value with
    | table definition =>
      rw [if_pos (by simp [hnext, hsecond])]
      exact ⟨definition, stop, ⟨_, hwritten, hspells⟩, rfl, rfl⟩
    | relation sides =>
      rw [if_neg (by simpa [hnext] using hsecond)]
      exact ⟨sides, stop, ⟨_, hwritten, hspells⟩, rfl, rfl⟩

/-- One more statement of a document, or the end of its tokens. -/
def StatementStep : Cursor → Option Statement → Cursor → Prop
  | cursor, some statement, stop =>
    (∃ number items, statement.Written items ∧ cursor.Spells (newlines number ++ items) stop) ∧
      (stop.token? = some (.mark .newline) ∨ stop.token? = none)
  | cursor, none, stop =>
    (∃ number, cursor.Spells (newlines number) stop) ∧ stop.token? = none

theorem recognizes_statementStep :
    (do
      skipNewlines
      if (← peek 0).isNone then return none
      else
        let item ← statement
        let ended := (← isMark 0 .newline) || (← peek 0).isNone
        if ended then return some item
        else fail .statements .newlineAfterStatement : Parser (Option Statement)).Recognizes
      StatementStep := by
  refine (recognizes_skipNewlines.bind fun _ ↦ (recognizes_peek 0).look fun _ ↦ .ite (.pure none)
    (recognizes_statement.bind fun item ↦ (recognizes_isMark 0 .newline).look fun _ ↦
      (recognizes_peek 0).look fun _ ↦ .ite (.pure (some item))
        (recognizes_fail .statements .newlineAfterStatement))).congr fun cursor answer stop ↦ ?_
  constructor
  · rintro ⟨_, middle, ⟨⟨number, hnewlines⟩, -⟩, hanswer⟩
    split_ifs at hanswer with hnone
    · obtain ⟨rfl, rfl⟩ := hanswer
      exact ⟨⟨number, hnewlines⟩, by simpa [tokenAt?] using hnone⟩
    · obtain ⟨item, last, ⟨items, hwritten, hspells⟩, hanswer⟩ := hanswer
      split_ifs at hanswer with hended
      obtain ⟨rfl, rfl⟩ := hanswer
      exact ⟨⟨number, items, hwritten, spells_append.2 ⟨middle, hnewlines, hspells⟩⟩,
        by simpa [tokenAt?] using hended⟩
  · cases answer with
    | none =>
      rintro ⟨hnewlines, hnone⟩
      refine ⟨(), stop, ⟨hnewlines, by simp [hnone]⟩, ?_⟩
      rw [if_pos (by simp [tokenAt?, hnone])]
      exact ⟨rfl, rfl⟩
    | some statement =>
      rintro ⟨⟨number, items, hwritten, hspells⟩, hended⟩
      obtain ⟨middle, hnewlines, hspells⟩ := spells_append.1 hspells
      obtain ⟨name, second, others, rfl, -⟩ := hwritten.exists_cons_cons
      refine ⟨(), middle, ⟨⟨number, hnewlines⟩, by simp [hspells.1]⟩, ?_⟩
      rw [if_neg (by simp [tokenAt?, hspells.1])]
      refine ⟨statement, stop, ⟨_, hwritten, hspells⟩, ?_⟩
      rw [if_pos (by simpa [tokenAt?] using hended)]
      exact ⟨rfl, rfl⟩

theorem progresses_statementStep : Progresses StatementStep := by
  rintro cursor stop statement ⟨⟨number, items, hwritten, hspells⟩, -⟩
  obtain ⟨middle, hnewlines, hspells⟩ := spells_append.1 hspells
  obtain ⟨name, second, others, rfl, -⟩ := hwritten.exists_cons_cons
  exact hspells.length_lt.trans_le hnewlines.length_le

/-- The statements that are taken up to the end of the tokens write a document. -/
theorem chain_statementStep_iff {statements : List Statement} {cursor stop : Cursor} :
    Chain StatementStep cursor statements stop ↔
      (∃ items, Document.Written ⟨statements⟩ items ∧ cursor.Spells items stop) ∧
        stop.token? = none := by
  induction statements generalizing cursor with
  | nil =>
    constructor
    · rintro ⟨⟨number, hnewlines⟩, hnone⟩
      exact ⟨⟨newlines number, ⟨number, [], 0, Or.inl ⟨rfl, rfl⟩, by simp⟩, hnewlines⟩, hnone⟩
    · rintro ⟨⟨items, ⟨before, body, after, ⟨-, rfl⟩ | hseparated, rfl⟩, hspells⟩, hnone⟩
      · exact ⟨⟨before + after, by rwa [newlines_add]⟩, hnone⟩
      · cases hseparated
  | cons statement statements ih =>
    constructor
    · rintro ⟨middle, ⟨⟨number, items, hwritten, hspells⟩, hended⟩, hchain⟩
      obtain ⟨⟨_, ⟨before, body, after, hbody, rfl⟩, hrest⟩, hnone⟩ := ih.1 hchain
      rcases hbody with ⟨rfl, rfl⟩ | hbody
      · refine ⟨⟨_, ⟨number, items, before + after, Or.inr (.one hwritten), rfl⟩, ?_⟩, hnone⟩
        rw [← List.append_assoc, newlines_add]
        exact spells_append.2 ⟨middle, hspells, hrest⟩
      · cases before with
        | zero =>
          -- statements follow one another only after the end of a line
          obtain ⟨name, others, rfl⟩ := hbody.exists_symbol Statement.Written.exists_symbol
          simp [hrest.token?, Item.first] at hended
        | succ before =>
          refine ⟨⟨_, ⟨number, _, after, Or.inr (.more hwritten ⟨before, rfl⟩ hbody), rfl⟩, ?_⟩,
            hnone⟩
          simp only [List.append_assoc]
          rw [← List.append_assoc]
          exact spells_append.2 ⟨middle, hspells, hrest⟩
    · rintro ⟨⟨items, ⟨before, body, after, ⟨hnil, -⟩ | hseparated, rfl⟩, hspells⟩, hnone⟩
      · simp at hnil
      · cases hseparated with
        | one hwritten =>
          rw [← List.append_assoc] at hspells
          obtain ⟨middle, hspells, hrest⟩ := spells_append.1 hspells
          refine ⟨middle, ⟨⟨before, _, hwritten, hspells⟩, ?_⟩, ⟨after, hrest⟩, hnone⟩
          cases after with
          | zero =>
            obtain rfl : stop = middle := hrest
            exact Or.inr hnone
          | succ after =>
            rw [newlines_succ] at hrest
            exact Or.inl hrest.token?
        | more hwritten hgap hbody =>
          obtain ⟨count, rfl⟩ := hgap
          simp only [List.append_assoc] at hspells
          rw [← List.append_assoc] at hspells
          obtain ⟨middle, hspells, hrest⟩ := spells_append.1 hspells
          have hchain := ih.2 ⟨⟨_, ⟨count + 1, _, after, Or.inr hbody, rfl⟩, hrest⟩, hnone⟩
          rw [newlines_succ] at hrest
          exact ⟨middle, ⟨⟨before, _, hwritten, hspells⟩, Or.inl hrest.token?⟩, hchain⟩

theorem recognizes_statements :
    statements.Recognizes fun cursor values stop ↦
      (∃ items, Document.Written ⟨values⟩ items ∧ cursor.Spells items stop) ∧
        stop.token? = none :=
  (recognizes_many recognizes_statementStep progresses_statementStep).congr
    fun _ _ _ ↦ chain_statementStep_iff

/-- When all statements are taken, a reader that holds no stray character is at the end of the
text. -/
theorem stray_eq_none_iff {lexer last : Lexer} {values : List Statement} (hlexer : lexer.Faithful)
    (hrun : statements.run lexer = .ok (values, last)) :
    last.stray = none ↔ last.place.rest = [] := by
  obtain ⟨-, before, hbefore, hstep⟩ :=
    many_sound recognizes_statementStep progresses_statementStep hlexer hrun
  obtain ⟨_, skipped, hskip, hstep⟩ := run_bind_eq_ok.1 hstep
  obtain ⟨hskipped, -⟩ := recognizes_skipNewlines.sound hbefore hskip
  obtain ⟨token, peeked, hpeek, hstep⟩ := run_bind_eq_ok.1 hstep
  obtain ⟨rfl, rfl⟩ : (skipped.peek 0).1.map Lexeme.token = token ∧
      (skipped.peek 0).2 = peeked := by
    simpa [run_peek] using hpeek
  split_ifs at hstep with hnone
  · obtain ⟨-, rfl⟩ := run_pure_eq_ok.1 hstep
    rw [(hskipped.peek 0).2.1]
    exact hskipped.stray_peek (by simpa using hnone)
  · -- a step that takes a statement answers with it
    obtain ⟨item, _, -, hstep⟩ := run_bind_eq_ok.1 hstep
    obtain ⟨newline, _, -, hstep⟩ := run_bind_eq_ok.1 hstep
    obtain ⟨token, _, -, hstep⟩ := run_bind_eq_ok.1 hstep
    dsimp only at hstep
    split_ifs at hstep
    · exact absurd (run_pure_eq_ok.1 hstep).1 (by simp)
    · exact absurd hstep run_fail_ne_ok

end Parser

namespace Document

theorem parse_eq_ok_iff_run {source : String} {document : Document} :
    parse source = .ok document ↔
      ∃ last, Parser.statements.run (.ofSource source.toList) = .ok (document.statements, last) ∧
        last.stray = none := by
  obtain ⟨given⟩ := document
  unfold parse
  cases hrun : Parser.statements.run (.ofSource source.toList) with
  | error fault => simp [bind, Except.bind]
  | ok pair =>
    obtain ⟨statements, last⟩ := pair
    cases hstray : last.stray with
    | none => simp [bind, Except.bind, hstray, pure, Except.pure, and_assoc]
    | some stray =>
      simp [bind, Except.bind, hstray, throw, throwThe, MonadExceptOf.throw, and_assoc]

/-- A text is parsed to a document exactly if the grammar derives the document from the text. -/
theorem parse_eq_ok_iff {source : String} {document : Document} :
    parse source = .ok document ↔ document.WrittenAs source := by
  have hlexer := Lexer.faithful_ofSource source.toList
  rw [parse_eq_ok_iff_run]
  constructor
  · rintro ⟨last, hrun, hstray⟩
    obtain ⟨-, ⟨items, hwritten, hspells⟩, -⟩ := Parser.recognizes_statements.sound hlexer hrun
    have hrest := (Parser.stray_eq_none_iff hlexer hrun).1 hstray
    exact ⟨items, reads_iff.2 ⟨last.place, hspells, hrest⟩, hwritten⟩
  · rintro ⟨items, hreads, hwritten⟩
    obtain ⟨stop, hspells, hrest⟩ := reads_iff.1 hreads
    have hnone : stop.token? = none := Cursor.token?_of_rest_eq_nil hrest
    obtain ⟨last, hrun, -, rfl⟩ :=
      Parser.recognizes_statements.complete hlexer ⟨⟨items, hwritten, hspells⟩, hnone⟩
    exact ⟨last, hrun, (Parser.stray_eq_none_iff hlexer hrun).2 hrest⟩

/-- The parser accepts exactly its grammar, and the grammar derives one document at most. -/
theorem parse_accepts_exactly (source : String) :
    (∀ document, parse source = .ok document ↔ document.WrittenAs source) ∧
      ∀ first second : Document, first.WrittenAs source → second.WrittenAs source →
        first = second := by
  refine ⟨fun document ↦ parse_eq_ok_iff, fun first second hfirst hsecond ↦ ?_⟩
  have hparse := (parse_eq_ok_iff.2 hfirst).symm.trans (parse_eq_ok_iff.2 hsecond)
  exact Except.ok.inj hparse

/-- A text with a comment, a default, a clause, and a field right before a closing brace. -/
def diary : String :=
  "A(id: int~) \x7b\n  at: Day! = now() # set\n  repr \x7b id,\n at \x7d \x7d\n"
    ++ "B^ <-> A \x7b to: R \x7d"

/-- A text with a default in a primary key, which takes the parenthesis. -/
def brokenDiary : String := "A(id: int = 0) \x7b\n\x7d"

theorem exists_parse_diary : ∃ document, parse diary = .ok document := by
  have hok : (parse diary).isOk = true := by decide +kernel
  cases hparse : parse diary with
  | error fault => simp [hparse, Except.isOk, Except.toBool] at hok
  | ok document => exact ⟨document, rfl⟩

theorem parse_accepts_exactly_diary :
    (∃ document : Document, document.WrittenAs diary) ∧
      ¬∃ document : Document, document.WrittenAs brokenDiary := by
  constructor
  · obtain ⟨document, hparse⟩ := exists_parse_diary
    exact ⟨document, ((parse_accepts_exactly diary).1 document).1 hparse⟩
  · rintro ⟨document, hwritten⟩
    have hparse := ((parse_accepts_exactly brokenDiary).1 document).2 hwritten
    have hbroken : (parse brokenDiary).isOk = false := by decide +kernel
    simp [hparse, Except.isOk, Except.toBool] at hbroken

end Document

end SchemaCompiler
