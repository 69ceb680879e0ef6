import SchemaCompiler.Proofs.ParserGrammar
import SchemaCompiler.Proofs.Tokenization
import SchemaCompiler.Proofs.Viability

/-!
# Stray characters in documents

A stray character is reported only where a document could still have gone on. Each rule of the
grammar is given as a language of items, and its parser is shown to follow the language, so that
what was read before a stray character always begins a document (`exists_begun`).
-/

set_option autoImplicit false
set_option relaxedAutoImplicit false

open scoped Computability

namespace SchemaCompiler

/-! ### Languages of the grammar -/

/-- The language of the items that write a value. -/
def written {α : Type} (writes : α → List Item → Prop) : Language Item :=
  {items | ∃ value, writes value items}

/-- The language of copies of a mark. -/
def copies (mark : Mark) : Language Item :=
  {items | ∃ number, items = List.replicate number (.mark mark)}

/-- The language of field options. -/
def optionMarks : Language Item :=
  {items | ∃ options : List FieldOption, items = options.map fun option ↦ .mark option.mark}

/-- The language of defaults. -/
def initials : Language Item := {items | ∃ text, items = [.initial text]}

/-- The language of fields. -/
def fieldItems : Language Item := written fun (field : Field) own ↦ own = field.items

theorem star_mark_le (mark : Mark) : (word (.mark mark) + 1)∗ ≤ copies mark := by
  refine kstar_le_of_mul_le_right ?_ ?_
  · rintro items rfl
    exact ⟨0, rfl⟩
  · rintro _ ⟨_, hfirst, _, ⟨number, rfl⟩, rfl⟩
    rcases hfirst with rfl | rfl
    · exact ⟨number + 1, rfl⟩
    · exact ⟨number, rfl⟩

theorem star_option_le {options : Language Item}
    (hoptions : ∀ items ∈ options,
      items = [] ∨ ∃ option : FieldOption, items = [.mark option.mark]) :
    options∗ ≤ optionMarks := by
  refine kstar_le_of_mul_le_right ?_ ?_
  · rintro items rfl
    exact ⟨[], rfl⟩
  · rintro _ ⟨_, hfirst, _, ⟨others, rfl⟩, rfl⟩
    rcases hoptions _ hfirst with rfl | ⟨option, rfl⟩
    · exact ⟨others, rfl⟩
    · exact ⟨option :: others, rfl⟩

theorem field_le : symbols * (word (.mark .colon) * (symbols * (optionMarks * (initials + 1))))
    ≤ fieldItems := by
  rintro _ ⟨_, ⟨name, rfl⟩, _, ⟨_, rfl, _, ⟨_, ⟨type, rfl⟩, _, ⟨_, ⟨options, rfl⟩, _, hinitial,
    rfl⟩, rfl⟩, rfl⟩, rfl⟩
  rcases hinitial with ⟨text, rfl⟩ | rfl
  · exact ⟨⟨name, type, options, some text⟩, rfl⟩
  · exact ⟨⟨name, type, options, none⟩, by simp [Field.items]⟩

/-! ### Lists -/

/-- One more value at the end of a list. -/
theorem Separated.concat {α : Type} {separates : List Item → Prop} {writes : α → List Item → Prop}
    {values : List α} {value : α} {items separator own : List Item}
    (hvalues : Separated separates writes values items) (hseparator : separates separator)
    (hvalue : writes value own) :
    Separated separates writes (values ++ [value]) (items ++ (separator ++ own)) := by
  induction hvalues with
  | one hfirst => exact .more hfirst hseparator (.one hvalue)
  | more hfirst hgap _ ih =>
    rw [List.append_assoc, List.append_assoc]
    exact .more hfirst hgap ih

/-- The language of primary keys. -/
def keyItems : Language Item :=
  written (Separated IsComma fun (field : Field) own ↦ own = field.items)

/-- The language of the names in a clause. -/
def nameItems : Language Item :=
  written (Separated IsCommaGap fun (name : String) own ↦ own = [.symbol name])

theorem mul_keyItems_le : keyItems * (word (.mark .comma) * (1 * fieldItems)) ≤ keyItems := by
  rintro _ ⟨items, ⟨fields, hfields⟩, _, ⟨_, rfl, _, ⟨_, rfl, own, ⟨field, hfield⟩, rfl⟩, rfl⟩, rfl⟩
  exact ⟨_, hfields.concat rfl hfield⟩

theorem mul_nameItems_le :
    nameItems * (word (.mark .comma) * (copies .newline * symbols)) ≤ nameItems := by
  rintro _ ⟨items, ⟨names, hnames⟩, _, ⟨_, rfl, _, ⟨_, ⟨number, rfl⟩, own, ⟨name, hname⟩, rfl⟩,
    rfl⟩, rfl⟩
  exact ⟨_, @Separated.concat _ _ _ _ name _ (.mark .comma :: newlines number) own hnames
    ⟨number, rfl⟩ hname⟩

theorem shown_le : word (.symbol "repr") * (word (.mark .equal) * word (.symbol "all") +
      word (.mark .openBrace) * (copies .newline * (nameItems *
        (copies .newline * word (.mark .closeBrace))))) ≤ written Shown.Written := by
  rintro _ ⟨_, rfl, _, ⟨_, rfl, _, rfl, rfl⟩ | ⟨_, rfl, _, ⟨_, ⟨before, rfl⟩, _,
    ⟨body, ⟨names, hnames⟩, _, ⟨_, ⟨after, rfl⟩, _, rfl, rfl⟩, rfl⟩, rfl⟩, rfl⟩, rfl⟩
  · exact ⟨.all, rfl⟩
  · exact ⟨.fields names, before, body, after, hnames, rfl⟩

/-! ### Blocks -/

/-- The language of what may follow the fields of a table: a clause, if there is one, and the
closing brace. -/
def tableTails : Language Item :=
  word (.mark .closeBrace) +
    written Shown.Written * (copies .newline * word (.mark .closeBrace))

/-- The language of the fields of a block, one a line, and of what follows them. -/
def blocks (tails : Language Item) : Language Item :=
  {items | ∃ tail ∈ tails, ∃ fields gap block, FieldLines tail fields block ∧
    items = newlines gap ++ block}

/-- The words of a language that begin with the end of a line or a closing brace. -/
def linesOf (language : Language Item) : Language Item :=
  {items ∈ language | ∃ item rest, items = item :: rest ∧
    (item = .mark .newline ∨ item = .mark .closeBrace)}

/-- What may follow the fields of a block: a closing brace among others, and no end of a line. -/
structure EndsBlock (tails : Language Item) : Prop where
  brace : word (.mark .closeBrace) ≤ tails
  first {tail : List Item} (htail : tail ∈ tails) :
    ∃ item rest, tail = item :: rest ∧ item ≠ .mark .newline

theorem endsBlock_brace : EndsBlock (word (.mark .closeBrace)) where
  brace := le_rfl
  first := by
    rintro tail rfl
    exact ⟨_, [], rfl, by decide⟩

theorem endsBlock_tableTails : EndsBlock tableTails where
  brace := le_self_add
  first := by
    rintro tail (rfl | ⟨items, ⟨clause, hclause⟩, rest, -, rfl⟩)
    · exact ⟨_, [], rfl, by decide⟩
    · obtain ⟨sign, others, -, rfl⟩ := hclause.exists_repr
      exact ⟨_, _, rfl, by decide⟩

namespace EndsBlock

variable {tails : Language Item}

theorem le_blocks (tails : Language Item) : tails ≤ blocks tails :=
  fun tail htail ↦ ⟨tail, htail, [], 0, tail, .nil, rfl⟩

theorem nil_notMem (htails : EndsBlock tails) : [] ∉ blocks tails := by
  rintro ⟨tail, htail, fields, gap, block, hblock, hitems⟩
  obtain ⟨item, rest, rfl, -⟩ := htails.first htail
  obtain ⟨head, others, rfl, -⟩ := hblock.exists_cons
  simp at hitems

theorem newlines_mul_le : copies .newline * blocks tails ≤ blocks tails := by
  rintro _ ⟨_, ⟨number, rfl⟩, _, ⟨tail, htail, fields, gap, block, hblock, rfl⟩, rfl⟩
  refine ⟨tail, htail, fields, number + gap, block, hblock, ?_⟩
  rw [newlines_add, List.append_assoc]
  rfl

/-- A field before the end of its line or before the closing brace is one more field of a block. -/
theorem field_mul_le (htails : EndsBlock tails) :
    fieldItems * linesOf (blocks tails) ≤ blocks tails := by
  rintro _ ⟨_, ⟨field, rfl⟩, _, ⟨⟨tail, htail, fields, gap, block, hblock, rfl⟩, item, rest, hcons,
    hitem⟩, rfl⟩
  cases gap with
  | succ count =>
    exact ⟨tail, htail, field :: fields, 0, _, .line count hblock, rfl⟩
  | zero =>
    obtain ⟨first, others, rfl, hfirst⟩ := htails.first htail
    obtain ⟨head, block, rfl, hhead⟩ := hblock.exists_cons
    obtain ⟨rfl, rfl⟩ : head = item ∧ block = rest := by simpa using hcons
    rcases hitem with rfl | rfl
    · rcases hhead with rfl | ⟨name, hname⟩
      · exact absurd rfl hfirst
      · cases hname
    · exact ⟨_, htail, field :: fields, 0, _, .beforeBrace hblock rfl, rfl⟩

theorem brace_mem_lines (htails : EndsBlock tails) :
    [.mark .closeBrace] ∈ linesOf (blocks tails) :=
  ⟨le_blocks tails (htails.brace rfl), _, [], rfl, Or.inr rfl⟩

theorem viable_lines (htails : EndsBlock tails) : Viable (linesOf (blocks tails)) [] :=
  ⟨_, by simp [Token.Valid], htails.brace_mem_lines⟩

/-- In a block, a symbol may begin a field. -/
theorem viable_symbol (htails : EndsBlock tails) (name : String) :
    Viable (blocks tails) [.symbol name] := by
  refine ⟨[.mark .colon, .symbol "id", .mark .closeBrace], ?_, ?_⟩
  · simpa [Token.Valid] using valid_id
  · exact htails.field_mul_le ⟨_, ⟨⟨name, "id", [], none⟩, rfl⟩, _, htails.brace_mem_lines, rfl⟩

end EndsBlock

/-! ### Statements -/

theorem table_le : symbols * (word (.mark .openParen) * (keyItems * (word (.mark .closeParen) *
      (copies .newline * (word (.mark .openBrace) * blocks tableTails))))) ≤
    written TableDefinition.Written := by
  rintro _ ⟨_, ⟨name, rfl⟩, _, ⟨_, rfl, _, ⟨key, ⟨primaries, hkey⟩, _, ⟨_, rfl, _,
    ⟨_, ⟨before, rfl⟩, _, ⟨_, rfl, _, ⟨tail, htail, fields, gap, block, hblock, rfl⟩, rfl⟩, rfl⟩,
    rfl⟩, rfl⟩, rfl⟩, rfl⟩
  rcases htail with rfl | ⟨items, ⟨clause, hclause⟩, _, ⟨_, ⟨after, rfl⟩, _, rfl, rfl⟩, rfl⟩
  · exact ⟨⟨name, primaries, fields, none⟩, key, before, gap, [], 0, block, hkey, rfl, hblock, rfl⟩
  · exact ⟨⟨name, primaries, fields, some clause⟩, key, before, gap, items, after, block, hkey,
      hclause, hblock, rfl⟩

/-- The language of one or two copies of a mark. -/
def markerItems (mark : Mark) : Language Item := word (.mark mark) * (word (.mark mark) + 1)

theorem exists_markers {mark : Mark} {items : List Item} (hitems : items ∈ markerItems mark) :
    ∃ number, (number = 1 ∨ number = 2) ∧ items = List.replicate number (.mark mark) := by
  obtain ⟨_, rfl, _, rfl | rfl, rfl⟩ := hitems
  · exact ⟨2, Or.inr rfl, rfl⟩
  · exact ⟨1, Or.inl rfl, rfl⟩

/-- The language of the right side of a relation and of its block. -/
def rightItems : Language Item :=
  symbols * copies .caret * (copies .newline *
    (word (.mark .openBrace) * blocks (word (.mark .closeBrace))))

theorem relation_le : symbols * copies .caret * (markerItems .less *
      (word (.mark .minus) * (markerItems .greater * rightItems) +
        markerItems .greater * (word (.mark .minus) * rightItems))) ≤ written Relation.Written := by
  have hdash : word (.mark .minus) * (markerItems .greater * rightItems) +
      markerItems .greater * (word (.mark .minus) * rightItems) ≤
        {items | ∃ number dash rest, (number = 1 ∨ number = 2) ∧ DashWritten number dash ∧
          rest ∈ rightItems ∧ items = dash ++ rest} := by
    rintro _ (⟨_, rfl, _, ⟨_, hmarkers, rest, hrest, rfl⟩, rfl⟩ |
      ⟨_, hmarkers, _, ⟨_, rfl, rest, hrest, rfl⟩, rfl⟩)
    · obtain ⟨number, hnumber, rfl⟩ := exists_markers hmarkers
      exact ⟨number, _, rest, hnumber, Or.inl rfl, hrest, rfl⟩
    · obtain ⟨number, hnumber, rfl⟩ := exists_markers hmarkers
      exact ⟨number, _, rest, hnumber, Or.inr rfl, hrest, by simp⟩
  rintro _ ⟨_, ⟨_, ⟨left, rfl⟩, _, ⟨leftWeight, rfl⟩, rfl⟩, _, ⟨_, hless, _, htail, rfl⟩, rfl⟩
  obtain ⟨leftMarkers, hleftMarkers, rfl⟩ := exists_markers hless
  obtain ⟨rightMarkers, dash, _, hrightMarkers, hwritten, hright, rfl⟩ := hdash htail
  obtain ⟨_, ⟨_, ⟨right, rfl⟩, _, ⟨rightWeight, rfl⟩, rfl⟩, _, ⟨_, ⟨before, rfl⟩, _, ⟨_, rfl, _,
    ⟨_, rfl, fields, gap, block, hblock, rfl⟩, rfl⟩, rfl⟩, rfl⟩ := hright
  refine ⟨⟨⟨left, leftWeight, leftMarkers⟩, ⟨right, rightWeight, rightMarkers⟩, fields⟩, dash,
    before, gap, block, hleftMarkers, hrightMarkers, hwritten, hblock, ?_⟩
  simp [newlines]

/-! ### Documents -/

/-- The language of documents. -/
def documentItems : Language Item := written Document.Written

/-- The words of documents that are empty or begin with the end of a line. -/
def gappedItems : Language Item :=
  {items ∈ documentItems | ∀ item ∈ items.head?, item = .mark .newline}

theorem nil_mem_documentItems : [] ∈ documentItems :=
  ⟨⟨[]⟩, 0, [], 0, Or.inl ⟨rfl, rfl⟩, rfl⟩

theorem newlines_mul_documentItems_le : copies .newline * documentItems ≤ documentItems := by
  rintro _ ⟨_, ⟨number, rfl⟩, _, ⟨document, before, body, after, hbody, rfl⟩, rfl⟩
  refine ⟨document, number + before, body, after, hbody, ?_⟩
  rw [newlines_add, List.append_assoc]
  rfl

theorem statement_mul_le : written Statement.Written * gappedItems ≤ documentItems := by
  rintro _ ⟨items, ⟨statement, hstatement⟩, _, ⟨⟨document, before, body, after, hbody, rfl⟩, hhead⟩,
    rfl⟩
  rcases hbody with ⟨-, rfl⟩ | hbody
  · refine ⟨⟨[statement]⟩, 0, items, before + after, Or.inr (.one hstatement), ?_⟩
    simp [newlines_add]
  · cases before with
    | succ count =>
      refine ⟨⟨statement :: document.statements⟩, 0, _, after,
        Or.inr (.more hstatement ⟨count, rfl⟩ hbody), ?_⟩
      simp
    | zero =>
      obtain ⟨name, others, rfl⟩ := hbody.exists_symbol fun hwritten ↦ hwritten.exists_symbol
      cases hhead (.symbol name) rfl

deriving instance Nonempty for Field, Shown, TableDefinition, Side, Relation, Statement

namespace Parser

variable {α : Type} {source : List Char}

/-! ### Marks and fields -/

theorem follows_count (mark : Mark) :
    (count mark).Follows source (Lexer.Meets source 1) (fun _ ↦ Lexer.Meets source 1)
      (copies mark) := by
  have hstep : (do return if ← accept mark then some () else none : Parser (Option Unit)).Follows
      source (Lexer.Meets source 1) (fun _ ↦ Lexer.Meets source 1) (word (.mark mark) + 1) :=
    .answer (follows_accept_alone mark) fun _ _ hlexer ↦ hlexer
  exact .answer ((follows_star hstep).mono (star_mark_le mark)) fun _ _ hlexer ↦ hlexer

theorem follows_skipNewlines :
    skipNewlines.Follows source (Lexer.Meets source 1) (fun _ ↦ Lexer.Meets source 1)
      (copies .newline) :=
  .answer (follows_count .newline) fun _ _ hlexer ↦ hlexer

theorem follows_fieldOption :
    fieldOption.Follows source (Lexer.Meets source 1) (fun _ ↦ Lexer.Meets source 1)
      (word (.mark .question) * 1 + (word (.mark .bang) * 1 + (word (.mark .tilde) * 1 + 1))) :=
  have hnil := Language.nil_mem_one
  follows_accept .question hnil le_self_add (.pure fun _ hlexer ↦ hlexer)
    (follows_accept .bang hnil le_self_add (.pure fun _ hlexer ↦ hlexer)
      (follows_accept .tilde hnil le_self_add (.pure fun _ hlexer ↦ hlexer)
        (.pure fun _ hlexer ↦ hlexer)))

theorem follows_options :
    (many fieldOption).Follows source (Lexer.Meets source 1) (fun _ ↦ Lexer.Meets source 1)
      optionMarks := by
  refine (follows_star follows_fieldOption).mono (star_option_le fun items hitems ↦ ?_)
  simp only [mul_one] at hitems
  rcases hitems with rfl | rfl | rfl | rfl
  · exact Or.inr ⟨.nullable, rfl⟩
  · exact Or.inr ⟨.unique, rfl⟩
  · exact Or.inr ⟨.sequence, rfl⟩
  · exact Or.inl rfl

/-- After raw text, no stray character stands. -/
theorem not_faults_afterRaw {cursor : Cursor} {fault : LexicalFault} :
    ¬cursor.afterRaw.Faults source fault := by
  rintro ⟨start, character, hscan, -⟩
  obtain ⟨hstart, ⟨rest, hrest⟩, hnothing⟩ := Cursor.beginsNothing_of_scan hscan
  have hstops := cursor.stops_afterRaw
  rw [← cursor.settled_afterRaw.skipGap_eq, ← hstart, hrest, Text.stops_cons,
    bne_eq_false_iff_eq] at hstops
  exact hnothing.mark .newline hstops.symm

theorem meets_defaultText {lexer next : Lexer} {text : DefaultText}
    (hlexer : lexer.Meets source 1) (hrun : defaultText.run lexer = .ok (text, next)) :
    next.Meets source 1 := by
  rw [run_defaultText] at hrun
  split_ifs at hrun
  · exact absurd hrun run_fail_ne_ok
  · obtain ⟨-, rfl⟩ := run_pure_eq_ok.1 hrun
    exact Lexer.meets_restOfLine hlexer

theorem run_defaultText_ne_error {lexer : Lexer} {fault : LexicalFault}
    (hlexer : lexer.Meets source 1) : defaultText.run lexer ≠ .error (.lexical fault) := by
  intro hrun
  rw [run_defaultText] at hrun
  split_ifs at hrun
  · have hfail := @follows_fail DefaultText source (fun _ _ ↦ True) 1 1 .defaultText .defaultText
      Language.nil_mem_one fun _ ↦ .of_mem
    obtain ⟨begun, ⟨rest, -, hbegun⟩, stop, hspells, hfaults⟩ :=
      hfail.stumbles (Lexer.meets_restOfLine hlexer) hrun
    obtain ⟨rfl, -⟩ := List.append_eq_nil_iff.mp hbegun
    obtain rfl := Cursor.spells_nil.1 hspells
    rw [hlexer.faithful.restOfLine.2] at hfaults
    exact not_faults_afterRaw hfaults
  · cases hrun

/-- The default of a field is taken together with its mark, and never stumbles. -/
theorem follows_initial :
    (do if ← accept .equal then some <$> defaultText else pure none :
        Parser (Option DefaultText)).Follows source (Lexer.Meets source 1)
      (fun _ ↦ Lexer.Meets source 1) (initials + 1) where
  opens := .of_mem (Or.inr rfl)
  takes := by
    intro lexer next value hlexer hrun
    obtain ⟨taken, middle, haccept, hrest⟩ := run_bind_eq_ok.1 hrun
    have hmiddle := (follows_accept_alone .equal).takes hlexer haccept
    have hrelation := ((recognizes_accept .equal).sound hlexer.faithful haccept).2
    cases taken with
    | false =>
      obtain ⟨-, rfl⟩ := run_pure_eq_ok.1 hrest
      exact ⟨hmiddle.1, [], Or.inr rfl, hrelation.2⟩
    | true =>
      rw [if_pos rfl, map_eq_pure_bind] at hrest
      obtain ⟨text, last, htext, hpure⟩ := run_bind_eq_ok.1 hrest
      obtain ⟨-, rfl⟩ := run_pure_eq_ok.1 hpure
      obtain ⟨-, hraw, hplace⟩ := recognizes_defaultText.sound hmiddle.1.faithful htext
      refine ⟨meets_defaultText hmiddle.1 htext, [.initial text], Or.inl ⟨text, rfl⟩, ?_⟩
      obtain ⟨hequal, hmiddlePlace⟩ := hrelation
      rw [Cursor.spells_nil.1 hmiddlePlace] at hraw hplace
      exact ⟨hequal, hraw, hplace⟩
  stumbles := by
    intro lexer fault hlexer hrun
    rcases run_bind_eq_error.1 hrun with haccept | ⟨taken, middle, haccept, hrest⟩
    · exact absurd haccept run_accept_ne_error
    · obtain ⟨hmiddle, -⟩ := (follows_accept_alone .equal).takes hlexer haccept
      cases taken with
      | false => cases hrest
      | true =>
        rw [if_pos rfl, map_eq_pure_bind] at hrest
        rcases run_bind_eq_error.1 hrest with htext | ⟨_, _, -, hpure⟩
        · exact absurd htext (run_defaultText_ne_error hmiddle)
        · cases hpure

theorem follows_field :
    field.Follows source (Lexer.Meets source (1 + symbols)) (fun _ ↦ Lexer.Meets source 1)
      fieldItems := by
  refine .mono field_le (.bind (follows_symbol .field) fun name ↦
    .bind (follows_mark .colon) fun _ ↦
    .bind ((follows_symbol .fieldType).restrict fun _ hlexer ↦ hlexer.mono le_self_add) fun type ↦
    .bind follows_options fun options ↦ ?_)
  have hinitial : ((do if ← accept .equal then some <$> defaultText else pure none :
      Parser (Option DefaultText)) >>= fun initial ↦
        pure (⟨name, type, options, initial⟩ : Field)).Follows source
      (Lexer.Meets source 1) (fun _ ↦ Lexer.Meets source 1) (initials + 1) :=
    .answer follows_initial fun _ _ hlexer ↦ hlexer
  rw [bind_assoc] at hinitial
  convert hinitial using 3 with taken
  cases taken <;> rfl

/-! ### Lists with commas -/

theorem follows_commaSeparated [Nonempty α] {gap : Parser Unit} {item : Parser α}
    {gaps own language : Language Item}
    (hgap : gap.Follows source (Lexer.Meets source 1) (fun _ ↦ Lexer.Meets source 1) gaps)
    (hitem : item.Follows source (Lexer.Meets source 1) (fun _ ↦ Lexer.Meets source 1) own)
    (hone : own ≤ language) (hmore : language * (word (.mark .comma) * (gaps * own)) ≤ language) :
    (commaSeparated gap item).Follows source (Lexer.Meets source 1)
      (fun _ ↦ Lexer.Meets source 1) language := by
  have hstep : (do
      if ← accept .comma then
        gap
        return some (← item)
      else return none : Parser (Option α)).Follows source (Lexer.Meets source 1)
        (fun _ ↦ Lexer.Meets source 1) (word (.mark .comma) * (gaps * own) + 1) :=
    follows_accept .comma Language.nil_mem_one le_self_add
      (.bind hgap fun _ ↦ .answer hitem fun _ _ hlexer ↦ hlexer) (.pure fun _ hlexer ↦ hlexer)
  refine .mono (mul_kstar_le hone ?_) (.bind hitem fun first ↦
    .answer (follows_star hstep) fun _ _ hlexer ↦ hlexer)
  rw [mul_add, mul_one]
  exact add_le hmore le_rfl

theorem follows_primaries :
    (commaSeparated (pure ()) field).Follows source (Lexer.Meets source 1)
      (fun _ ↦ Lexer.Meets source 1) keyItems := by
  refine follows_commaSeparated (.pure fun _ hlexer ↦ hlexer)
    (follows_field.restrict fun _ hlexer ↦ hlexer.mono le_self_add) ?_ ?_
  · rintro items ⟨field, hfield⟩
    exact ⟨[field], .one hfield⟩
  · exact mul_keyItems_le

theorem follows_names :
    (commaSeparated skipNewlines (symbol .shown)).Follows source (Lexer.Meets source 1)
      (fun _ ↦ Lexer.Meets source 1) nameItems := by
  refine follows_commaSeparated follows_skipNewlines
    ((follows_symbol .shown).restrict fun _ hlexer ↦ hlexer.mono le_self_add) ?_ ?_
  · rintro items ⟨name, hname⟩
    exact ⟨[name], .one hname⟩
  · exact mul_nameItems_le

theorem follows_shown :
    shown.Follows source (Lexer.Meets source (1 + word (.symbol "repr")))
      (fun _ ↦ Lexer.Meets source 1) (written Shown.Written) := by
  have hall : (Token.symbol "all").Valid :=
    ⟨'a', ['l', 'l'], rfl, rfl, by simp [isSymbolChar]⟩
  have hrepr : (Token.symbol "repr").Valid :=
    ⟨'r', ['e', 'p', 'r'], rfl, rfl, by simp [isSymbolChar]⟩
  exact .mono shown_le (.bind (follows_keyword hrepr) fun _ ↦
    follows_accept .equal Language.nil_mem_one le_self_add
      (.answer ((follows_keyword hall).restrict fun _ hlexer ↦ hlexer.mono le_self_add)
        fun _ _ hlexer ↦ hlexer)
      (.bind (follows_mark .openBrace) fun _ ↦ .bind follows_skipNewlines fun _ ↦
        .bind follows_names fun names ↦ .bind follows_skipNewlines fun _ ↦
        .answer (follows_mark .closeBrace) fun _ _ hlexer ↦ hlexer))

/-! ### Blocks of fields -/

variable {β : Type} {last : β → Lexer → Prop} {tails : Language Item}

/-- A parser that starts before the end of a line or a closing brace takes words that begin
there. -/
theorem Follows.lines {parser : Parser β} (htails : EndsBlock tails)
    (hparser : parser.Follows source (Lexer.Meets source 1) last (blocks tails)) :
    parser.Follows source
      (Lexer.Views source 1 fun cursor ↦
        cursor.token? = some (.mark .newline) ∨ cursor.token? = some (.mark .closeBrace))
      last (linesOf (blocks tails)) := by
  refine (hparser.restrict fun _ hlexer ↦ hlexer.meets).widen htails.viable_lines
    (fun hnil ↦ absurd hnil htails.nil_notMem) fun {lexer item items rest stop} hlexer hspells
      hword ↦ ⟨hword, item, _, rfl, ?_⟩
  have hfirst := hspells.token?
  rcases hlexer.holds with hmark | hmark
  · exact Or.inl (Item.eq_mark_of_first_eq (by simpa [hmark] using hfirst.symm) (by decide))
  · exact Or.inr (Item.eq_mark_of_first_eq (by simpa [hmark] using hfirst.symm) (by decide))

theorem follows_fields {rest : List Field → Parser β} (htails : EndsBlock tails)
    (hrest : ∀ fields, (rest fields).Follows source (Lexer.Meets source (1 + symbols)) last
      (blocks tails)) :
    (fields >>= rest).Follows source (Lexer.Meets source 1) last (blocks tails) := by
  refine follows_many (fun next hnone hsome ↦ ?_) (fun _ hlexer ↦ hlexer.mono le_self_add) hrest
  rw [bind_assoc]
  refine .mono EndsBlock.newlines_mul_le (.bind follows_skipNewlines fun _ ↦ ?_)
  rw [bind_assoc]
  refine .look (follows_isSymbolBefore .colon) fun found ↦ ?_
  cases found with
  | false => simpa using hnone
  | true =>
    simp only [if_true, bind_assoc]
    have hnil : [] ∈ (1 : Language Item) := Language.nil_mem_one
    refine .mono htails.field_mul_le (.bind follows_field fun item ↦
      .restrict (fun _ ↦ Lexer.Meets.views) (.look (follows_isMark .newline hnil) fun newline ↦
        .look (follows_isMark .closeBrace hnil) fun brace ↦ ?_))
    cases hends : newline || brace with
    | true =>
      refine ((hsome item).lines htails).restrict fun lexer hlexer ↦ ⟨hlexer.meets, ?_⟩
      obtain ⟨⟨-, hnewline⟩, hbrace⟩ := hlexer.holds
      rw [← hnewline, ← hbrace]
      simpa using hends
    | false =>
      rw [if_neg Bool.false_ne_true, fail_bind]
      refine (follows_fail hnil ?_).restrict fun _ hlexer ↦ hlexer.meets
      rintro begun rfl
      exact htails.viable_lines

/-! ### Statements -/

theorem follows_tableEnd (name : String) (primaries ordinary : List Field) :
    (do
      let clause ← if (← peek 0) == some (.symbol "repr") then
          let clause ← shown
          skipNewlines
          pure (some clause)
        else pure none
      expect .table .closeBrace
      return ⟨name, primaries, ordinary, clause⟩ : Parser TableDefinition).Follows source
      (Lexer.Meets source (1 + symbols)) (fun _ ↦ Lexer.Meets source 1) (blocks tableTails) := by
  have hnil : [] ∈ 1 + symbols := Or.inl rfl
  simp only [pure_bind]
  refine .restrict (fun _ ↦ Lexer.Meets.views) (.look (follows_peek hnil) fun token ↦
    .ite (fun htoken ↦ ?_) fun _ ↦ ?_)
  · have hclause : written Shown.Written * (copies .newline * word (.mark .closeBrace)) ≤
        blocks tableTails := le_add_self.trans (EndsBlock.le_blocks tableTails)
    refine .mono hclause (.restrict (fun lexer hlexer ↦ ?_) (.bind follows_shown fun clause ↦
      .bind follows_skipNewlines fun _ ↦
        .answer (follows_mark .closeBrace) fun _ _ hlexer ↦ hlexer))
    exact hlexer.meets.word (hlexer.holds.2.trans (by simpa using htoken))
  · refine .restrict (fun _ hlexer ↦ hlexer.meets) (.answer (follows_expect hnil le_rfl ?_ ?_)
      fun _ _ hlexer ↦ hlexer)
    · rintro begun (rfl | ⟨name, rfl⟩)
      · exact .mono (endsBlock_tableTails.brace.trans (EndsBlock.le_blocks _)) (.word trivial)
      · exact endsBlock_tableTails.viable_symbol name
    · exact endsBlock_tableTails.brace.trans (EndsBlock.le_blocks _)

theorem follows_table :
    table.Follows source (Lexer.Meets source (1 + symbols)) (fun _ ↦ Lexer.Meets source 1)
      (written TableDefinition.Written) :=
  .mono table_le (.bind (follows_symbol .table) fun name ↦
    .bind (follows_mark .openParen) fun _ ↦ .bind follows_primaries fun primaries ↦
    .bind (follows_mark .closeParen) fun _ ↦ .bind follows_skipNewlines fun _ ↦
    .bind (follows_mark .openBrace) fun _ ↦
    follows_fields endsBlock_tableTails fun ordinary ↦ follows_tableEnd name primaries ordinary)

theorem follows_weightedSymbol :
    weightedSymbol.Follows source (Lexer.Meets source (1 + symbols))
      (fun _ ↦ Lexer.Meets source 1) (symbols * copies .caret) :=
  .bind (follows_symbol .weightedSymbol) fun _ ↦
    .answer (follows_count .caret) fun _ _ hlexer ↦ hlexer

theorem follows_markers (rule : Rule) (mark : Mark) :
    (markers rule mark).Follows source (Lexer.Meets source 1) (fun _ ↦ Lexer.Meets source 1)
      (markerItems mark) :=
  .bind (follows_mark mark) fun _ ↦ .answer (follows_accept_alone mark) fun _ _ hlexer ↦ hlexer

theorem follows_rightEnd (left : Side) (number : Nat) :
    (do
      let (right, weight) ← weightedSymbol
      skipNewlines
      expect .relation .openBrace
      let extra ← fields
      expect .relation .closeBrace
      return ⟨left, ⟨right, weight, number⟩, extra⟩ : Parser Relation).Follows source
      (Lexer.Meets source 1) (fun _ ↦ Lexer.Meets source 1) rightItems := by
  refine .restrict (fun _ hlexer ↦ hlexer.mono le_self_add) (.bind follows_weightedSymbol
    fun right ↦ .bind follows_skipNewlines fun _ ↦ .bind (follows_mark .openBrace) fun _ ↦
    follows_fields endsBlock_brace fun extra ↦ .answer (follows_expect (Or.inl rfl) le_rfl ?_ ?_)
      fun _ _ hlexer ↦ hlexer)
  · rintro begun (rfl | ⟨name, rfl⟩)
    · exact .mono (EndsBlock.le_blocks _) (.word trivial)
    · exact endsBlock_brace.viable_symbol name
  · exact EndsBlock.le_blocks _

theorem follows_relation :
    relation.Follows source (Lexer.Meets source (1 + symbols)) (fun _ ↦ Lexer.Meets source 1)
      (written Relation.Written) :=
  .mono relation_le (.bind follows_weightedSymbol fun left ↦
    .bind (follows_markers .leftMarker .less) fun leftMarkers ↦
    follows_accept .minus Language.nil_mem_one le_self_add
      (.bind (follows_markers .rightMarker .greater) fun rightMarkers ↦
        follows_rightEnd ⟨left.1, left.2, leftMarkers⟩ rightMarkers)
      (.bind (follows_markers .rightMarker .greater) fun rightMarkers ↦
        .bind (follows_mark .minus) fun _ ↦
          follows_rightEnd ⟨left.1, left.2, leftMarkers⟩ rightMarkers))

theorem follows_statement :
    statement.Follows source (Lexer.Meets source 1) (fun _ ↦ Lexer.Meets source 1)
      (written Statement.Written) := by
  have htable : written TableDefinition.Written ≤ written Statement.Written := by
    rintro items ⟨definition, hwritten⟩
    exact ⟨.table definition, hwritten⟩
  have hrelation : written Relation.Written ≤ written Statement.Written := by
    rintro items ⟨sides, hwritten⟩
    exact ⟨.relation sides, hwritten⟩
  have hopens : Viable (written Statement.Written) [] :=
    (@follows_table source).opens.mono htable
  refine .look follows_isSymbol fun found ↦ .ite (fun hfound ↦ ?_) fun _ ↦ ?_
  · refine .restrict (fun lexer hlexer ↦ ⟨hlexer.meets, hlexer.holds hfound⟩)
      (.look (follows_isMark_one .openParen) fun _ ↦ .ite (fun _ ↦ ?_) fun _ ↦ ?_)
    · exact .mono htable (.answer follows_table fun _ _ hlexer ↦ hlexer)
    · exact .mono hrelation (.answer follows_relation fun _ _ hlexer ↦ hlexer)
  · refine .restrict (fun _ hlexer ↦ hlexer.meets) (follows_fail Language.nil_mem_one ?_)
    rintro begun rfl
    exact hopens

/-- A parser that starts at the end of a line, or where no token stands, takes words that begin
there. -/
theorem Follows.gapped {parser : Parser β}
    (hparser : parser.Follows source (Lexer.Meets source 1) last documentItems) :
    parser.Follows source
      (Lexer.Views source 1 fun cursor ↦
        cursor.token? = some (.mark .newline) ∨ cursor.token? = none)
      last gappedItems := by
  have hnil : [] ∈ gappedItems := ⟨nil_mem_documentItems, by simp⟩
  refine (hparser.restrict fun _ hlexer ↦ hlexer.meets).widen (.of_mem hnil) (fun _ ↦ hnil)
    fun {lexer item items rest stop} hlexer hspells hword ↦ ⟨hword, ?_⟩
  have hfirst := hspells.token?
  rcases hlexer.holds with hmark | hnone
  · rintro _ ⟨⟩
    exact Item.eq_mark_of_first_eq (by simpa [hmark] using hfirst.symm) (by decide)
  · simp [hnone] at hfirst

theorem follows_statements :
    statements.Follows source (Lexer.Meets source 1) (fun _ ↦ Lexer.Meets source 1)
      documentItems := by
  have hnil : [] ∈ (1 : Language Item) := Language.nil_mem_one
  have hone : (1 : Language Item) ≤ documentItems := by
    rintro items rfl
    exact nil_mem_documentItems
  have hmany : (statements >>= pure).Follows source (Lexer.Meets source 1)
      (fun _ ↦ Lexer.Meets source 1) documentItems := by
    refine follows_many (fun next hnone hsome ↦ ?_) (fun _ hlexer ↦ hlexer) fun items ↦
      .mono hone (.pure fun _ hlexer ↦ hlexer)
    rw [bind_assoc]
    refine .mono newlines_mul_documentItems_le (.bind follows_skipNewlines fun _ ↦ ?_)
    rw [bind_assoc]
    refine .restrict (fun _ ↦ Lexer.Meets.views) (.look (follows_peek hnil) fun token ↦ ?_)
    cases token with
    | none => exact hnone.restrict fun _ hlexer ↦ hlexer.meets
    | some token =>
      simp only [Option.isNone_some, if_false, Bool.false_eq_true, bind_assoc]
      refine .mono statement_mul_le (.restrict (fun _ hlexer ↦ hlexer.meets)
        (.bind follows_statement fun item ↦ .restrict (fun _ ↦ Lexer.Meets.views)
          (.look (follows_isMark .newline hnil) fun newline ↦
            .look (follows_peek hnil) fun following ↦ ?_)))
      cases hends : newline || following.isNone with
      | true =>
        refine (hsome item).gapped.restrict fun lexer hlexer ↦ ⟨hlexer.meets, ?_⟩
        obtain ⟨⟨-, hnewline⟩, hfollowing⟩ := hlexer.holds
        rw [← hnewline, hfollowing]
        simpa using hends
      | false =>
        rw [if_neg Bool.false_ne_true, fail_bind]
        refine .restrict (fun _ hlexer ↦ hlexer.meets) (follows_fail hnil ?_)
        rintro begun rfl
        exact .of_mem ⟨nil_mem_documentItems, by simp⟩
  simpa using hmany

end Parser

/-! ### Stray characters that are reported -/

/-- A stray character stands at a place. -/
def Cursor.ShowsStray (cursor : Cursor) (character : Char) : Prop :=
  Text.BeginsNothing character ∧ ∃ rest, cursor.rest = character :: rest

theorem Cursor.Spells.settled {cursor stop : Cursor} {items : List Item}
    (hspells : cursor.Spells items stop) (hcursor : cursor.Settled) : stop.Settled := by
  induction items generalizing cursor with
  | nil => exact hspells ▸ hcursor
  | cons item items ih =>
    cases item with
    | token content => exact ih hspells.2 cursor.settled_after
    | initial content => exact ih hspells.2.2 cursor.after.settled_afterRaw

theorem Cursor.Faults.showsStray {source : List Char} {cursor : Cursor} {fault : LexicalFault}
    (hfaults : cursor.Faults source fault) (hcursor : cursor.Settled) :
    cursor.ShowsStray fault.character ∧ fault.position = .ofOffset source cursor.offset := by
  obtain ⟨start, character, hscan, rfl⟩ := hfaults
  obtain ⟨rfl, hrest, hnothing⟩ := beginsNothing_of_scan hscan
  rw [hcursor.skipGap_eq] at hrest ⊢
  exact ⟨⟨hnothing, hrest⟩, rfl⟩

/-- Where a document is given up because of a stray character, the items before the character begin
a document. -/
theorem exists_begun {source : String} {fault : LexicalFault}
    (hparse : Document.parse source = .error (.lexical fault)) :
    ∃ begun stop, Viable documentItems begun ∧
      (Cursor.begin source.toList).skipGap.Spells begun stop ∧ stop.ShowsStray fault.character ∧
        fault.position = .ofOffset source.toList stop.offset := by
  have hlexer := Lexer.meets_ofSource source.toList
  have hfollows := @Parser.follows_statements source.toList
  have hanswer : ∃ begun, Viable documentItems begun ∧ ∃ stop,
      (Cursor.begin source.toList).skipGap.Spells begun stop ∧
        stop.Faults source.toList fault := by
    unfold Document.parse at hparse
    cases hrun : Parser.statements.run (.ofSource source.toList) with
    | error found =>
      rw [hrun] at hparse
      cases hparse
      exact hfollows.stumbles hlexer hrun
    | ok answer =>
      obtain ⟨statements, last⟩ := answer
      obtain ⟨hlast, items, hitems, hspells⟩ := hfollows.takes hlexer hrun
      rw [hrun] at hparse
      simp only [bind, Except.bind] at hparse
      split at hparse
      · next stray hstray =>
        cases hparse
        obtain ⟨_, rfl, stop, hstop, hfaults⟩ := hlast.stray stray hstray
        rw [hlast.source_eq]
        rw [Cursor.spells_nil.1 hstop] at hfaults
        exact ⟨items, .of_mem hitems, _, hspells, hfaults⟩
      · cases hparse
  obtain ⟨begun, hbegun, stop, hspells, hfaults⟩ := hanswer
  exact ⟨begun, stop, hbegun, hspells,
    hfaults.showsStray (hspells.settled (Cursor.settled_skipGap _))⟩

end SchemaCompiler
