import SchemaCompiler.Proofs.Spelling

/-!
# The grammar of documents

Each definition of this module is a rule of the grammar. It says which lists of items write a value
of the syntax tree, and is stated without regard to how a document is parsed:

* a document is a list of statements, each on lines of its own;
* a table definition is a symbol, its primary key in parentheses, and a block of fields that may end
  with a clause on how a row is shown;
* a relation is two symbols with their weights, the markers between them, and a block of fields;
* the fields of a block stand one a line, where the end of the line may be left out before the brace
  that closes the block;
* a field is a name, a type, option marks and a default, in this order.

Ends of lines are items of their own, so every rule says where they may stand. `Document.WrittenAs`
puts the rules together with the reading of a text as items. The defaults of a document are written
in the order of its statements and their fields (`Document.Written.initials_eq`).
-/

set_option autoImplicit false
set_option relaxedAutoImplicit false

namespace SchemaCompiler

/-! ### Lists -/

/-- Ends of lines. -/
def newlines (count : Nat) : List Item := List.replicate count (.mark .newline)

/-- One value or more, one after the other, with a separator between them. -/
inductive Separated {α : Type} (separates : List Item → Prop) (writes : α → List Item → Prop) :
    List α → List Item → Prop
  | one {value : α} {items : List Item} (hvalue : writes value items) :
      Separated separates writes [value] items
  | more {value : α} {values : List α} {items separator rest : List Item}
      (hvalue : writes value items) (hseparator : separates separator)
      (hrest : Separated separates writes values rest) :
      Separated separates writes (value :: values) (items ++ (separator ++ rest))

/-! ### Fields -/

/-- The mark that writes a field option. -/
def FieldOption.mark : FieldOption → Mark
  | nullable => .question
  | unique => .bang
  | sequence => .tilde

theorem FieldOption.forall_iff {property : FieldOption → Prop} :
    (∀ option, property option) ↔ property .nullable ∧ property .unique ∧ property .sequence :=
  ⟨fun h ↦ ⟨h _, h _, h _⟩, fun h option ↦ by cases option <;> simp [h]⟩

/-- The items that write a field. -/
def Field.items (field : Field) : List Item :=
  .symbol field.name :: .mark .colon :: .symbol field.type ::
    (field.options.map (fun option ↦ .mark option.mark)
      ++ (field.initial.map Item.initial).toList)

/-- Fields one a line, and then `tail`. Before a closing brace the end of the line may be left
out. -/
inductive FieldLines (tail : List Item) : List Field → List Item → Prop
  | nil : FieldLines tail [] tail
  | line {field : Field} {fields : List Field} {rest : List Item} (count : Nat)
      (hrest : FieldLines tail fields rest) :
      FieldLines tail (field :: fields) (field.items ++ (newlines (count + 1) ++ rest))
  | beforeBrace {field : Field} {fields : List Field} {rest : List Item}
      (hrest : FieldLines tail fields rest) (hbrace : rest.head? = some (.mark .closeBrace)) :
      FieldLines tail (field :: fields) (field.items ++ rest)

/-! ### Statements -/

/-- The separator of the fields of a primary key. -/
def IsComma (items : List Item) : Prop := items = [.mark .comma]

/-- The separator of the names in a clause, which may go on in another line. -/
def IsCommaGap (items : List Item) : Prop := ∃ count, items = .mark .comma :: newlines count

/-- The separator of statements. -/
def IsLineGap (items : List Item) : Prop := ∃ count, items = newlines (count + 1)

/-- The clause that says which fields show a row. -/
def Shown.Written : Shown → List Item → Prop
  | .all, items => items = [.symbol "repr", .mark .equal, .symbol "all"]
  | .fields names, items =>
    ∃ before body after,
      Separated IsCommaGap (fun name own ↦ own = [.symbol name]) names body ∧
      items = .symbol "repr" :: .mark .openBrace ::
        (newlines before ++ (body ++ (newlines after ++ [.mark .closeBrace])))

/-- The clause of a table definition, which may be absent. -/
def ClauseWritten (shown : Option Shown) (items : List Item) : Prop :=
  match shown with
  | none => items = []
  | some clause => clause.Written items

def TableDefinition.Written (definition : TableDefinition) (items : List Item) : Prop :=
  ∃ key before gap clause after block,
    Separated IsComma (fun field own ↦ own = field.items) definition.primaries key ∧
    ClauseWritten definition.shown clause ∧
    FieldLines (clause ++ (newlines after ++ [.mark .closeBrace])) definition.fields block ∧
    items = .symbol definition.name :: .mark .openParen ::
      (key ++ (.mark .closeParen ::
        (newlines before ++ (.mark .openBrace :: (newlines gap ++ block)))))

/-- The markers of the right side and the dash, which stands before or after them. -/
def DashWritten (markers : Nat) (items : List Item) : Prop :=
  items = .mark .minus :: List.replicate markers (.mark .greater) ∨
    items = List.replicate markers (.mark .greater) ++ [.mark .minus]

def Relation.Written (relation : Relation) (items : List Item) : Prop :=
  ∃ dash before gap block,
    (relation.left.markers = 1 ∨ relation.left.markers = 2) ∧
    (relation.right.markers = 1 ∨ relation.right.markers = 2) ∧
    DashWritten relation.right.markers dash ∧
    FieldLines [.mark .closeBrace] relation.fields block ∧
    items = .symbol relation.left.symbol ::
      (List.replicate relation.left.weight (.mark .caret) ++
        (List.replicate relation.left.markers (.mark .less) ++ (dash ++
          (.symbol relation.right.symbol ::
            (List.replicate relation.right.weight (.mark .caret) ++
              (newlines before ++ (.mark .openBrace :: (newlines gap ++ block))))))))

def Statement.Written : Statement → List Item → Prop
  | .table definition => definition.Written
  | .relation sides => sides.Written

/-! ### Documents -/

def Document.Written (document : Document) (items : List Item) : Prop :=
  ∃ before body after,
    ((document.statements = [] ∧ body = []) ∨
      Separated IsLineGap Statement.Written document.statements body) ∧
    items = newlines before ++ (body ++ newlines after)

/-- A text, read as items, writes a document. -/
def Document.WrittenAs (document : Document) (source : String) : Prop :=
  ∃ items, Reads 0 source.toList items ∧ document.Written items

/-! ### How lists of items begin -/

@[simp] theorem newlines_zero : newlines 0 = [] := rfl

theorem newlines_succ (count : Nat) : newlines (count + 1) = .mark .newline :: newlines count := by
  simp [newlines, List.replicate_succ]

theorem newlines_add (first second : Nat) :
    newlines (first + second) = newlines first ++ newlines second := by
  simp [newlines, List.replicate_append_replicate]

theorem separated_singleton_iff {α : Type} {separates : List Item → Prop}
    {writes : α → List Item → Prop} {value : α} {items : List Item} :
    Separated separates writes [value] items ↔ writes value items := by
  constructor
  · intro hseparated
    cases hseparated with
    | one hvalue => exact hvalue
    | more _ _ hrest => cases hrest
  · exact .one

theorem separated_cons_cons_iff {α : Type} {separates : List Item → Prop}
    {writes : α → List Item → Prop} {value next : α} {values : List α} {items : List Item} :
    Separated separates writes (value :: next :: values) items ↔
      ∃ own separator rest, writes value own ∧ separates separator ∧
        Separated separates writes (next :: values) rest ∧ items = own ++ (separator ++ rest) := by
  constructor
  · intro hseparated
    cases hseparated with
    | more hvalue hseparator hrest => exact ⟨_, _, _, hvalue, hseparator, hrest, rfl⟩
  · rintro ⟨own, separator, rest, hvalue, hseparator, hrest, rfl⟩
    exact .more hvalue hseparator hrest

/-- A list of values that begin with a symbol begins with one. -/
theorem Separated.exists_symbol {α : Type} {separates : List Item → Prop}
    {writes : α → List Item → Prop} {values : List α} {items : List Item}
    (hvalues : Separated separates writes values items)
    (hwrites : ∀ {value own}, writes value own → ∃ name others, own = .symbol name :: others) :
    ∃ name others, items = .symbol name :: others := by
  cases hvalues with
  | one hvalue => exact hwrites hvalue
  | more hvalue _ _ =>
    obtain ⟨name, others, rfl⟩ := hwrites hvalue
    exact ⟨name, _, rfl⟩

theorem Shown.Written.exists_repr {clause : Shown} {items : List Item}
    (hclause : clause.Written items) :
    ∃ sign others, sign ≠ Mark.colon ∧ items = .symbol "repr" :: .mark sign :: others := by
  cases clause with
  | all => exact ⟨.equal, _, by decide, hclause⟩
  | fields names =>
    obtain ⟨before, body, after, -, rfl⟩ := hclause
    exact ⟨.openBrace, _, by decide, rfl⟩

theorem Item.eq_mark_of_first_eq {item : Item} {mark : Mark} (hfirst : item.first = .mark mark)
    (hmark : mark ≠ .equal) : item = .mark mark := by
  cases item with
  | token content => exact congrArg Item.token hfirst
  | initial text =>
    simp only [Item.first, Token.mark.injEq] at hfirst
    exact absurd hfirst.symm hmark

/-- A block begins with a field or with its tail. -/
theorem FieldLines.exists_cons {first : Item} {rest block : List Item} {fields : List Field}
    (hblock : FieldLines (first :: rest) fields block) :
    ∃ head others, block = head :: others ∧ (head = first ∨ ∃ name, head = .symbol name) := by
  cases hblock with
  | nil => exact ⟨first, rest, rfl, Or.inl rfl⟩
  | line count hrest => exact ⟨_, _, rfl, Or.inr ⟨_, rfl⟩⟩
  | beforeBrace hrest hbrace => exact ⟨_, _, rfl, Or.inr ⟨_, rfl⟩⟩

/-- A statement begins with a symbol, and is a table definition exactly if a parenthesis follows. -/
theorem Statement.Written.exists_cons_cons {statement : Statement} {items : List Item}
    (hwritten : statement.Written items) :
    ∃ name second others, items = .symbol name :: second :: others ∧
      (second.first = .mark .openParen ↔ ∃ definition, statement = .table definition) := by
  cases statement with
  | table definition =>
    obtain ⟨key, before, gap, clause, after, block, -, -, -, rfl⟩ := hwritten
    exact ⟨_, _, _, rfl, by simp [Item.first]⟩
  | relation sides =>
    obtain ⟨dash, before, gap, block, hmarkers, -, -, -, rfl⟩ := hwritten
    cases sides.left.weight with
    | zero =>
      rcases hmarkers with hone | htwo
      · exact ⟨_, .mark .less, _, by rw [hone]; rfl, by simp [Item.first]⟩
      · exact ⟨_, .mark .less, _, by rw [htwo]; rfl, by simp [Item.first]⟩
    | succ weight => exact ⟨_, .mark .caret, _, rfl, by simp [Item.first]⟩

theorem Statement.Written.exists_symbol {statement : Statement} {items : List Item}
    (hwritten : statement.Written items) : ∃ name others, items = .symbol name :: others := by
  obtain ⟨name, second, others, rfl, -⟩ := hwritten.exists_cons_cons
  exact ⟨name, second :: others, rfl⟩

/-! ### Defaults are written in order -/

/-- The default that an item writes. -/
def Item.initial? : Item → Option DefaultText
  | .token _ => none
  | .initial text => some text

/-- The defaults that items write, in order. -/
def Item.initials (items : List Item) : List DefaultText := items.filterMap Item.initial?

/-- The defaults of some fields in order. -/
def Field.defaults (fields : List Field) : List DefaultText :=
  fields.flatMap fun field ↦ field.initial.toList

/-- The defaults of a document in the order of its statements and their fields. -/
def Document.defaults (document : Document) : List DefaultText :=
  document.statements.flatMap fun statement ↦ Field.defaults statement.fields

theorem Document.mem_defaults_iff {document : Document} {text : DefaultText} :
    text ∈ document.defaults ↔ ∃ statement ∈ document.statements, ∃ field ∈ statement.fields,
      field.initial = some text := by
  simp [Document.defaults, Field.defaults]

namespace Item

@[simp] theorem initials_nil : initials [] = [] := rfl

@[simp] theorem initials_token (content : Token) (items : List Item) :
    initials (.token content :: items) = initials items := rfl

@[simp] theorem initials_initial (text : DefaultText) (items : List Item) :
    initials (.initial text :: items) = text :: initials items := rfl

@[simp] theorem initials_append (first second : List Item) :
    initials (first ++ second) = initials first ++ initials second :=
  List.filterMap_append

@[simp] theorem initials_replicate (count : Nat) (content : Token) :
    initials (List.replicate count (.token content)) = [] := by
  simp [initials, initial?]

@[simp] theorem initials_newlines (count : Nat) : initials (newlines count) = [] :=
  initials_replicate count (.mark .newline)

theorem mem_initials_iff {text : DefaultText} {items : List Item} :
    text ∈ initials items ↔ .initial text ∈ items := by
  induction items with
  | nil => simp
  | cons item items ih => cases item <;> simp [ih]

end Item

@[simp] theorem Field.initials_items (field : Field) :
    Item.initials field.items = field.initial.toList := by
  have hmarks : Item.initials (field.options.map fun option ↦ .mark option.mark) = [] := by
    induction field.options with
    | nil => rfl
    | cons option options ih => exact ih
  rw [Field.items, Item.initials_token, Item.initials_token, Item.initials_token,
    Item.initials_append, hmarks]
  cases field.initial <;> rfl

/-- A list of values writes the defaults of each value in turn. -/
theorem Separated.initials_eq {α : Type} {separates : List Item → Prop}
    {writes : α → List Item → Prop} {defaults : α → List DefaultText} {values : List α}
    {items : List Item} (hvalues : Separated separates writes values items)
    (hseparates : ∀ separator, separates separator → Item.initials separator = [])
    (hwrites : ∀ value own, writes value own → Item.initials own = defaults value) :
    Item.initials items = values.flatMap defaults := by
  induction hvalues with
  | one hvalue => simp [hwrites _ _ hvalue]
  | more hvalue hseparator _ ih => simp [hwrites _ _ hvalue, hseparates _ hseparator, ih]

theorem FieldLines.initials_eq {tail block : List Item} {fields : List Field}
    (hblock : FieldLines tail fields block) :
    Item.initials block = Field.defaults fields ++ Item.initials tail := by
  induction hblock with
  | nil => rfl
  | line count _ ih => simp [Field.defaults, ih]
  | beforeBrace _ _ ih => simp [Field.defaults, ih]

/-- No default stands in a clause. -/
theorem ClauseWritten.initials_eq_nil {shown : Option Shown} {items : List Item}
    (hclause : ClauseWritten shown items) : Item.initials items = [] := by
  match shown, hclause with
  | none, hclause => rw [show items = [] from hclause, Item.initials_nil]
  | some .all, hclause =>
    rw [show items = _ from hclause]
    simp
  | some (.fields names), hclause =>
    obtain ⟨before, body, after, hbody, rfl⟩ := hclause
    have hnames : Item.initials body = names.flatMap fun _ ↦ [] := by
      refine hbody.initials_eq ?_ ?_
      · rintro _ ⟨count, rfl⟩
        simp
      · rintro name _ rfl
        simp
    simp [hnames]

/-- A statement writes the defaults of its fields in order. -/
theorem Statement.Written.initials_eq {statement : Statement} {items : List Item}
    (hwritten : statement.Written items) :
    Item.initials items = Field.defaults statement.fields := by
  cases statement with
  | table definition =>
    obtain ⟨key, before, gap, clause, after, block, hkey, hclause, hblock, rfl⟩ := hwritten
    have hkeyInitials : Item.initials key = Field.defaults definition.primaries := by
      refine hkey.initials_eq ?_ ?_
      · rintro _ rfl
        rfl
      · rintro field _ rfl
        exact field.initials_items
    simp [hkeyInitials, hblock.initials_eq, hclause.initials_eq_nil, Statement.fields,
      Field.defaults]
  | relation sides =>
    obtain ⟨dash, before, gap, block, -, -, hdash, hblock, rfl⟩ := hwritten
    have hdashInitials : Item.initials dash = [] := by
      rcases hdash with rfl | rfl <;> simp
    simp [hdashInitials, hblock.initials_eq, Statement.fields]

/-- A document writes its defaults in order. -/
theorem Document.Written.initials_eq {document : Document} {items : List Item}
    (hwritten : document.Written items) : Item.initials items = document.defaults := by
  obtain ⟨before, body, after, hbody, rfl⟩ := hwritten
  rcases hbody with ⟨hnone, rfl⟩ | hbody
  · simp [Document.defaults, hnone]
  · have hstatements : Item.initials body = document.defaults := by
      refine hbody.initials_eq ?_ fun statement own hown ↦ hown.initials_eq
      rintro _ ⟨count, rfl⟩
      simp
    simp [hstatements]

end SchemaCompiler
