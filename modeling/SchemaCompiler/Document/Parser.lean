import SchemaCompiler.Document
import SchemaCompiler.Token.Lexer

/-!
# Parsing documents

`Document.parse` reads a document by recursive descent with at most two lexemes of look-ahead. The
first token that fits no rule is reported with the innermost rule under way; a stray character that
was met while looking ahead is reported in its place, since no document goes on there.

The default of a field is not read in tokens: it is the rest of its line as written.
-/

set_option autoImplicit false
set_option relaxedAutoImplicit false

namespace SchemaCompiler

/-- A rule of the grammar. -/
inductive Rule where
  | statements
  | table
  | fieldList
  | field
  | fieldType
  | defaultText
  | shown
  | relation
  | weightedSymbol
  | leftMarker
  | rightMarker
deriving Repr, DecidableEq

/-- The name of a rule in messages. -/
def Rule.name : Rule → String
  | statements => "Stmts"
  | table => "TableDef"
  | fieldList => "FieldDefList"
  | field => "FieldDef"
  | fieldType => "Type"
  | defaultText => "Default"
  | shown => "ReprDef"
  | relation => "Relation"
  | weightedSymbol => "WeightedSymbol"
  | leftMarker => "Left"
  | rightMarker => "Right"

/-- What a rule asks for. -/
inductive Expected where
  | symbol
  | mark (sign : Mark)
  | word (content : String)
  | statement
  | newlineAfterStatement
  | newlineAfterField
  | defaultText
deriving Repr, DecidableEq

/-- The wording of what a rule asks for. -/
def Expected.describe : Expected → String
  | symbol => "a symbol"
  | mark sign => sign.describe
  | word content => "`" ++ content ++ "`"
  | statement => "a table definition or a relation"
  | newlineAfterStatement => "newline after statement"
  | newlineAfterField => "newline after field definition"
  | defaultText => "a default expression"

/-- Why a text is no document. -/
inductive ParseFault where
  | lexical (fault : LexicalFault)
  /-- A token, or the end of input if `found` is absent, that the rule does not allow. -/
  | grammar (rule : Rule) (expected : Expected) (found : Option Token) (position : Position)
deriving Repr, DecidableEq

/-- The cause that a fault reports. -/
def ParseFault.cause : ParseFault → Cause
  | lexical fault => fault.cause
  | grammar rule expected found position =>
    .grammar rule.name expected.describe (found.map Token.describe) position

/-- A parser reads lexemes and answers with a value or a fault. -/
abbrev Parser := StateT Lexer (Except ParseFault)

namespace Parser

/-! ### Single tokens -/

/-- Looks at a token without taking it. -/
def peek (count : Nat) : Parser (Option Token) := do
  let (lexeme, lexer) := (← get).peek count
  set lexer
  return lexeme.map Lexeme.token

/-- Takes the next token. -/
def advance : Parser Unit := modify fun lexer ↦ lexer.next.2

/-- Reports that the next token is not what the rule asks for. -/
def fail {α : Type} (rule : Rule) (expected : Expected) : Parser α := do
  let (lexeme, lexer) := (← get).peek 0
  match lexer.stray with
  | some stray => throw (.lexical (stray.locate lexer.source))
  | none =>
    let offset := (lexeme.map fun lexeme ↦ lexeme.span.start).getD (Text.width lexer.source)
    throw (.grammar rule expected (lexeme.map Lexeme.token) (.ofOffset lexer.source offset))

/-- Whether a token, reckoned from the next one, is a given mark. -/
def isMark (count : Nat) (mark : Mark) : Parser Bool := do
  return (← peek count) == some (.mark mark)

/-- Whether the next token is a symbol. -/
def isSymbol : Parser Bool := do
  match ← peek 0 with
  | some (.symbol _) => return true
  | _ => return false

/-- Whether a symbol and then a given mark follow. The token after the next one is looked at only if
the next one is a symbol. -/
def isSymbolBefore (mark : Mark) : Parser Bool := do
  if ← isSymbol then isMark 1 mark else return false

/-- Takes the next token if it is a given mark, and answers whether it was. -/
def accept (mark : Mark) : Parser Bool := do
  if ← isMark 0 mark then
    advance
    return true
  else return false

/-- Takes a given mark. -/
def expect (rule : Rule) (mark : Mark) : Parser Unit := do
  unless ← accept mark do fail rule (.mark mark)

/-- Takes a symbol. -/
def symbol (rule : Rule) : Parser String := do
  match ← peek 0 with
  | some (.symbol name) =>
    advance
    return name
  | _ => fail rule .symbol

/-- Takes a given word. -/
def keyword (rule : Rule) (word : String) : Parser Unit := do
  if (← peek 0) == some (.symbol word) then advance else fail rule (.word word)

/-! ### Repetition -/

/-- Repeats a step until it answers with nothing, at most `limit` times. -/
def repeatUpTo {α : Type} (step : Parser (Option α)) : Nat → Parser (List α)
  | 0 => return []
  | limit + 1 => do
    match ← step with
    | none => return []
    | some item => return item :: (← repeatUpTo step limit)

/-- Repeats a step until it answers with nothing. A step that answers with an item takes a lexeme,
so the characters left bound the number of repetitions. -/
def many {α : Type} (step : Parser (Option α)) : Parser (List α) := do
  repeatUpTo step ((← get).remaining + 1)

/-- Takes all copies of a mark that follow and answers with their number. -/
def count (mark : Mark) : Parser Nat := do
  let taken ← many do
    return if ← accept mark then some () else none
  return taken.length

/-- Takes the ends of lines that follow. -/
def skipNewlines : Parser Unit := do
  let _ ← count .newline

/-- Takes one item and then one more after each comma; `gap` runs between a comma and its item. -/
def commaSeparated {α : Type} (gap : Parser Unit) (item : Parser α) : Parser (List α) := do
  let first ← item
  let others ← many do
    if ← accept .comma then
      gap
      return some (← item)
    else return none
  return first :: others

/-! ### Fields -/

/-- Takes an option mark if one follows. -/
def fieldOption : Parser (Option FieldOption) := do
  if ← accept .question then return some .nullable
  else if ← accept .bang then return some .unique
  else if ← accept .tilde then return some .sequence
  else return none

/-- Takes the rest of the line after the `=` of a default. -/
def defaultText : Parser DefaultText := do
  let (raw, lexer) := (← get).restOfLine
  set lexer
  if raw.text.isEmpty then fail .defaultText .defaultText
  else return ⟨String.ofList raw.text, raw.span⟩

/-- Takes a field. -/
def field : Parser Field := do
  let name ← symbol .field
  expect .field .colon
  let type ← symbol .fieldType
  let options ← many fieldOption
  let initial ← if ← accept .equal then some <$> defaultText else pure none
  return ⟨name, type, options, initial⟩

/-- Takes the fields of a block, one a line. They end before a token that begins no field. -/
def fields : Parser (List Field) :=
  many do
    skipNewlines
    if ← isSymbolBefore .colon then
      let item ← field
      if (← isMark 0 .newline) || (← isMark 0 .closeBrace) then return some item
      else fail .fieldList .newlineAfterField
    else return none

/-! ### Statements -/

/-- Takes the clause that says which fields show a row. -/
def shown : Parser Shown := do
  keyword .shown "repr"
  if ← accept .equal then
    keyword .shown "all"
    return .all
  else
    expect .shown .openBrace
    skipNewlines
    let names ← commaSeparated skipNewlines (symbol .shown)
    skipNewlines
    expect .shown .closeBrace
    return .fields names

/-- Takes a table definition. -/
def table : Parser TableDefinition := do
  let name ← symbol .table
  expect .table .openParen
  let primaries ← commaSeparated (pure ()) field
  expect .table .closeParen
  skipNewlines
  expect .table .openBrace
  let ordinary ← fields
  let clause ← if (← peek 0) == some (.symbol "repr") then
      let clause ← shown
      skipNewlines
      pure (some clause)
    else pure none
  expect .table .closeBrace
  return ⟨name, primaries, ordinary, clause⟩

/-- Takes a symbol and its weight. -/
def weightedSymbol : Parser (String × Nat) := do
  let name ← symbol .weightedSymbol
  return (name, ← count .caret)

/-- Takes one or two copies of a mark and answers with their number. -/
def markers (rule : Rule) (mark : Mark) : Parser Nat := do
  expect rule mark
  return if ← accept mark then 2 else 1

/-- Takes a relation. The dash stands between the markers or after both. -/
def relation : Parser Relation := do
  let (left, leftWeight) ← weightedSymbol
  let leftMarkers ← markers .leftMarker .less
  let dashed ← accept .minus
  let rightMarkers ← markers .rightMarker .greater
  unless dashed do expect .relation .minus
  let (right, rightWeight) ← weightedSymbol
  skipNewlines
  expect .relation .openBrace
  let extra ← fields
  expect .relation .closeBrace
  return ⟨⟨left, leftWeight, leftMarkers⟩, ⟨right, rightWeight, rightMarkers⟩, extra⟩

/-- Takes a statement. A symbol before `(` begins a table definition, any other a relation. -/
def statement : Parser Statement := do
  if ← isSymbol then
    if ← isMark 1 .openParen then return .table (← table)
    else return .relation (← relation)
  else fail .statements .statement

/-- Takes all statements, each on lines of its own. -/
def statements : Parser (List Statement) :=
  many do
    skipNewlines
    if (← peek 0).isNone then return none
    else
      let item ← statement
      let ended := (← isMark 0 .newline) || (← peek 0).isNone
      if ended then return some item else fail .statements .newlineAfterStatement

end Parser

/-- Parses a document. Either the whole text is read or nothing is. -/
def Document.parse (source : String) : Except ParseFault Document := do
  let (statements, lexer) ← Parser.statements.run (.ofSource source.toList)
  match lexer.stray with
  | some stray => throw (.lexical (stray.locate lexer.source))
  | none => return ⟨statements⟩

end SchemaCompiler
