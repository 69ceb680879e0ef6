import SchemaCompiler.Diagnostic
import SchemaCompiler.Text.Blank
import SchemaCompiler.Token

/-!
# Reading tokens

A `Cursor` is a place in a text. From a cursor, `Cursor.scan` steps over blanks and a comment and
reads the longest token that begins there. `tokenize` repeats this to the end of the text.

A `Lexer` serves a parser: it hands out lexemes one by one, lets the parser look at lexemes before
taking them, and can give up what it has read ahead to take the rest of a line as it stands. A
character that begins no token is remembered and stops the reading, until `Lexer.restOfLine` goes
back before it.
-/

set_option autoImplicit false
set_option relaxedAutoImplicit false

namespace SchemaCompiler

/-- A place in a text: what is left to read, and how many bytes came before. -/
structure Cursor where
  rest : List Char
  offset : Nat
deriving Repr, DecidableEq

/-- A token, from the cursor before its first character to the cursor after its last. -/
structure Reading where
  start : Cursor
  token : Token
  stop : Cursor
deriving Repr, DecidableEq

/-- The lexeme of a reading. -/
def Reading.lexeme (reading : Reading) : Lexeme :=
  ⟨reading.token, ⟨reading.start.offset, reading.stop.offset⟩⟩

/-- What stands at a cursor, after blanks and comments. -/
inductive Scan where
  | token (reading : Reading)
  /-- A character that begins no token. -/
  | stray (start : Cursor) (character : Char)
  /-- The end of the text. -/
  | finish (cursor : Cursor)
deriving Repr, DecidableEq

/-- Whether a character may continue a symbol; a symbol begins with a letter. -/
def isSymbolChar (character : Char) : Bool := character == '_' || character.isAlpha

namespace Cursor

/-- The beginning of a text. -/
def begin (source : List Char) : Cursor := ⟨source, 0⟩

/-- Steps over the characters that `skips` selects. -/
def skip (cursor : Cursor) (skips : Char → Bool) : Cursor :=
  ⟨cursor.rest.dropWhile skips, cursor.offset + Text.width (cursor.rest.takeWhile skips)⟩

/-- Steps over blanks and over a comment, up to the end of the line at most. -/
def skipGap (cursor : Cursor) : Cursor :=
  let start := cursor.skip Text.isLineBlank
  match start.rest with
  | '#' :: _ => start.skip (· != '\n')
  | _ => start

/-- Reads a token that consists of the longest run of characters that `continues` selects. -/
def run (start : Cursor) (continues : Char → Bool) (token : String → Token) : Reading :=
  ⟨start, token (String.ofList (start.rest.takeWhile continues)), start.skip continues⟩

/-- Reads what stands at a cursor. -/
def scan (cursor : Cursor) : Scan :=
  let start := cursor.skipGap
  match start.rest with
  | [] => .finish start
  | character :: rest =>
    if character.isAlpha then .token (start.run isSymbolChar .symbol)
    else if character.isDigit then .token (start.run Char.isDigit .number)
    else
      match Mark.ofChar? character with
      | some mark => .token ⟨start, .mark mark, ⟨rest, start.offset + character.utf8Size⟩⟩
      | none => .stray start character

end Cursor

/-- A character that begins no token, with its offset. -/
structure Stray where
  offset : Nat
  character : Char
deriving Repr, DecidableEq

/-- A stray character and where a reader of the document finds it. -/
structure LexicalFault where
  character : Char
  position : Position
deriving Repr, DecidableEq

/-- Finds the line and column of a stray character. -/
def Stray.locate (stray : Stray) (source : List Char) : LexicalFault :=
  ⟨stray.character, .ofOffset source stray.offset⟩

/-- The cause that a lexical fault reports. -/
def LexicalFault.cause (fault : LexicalFault) : Cause := .lexical fault.character fault.position

/-! ### All lexemes of a text -/

/-- The lexemes from a cursor on, at most `limit` of them. -/
def Cursor.lexemes : (limit : Nat) → Cursor → Except Stray (List Lexeme)
  | 0, _ => .ok []
  | limit + 1, cursor =>
    match cursor.scan with
    | .token reading => (lexemes limit reading.stop).map (reading.lexeme :: ·)
    | .stray start character => .error ⟨start.offset, character⟩
    | .finish _ => .ok []

/-- Divides a document into lexemes and drops its comments. Every lexeme takes a character, so the
length of the text bounds their number. -/
def tokenize (source : String) : Except LexicalFault (List Lexeme) :=
  ((Cursor.begin source.toList).lexemes source.toList.length).mapError
    fun stray ↦ stray.locate source.toList

/-! ### Lexemes one by one -/

/-- The state of a reader that looks ahead. -/
structure Lexer where
  source : List Char
  /-- The place up to which the text has been read. -/
  cursor : Cursor
  /-- What has been read and not yet taken, the first lexeme first. -/
  ahead : List Reading := []
  /-- The character that stopped the reading. -/
  stray : Option Stray := none
deriving Repr, DecidableEq

/-- The text from a place to the end of its line, without a comment and without blanks around. -/
structure RawText where
  text : List Char
  span : Span
deriving Repr, DecidableEq

namespace Lexer

/-- A reader at the beginning of a text. -/
def ofSource (source : List Char) : Lexer := { source := source, cursor := .begin source }

/-- Reads one more lexeme ahead, unless the text ends or a stray character stands there. -/
def extend (lexer : Lexer) : Lexer :=
  match lexer.stray with
  | some _ => lexer
  | none =>
    match lexer.cursor.scan with
    | .token reading =>
      { lexer with cursor := reading.stop, ahead := lexer.ahead ++ [reading] }
    | .stray start character =>
      { lexer with cursor := start, stray := some ⟨start.offset, character⟩ }
    | .finish cursor => { lexer with cursor := cursor }

/-- Reads ahead until `count` lexemes are waiting, or as many as there are. -/
def fill (lexer : Lexer) : Nat → Lexer
  | 0 => lexer
  | count + 1 =>
    let filled := lexer.fill count
    if filled.ahead.length < count + 1 then filled.extend else filled

/-- Takes the next lexeme. -/
def next (lexer : Lexer) : Option Lexeme × Lexer :=
  let filled := lexer.fill 1
  match filled.ahead with
  | [] => (none, filled)
  | reading :: rest => (some reading.lexeme, { filled with ahead := rest })

/-- Looks at the lexeme that follows the next `count` lexemes. -/
def peek (lexer : Lexer) (count : Nat) : Option Lexeme × Lexer :=
  let filled := lexer.fill (count + 1)
  ((filled.ahead[count]?).map Reading.lexeme, filled)

/-- The place of the first character that no lexeme taken so far covers. -/
def front (lexer : Lexer) : Cursor :=
  match lexer.ahead with
  | [] => lexer.cursor
  | reading :: _ => reading.start

/-- The number of characters from the front on, which bounds the number of lexemes to come. -/
def remaining (lexer : Lexer) : Nat := lexer.front.rest.length

/-- Gives up what was read ahead and takes the text up to the end of the line or a comment. A stray
character that was met from the front on is given up as well. -/
def restOfLine (lexer : Lexer) : RawText × Lexer :=
  let front := lexer.front
  let start := front.skip Text.isLineBlank
  let inText := fun character ↦ character != '\n' && character != '#'
  let text := Text.trimEnd (start.rest.takeWhile inText)
  (⟨text, ⟨start.offset, start.offset + Text.width text⟩⟩,
    { source := lexer.source
      cursor := start.skip inText
      stray := lexer.stray.filter fun stray ↦ stray.offset < front.offset })

end Lexer

end SchemaCompiler
