/-!
# Byte offsets

Places in a text are counted in bytes of its UTF-8 form. A `Span` is a range of such offsets and a
`Position` is the line and column that a reader of the text sees; columns count characters.
-/

set_option autoImplicit false
set_option relaxedAutoImplicit false

namespace SchemaCompiler

/-- The number of bytes of a text. -/
def Text.width (text : List Char) : Nat :=
  text.foldr (fun character total ↦ character.utf8Size + total) 0

/-- The text from a byte offset on, if the offset lies on a character boundary. -/
def Text.dropBytes : List Char → Nat → Option (List Char)
  | text, 0 => some text
  | [], _ + 1 => none
  | character :: rest, offset + 1 =>
    if character.utf8Size ≤ offset + 1 then dropBytes rest (offset + 1 - character.utf8Size)
    else none

/-- The text before a byte offset, if the offset lies on a character boundary. -/
def Text.takeBytes : List Char → Nat → Option (List Char)
  | _, 0 => some []
  | [], _ + 1 => none
  | character :: rest, offset + 1 =>
    if character.utf8Size ≤ offset + 1 then
      (takeBytes rest (offset + 1 - character.utf8Size)).map (character :: ·)
    else none

/-- A range of byte offsets, with the end excluded. -/
structure Span where
  start : Nat
  stop : Nat
deriving Repr, DecidableEq

/-- The part of a text that a span covers. There is none if the span is reversed, reaches past the
text or cuts a character. -/
def Span.text? (span : Span) (source : List Char) : Option (List Char) :=
  if span.start ≤ span.stop then
    (Text.dropBytes source span.start).bind fun rest ↦
      Text.takeBytes rest (span.stop - span.start)
  else none

/-- A line and a column, both counted from one. -/
structure Position where
  line : Nat
  column : Nat
deriving Repr, DecidableEq

namespace Position

/-- The beginning of a text. -/
def first : Position := ⟨1, 1⟩

/-- The position after a character. -/
def advance (position : Position) (character : Char) : Position :=
  if character = '\n' then ⟨position.line + 1, 1⟩ else ⟨position.line, position.column + 1⟩

/-- The position after all characters of a text that begin less than `offset` bytes into it. -/
def after (position : Position) : List Char → Nat → Position
  | [], _ => position
  | character :: rest, offset =>
    if offset = 0 then position
    else (position.advance character).after rest (offset - character.utf8Size)

/-- The position of a byte offset. An offset inside a character counts as the end of it, and one
past the text as the end of the text. -/
def ofOffset (source : List Char) (offset : Nat) : Position := first.after source offset

/-- The wording of a position in messages. -/
def describe (position : Position) : String :=
  "line " ++ toString position.line ++ ", column " ++ toString position.column

end Position

end SchemaCompiler
