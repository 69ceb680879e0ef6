import SchemaCompiler.Text.Offset

/-!
# Tokens

A document is written in symbols, numbers and sixteen punctuation marks, the end of a line among
them. A lexeme is a token together with the place it was read from.
-/

set_option autoImplicit false
set_option relaxedAutoImplicit false

namespace SchemaCompiler

/-- A punctuation mark. -/
inductive Mark where
  | caret
  | comma
  | colon
  | equal
  | dot
  | minus
  | tilde
  | question
  | bang
  | openParen
  | closeParen
  | openBrace
  | closeBrace
  | less
  | greater
  | newline
deriving Repr, DecidableEq

namespace Mark

/-- The character that writes a mark. -/
def toChar : Mark → Char
  | caret => '^'
  | comma => ','
  | colon => ':'
  | equal => '='
  | dot => '.'
  | minus => '-'
  | tilde => '~'
  | question => '?'
  | bang => '!'
  | openParen => '('
  | closeParen => ')'
  | openBrace => '{'
  | closeBrace => '}'
  | less => '<'
  | greater => '>'
  | newline => '\n'

/-- Every mark. -/
def all : List Mark :=
  [caret, comma, colon, equal, dot, minus, tilde, question, bang, openParen, closeParen,
    openBrace, closeBrace, less, greater, newline]

/-- The mark that a character writes. -/
def ofChar? (character : Char) : Option Mark :=
  all.find? fun mark ↦ mark.toChar == character

/-- The wording of a mark in messages. -/
def describe : Mark → String
  | newline => "newline"
  | mark => "`" ++ String.singleton mark.toChar ++ "`"

theorem ofChar?_toChar (mark : Mark) : ofChar? mark.toChar = some mark := by
  cases mark <;> rfl

theorem toChar_of_ofChar?_eq_some {character : Char} {mark : Mark}
    (hmark : ofChar? character = some mark) : mark.toChar = character := by
  simpa using List.find?_some hmark

end Mark

/-- The smallest unit of a document. -/
inductive Token where
  | symbol (name : String)
  | number (digits : String)
  | mark (sign : Mark)
deriving Repr, DecidableEq

namespace Token

/-- The text of a token. -/
def text : Token → String
  | symbol name => name
  | number digits => digits
  | mark sign => String.singleton sign.toChar

/-- The wording of a token in messages. -/
def describe : Token → String
  | mark sign => sign.describe
  | token => "`" ++ token.text ++ "`"

end Token

/-- A token and the span it was read from. -/
structure Lexeme where
  token : Token
  span : Span
deriving Repr, DecidableEq

end SchemaCompiler
