import SchemaCompiler.Target.Token

/-!
# Pieces of written code

Written code is a sequence of words and bracketed groups. Its text has one blank between two
neighbours, no blank inside round and square brackets, and one on both sides inside braces. A word
may hold several tokens, written with the blanks that stand between them.
-/

set_option autoImplicit false
set_option relaxedAutoImplicit false

namespace SchemaCompiler

/-- A piece of written code. -/
inductive Tree where
  | word (text : String)
  /-- Several pieces in a row. -/
  | row (pieces : List Tree)
  | group (delimiter : Delimiter) (pieces : List Tree)

instance : Inhabited Tree := ⟨.row []⟩

instance : Coe String Tree := ⟨.word⟩

namespace Tree

/-- The text of a group around the text of its content. -/
def enclose (delimiter : Delimiter) (content : List String) : String :=
  match delimiter with
  | .paren => "(" ++ String.intercalate " " content ++ ")"
  | .bracket => "[" ++ String.intercalate " " content ++ "]"
  | .brace => String.intercalate " " ("\x7b" :: content ++ ["\x7d"])

mutual

/-- The texts that stand next to each other in a piece. -/
def words : Tree → List String
  | .word text => [text]
  | .row pieces => wordsOf pieces
  | .group delimiter pieces => [enclose delimiter (wordsOf pieces)]

/-- The texts that stand next to each other in a list of pieces. -/
def wordsOf : List Tree → List String
  | [] => []
  | piece :: rest => words piece ++ wordsOf rest

end

/-- The text of a piece. -/
def text (piece : Tree) : String := String.intercalate " " piece.words

/-- Pieces in round brackets. -/
def paren (pieces : List Tree) : Tree := .group .paren pieces

/-- Pieces in square brackets. -/
def bracket (pieces : List Tree) : Tree := .group .bracket pieces

/-- Pieces in braces. -/
def brace (pieces : List Tree) : Tree := .group .brace pieces

/-- Pieces with a comma between every two. -/
def commaList : List Tree → List Tree
  | [] => []
  | [piece] => [piece]
  | piece :: rest => piece :: "," :: commaList rest

/-- A string literal. -/
def literal (content : String) : Tree := .word (Text.literal content)

/-- A line of documentation. -/
def documentation (line : String) : Tree :=
  .row ["#", bracket ["doc", "=", .word ("r\" " ++ line ++ "\"")]]

end Tree

end SchemaCompiler
