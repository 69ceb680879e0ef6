import SchemaCompiler.Text.Blank

/-!
# Lower case and snake case

Symbols are written in ASCII letters, digits and underscores, so case is ASCII case here. The snake
case of a symbol divides it where its capitals mark the beginning of a word: `UserItem` has the
words `user` and `item`, and `HTTPServer` has `http` and `server`.
-/

set_option autoImplicit false
set_option relaxedAutoImplicit false

namespace SchemaCompiler.Text

/-- A text with its capital ASCII letters made small. Other letters stay as they are, also where
Unicode has a small form of them: no symbol has such letters. -/
def lower (text : String) : String := String.ofList (text.toList.map Char.toLower)

/-- What the characters of a word read so far say about its case. -/
inductive CaseMode where
  | boundary
  | small
  | capital
deriving Repr, DecidableEq

/-- The mode after a character; a character without case leaves it alone. -/
def CaseMode.next (mode : CaseMode) (character : Char) : CaseMode :=
  if character.isLower then .small
  else if character.isUpper then .capital
  else mode

/-- The words of a run of letters and digits, where `current` is the word under way. A word ends
after a small letter before a capital, and before a capital that follows a capital and precedes a
small letter. -/
def caseWords (mode : CaseMode) (current : List Char) : List Char → List (List Char)
  | [] => []
  | [character] => [current ++ [character]]
  | character :: next :: rest =>
    if mode.next character = .small && next.isUpper then
      (current ++ [character]) :: caseWords .boundary [] (next :: rest)
    else if mode = .capital && character.isUpper && next.isLower then
      current :: caseWords .boundary [character] (next :: rest)
    else caseWords (mode.next character) (current ++ [character]) (next :: rest)

/-- The small words of a text joined by underscores. -/
def snakeCase (text : String) : String :=
  let runs := pieces (fun character ↦ !character.isAlphanum) text.toList
  let wordList := runs.flatMap (caseWords .boundary [])
  String.intercalate "_" (wordList.map fun word ↦ String.ofList (word.map Char.toLower))

end SchemaCompiler.Text
