import SchemaCompiler.Text.Identifier
import SchemaCompiler.Text.Quoted

/-!
# Tokens of the written code

Names, paths and configuration items reach the compiler as text in the language of the code it
writes. `Target.tokens?` divides such a text into tokens. Comments are dropped, except that a
documentation comment stands for an attribute; literals keep their spelling. A text with a literal,
comment or character that the language does not know has no tokens.
-/

set_option autoImplicit false
set_option relaxedAutoImplicit false

namespace SchemaCompiler

/-- A kind of brackets. -/
inductive Delimiter where
  | paren
  | bracket
  | brace
deriving Repr, DecidableEq

namespace Target

/-- A token of the written code. -/
inductive Token where
  /-- An identifier, a keyword or an underscore. -/
  | word (text : String)
  /-- An identifier that is written with the mark of a raw one. -/
  | raw (name : String)
  | lifetime (name : String)
  | literal (text : String)
  /-- A character of an operator, and whether the next one follows it directly. -/
  | sign (character : Char) (joined : Bool)
  | opening (delimiter : Delimiter)
  | closing (delimiter : Delimiter)
deriving Repr, DecidableEq

/-- Words that are no identifiers unless they are marked as raw. -/
def keywords : List String :=
  ["abstract", "as", "async", "await", "become", "box", "break", "const", "continue", "do", "dyn",
    "else", "enum", "extern", "false", "final", "fn", "for", "if", "impl", "in", "let", "loop",
    "macro", "match", "mod", "move", "mut", "override", "priv", "pub", "ref", "return", "static",
    "struct", "trait", "true", "try", "type", "typeof", "unsafe", "unsized", "use", "virtual",
    "where", "while", "yield"]

/-- Words that stand for a place among modules and never name anything. -/
def placeWords : List String := ["self", "Self", "super", "crate"]

/-- Whether a word is an identifier as it stands. -/
def isPlain (text : String) : Bool :=
  !(keywords.contains text) && !(placeWords.contains text) && text != "_"

/-! ### Characters -/

/-- Whether a character separates tokens. -/
def isGap (character : Char) : Bool :=
  Text.isBlank character || character == '\u200e' || character == '\u200f'

/-- Whether a character belongs to operators. -/
def isSign (character : Char) : Bool := "~!@#$%^&*-=+|;:,<.>/?'".toList.contains character

/-- Whether a character is a digit to base sixteen. -/
def isHexDigit (character : Char) : Bool :=
  character.isDigit || ('a' ≤ character && character ≤ 'f') ||
    ('A' ≤ character && character ≤ 'F')

/-- The value of a digit to base sixteen. -/
def hexValue (character : Char) : Nat :=
  if character.isDigit then character.toNat - '0'.toNat
  else if 'a' ≤ character then character.toNat - 'a'.toNat + 10
  else character.toNat - 'A'.toNat + 10

/-- The value of a row of digits to base sixteen. -/
def hexNumber (digits : List Char) : Nat :=
  digits.foldl (fun value digit ↦ value * 16 + hexValue digit) 0

/-- Whether a number is the code point of a character. -/
def isScalar (code : Nat) : Bool := code < 0xD800 || (0xDFFF < code && code < 0x110000)

/-- An identifier at the beginning of a text, and what follows it. -/
def identifier? (text : List Char) : Option (List Char × List Char) :=
  match text with
  | character :: _ =>
    if Text.isIdentifierStart character then
      some (text.takeWhile Text.isIdentifierContinue, text.dropWhile Text.isIdentifierContinue)
    else none
  | [] => none

/-- The suffix of a literal. -/
def suffix (text : List Char) : List Char × List Char := (identifier? text).getD ([], text)

/-! ### Literals -/

/-- The part of a text that is left when `rest` remains of it. -/
def consumed (text rest : List Char) : List Char := text.take (text.length - rest.length)

/-- Reads the escape after a backslash. -/
def skipEscape : List Char → Option (List Char)
  | 'x' :: high :: low :: rest =>
    if '0' ≤ high && high ≤ '7' && isHexDigit low then some rest else none
  | 'u' :: '{' :: rest =>
    let digits := rest.takeWhile fun character ↦ isHexDigit character || character == '_'
    let value := digits.filter isHexDigit
    match rest.drop digits.length with
    | '}' :: after =>
      if digits.head?.any isHexDigit && value.length ≤ 6 && isScalar (hexNumber value)
      then some after else none
    | _ => none
  | character :: rest => if "nrt\\0'\"".toList.contains character then some rest else none
  | [] => none

/-- Reads a string up to its closing quote. -/
def skipString : (limit : Nat) → List Char → Option (List Char)
  | 0, _ => none
  | limit + 1, text =>
    match text with
    | '"' :: rest => some rest
    | '\\' :: '\n' :: rest => skipString limit (rest.dropWhile Text.isBlank)
    | '\\' :: rest => (skipEscape rest).bind (skipString limit)
    | '\r' :: '\n' :: rest => skipString limit rest
    | '\r' :: _ => none
    | _ :: rest => skipString limit rest
    | [] => none

/-- Reads a raw string up to a quote that `hashes` hash signs follow. -/
def skipRawString (hashes : Nat) : List Char → Option (List Char)
  | [] => none
  | character :: rest =>
    if character = '"' && (rest.take hashes == List.replicate hashes '#') then
      some (rest.drop hashes)
    else skipRawString hashes rest

/-- Reads what follows the `r` of a raw string. -/
def skipRaw (text : List Char) : Option (List Char) :=
  let hashes := (text.takeWhile (· == '#')).length
  match text.drop hashes with
  | '"' :: rest => skipRawString hashes rest
  | _ => none

/-- Reads what follows the opening quote of a character. -/
def skipCharacter : List Char → Option (List Char)
  | '\\' :: rest => (skipEscape rest).bind closeCharacter
  | character :: rest => if character = '\'' then none else closeCharacter rest
  | [] => none
where
  /-- Reads the closing quote of a character. -/
  closeCharacter : List Char → Option (List Char)
    | '\'' :: rest => some rest
    | _ => none

/-- Reads the quoted literal at the beginning of a text, if there is one. -/
def skipQuoted (text : List Char) : Option (List Char) :=
  match text with
  | '"' :: rest => skipString rest.length rest
  | '\'' :: rest => skipCharacter rest
  | 'b' :: '\'' :: rest => skipCharacter rest
  | 'b' :: '"' :: rest | 'c' :: '"' :: rest => skipString rest.length rest
  | 'b' :: 'r' :: rest | 'c' :: 'r' :: rest => skipRaw rest
  | 'r' :: rest => skipRaw rest
  | _ => none

/-- Reads digits to a base and underscores. -/
def skipDigits (base : Nat) (text : List Char) : List Char :=
  text.dropWhile fun character ↦
    character == '_' || (isHexDigit character && hexValue character < base)

/-- Reads an exponent, if one follows. -/
def skipExponent (text : List Char) : List Char :=
  match text with
  | mark :: rest =>
    if mark == 'e' || mark == 'E' then
      let unsigned := match rest with
        | '+' :: digits | '-' :: digits => digits
        | _ => rest
      if unsigned.head?.any Char.isDigit then skipDigits 10 unsigned else text
    else text
  | [] => text

/-- Reads the fraction of a number. A point before another one or before an identifier is not part
of the number. -/
def skipFraction (text : List Char) : List Char :=
  match text with
  | '.' :: next :: rest =>
    if next == '.' || Text.isIdentifierStart next then text else skipDigits 10 (next :: rest)
  | ['.'] => []
  | _ => text

/-- Reads the number at the beginning of a text, if there is one. -/
def skipNumber (text : List Char) : Option (List Char) :=
  match text with
  | '0' :: 'x' :: rest => basedNumber 16 rest
  | '0' :: 'o' :: rest => basedNumber 8 rest
  | '0' :: 'b' :: rest => basedNumber 2 rest
  | first :: _ =>
    if first.isDigit then some (skipExponent (skipFraction (skipDigits 10 text))) else none
  | [] => none
where
  /-- Reads the digits of a number whose base is written before them. -/
  basedNumber (base : Nat) (digits : List Char) : Option (List Char) :=
    let rest := skipDigits base digits
    if (consumed digits rest).any isHexDigit && !rest.head?.any Char.isDigit then some rest
    else none

/-- Reads the literal at the beginning of a text with its suffix. -/
def literal? (text : List Char) : Option (Token × List Char) :=
  match (skipQuoted text).or (skipNumber text) with
  | some rest =>
    let after := (suffix rest).2
    some (.literal (String.ofList (consumed text after)), after)
  | none => none

/-! ### Comments -/

/-- Reads a comment up to its closing mark; comments nest, and `depth` further ones are open. -/
def skipComment : (depth : Nat) → List Char → Option (List Char)
  | _, [] => none
  | 0, '*' :: '/' :: rest => some rest
  | depth + 1, '*' :: '/' :: rest => skipComment depth rest
  | depth, '/' :: '*' :: rest => skipComment (depth + 1) rest
  | depth, _ :: rest => skipComment depth rest

/-- The attribute that a documentation comment stands for. -/
def documentation (inner : Bool) (text : List Char) : List Token :=
  [.sign '#' false] ++ (if inner then [.sign '!' false] else []) ++
    [.opening .bracket, .word "doc", .sign '=' false,
      .literal (Text.literal (String.ofList text)), .closing .bracket]

/-- The tokens of the text of a line comment after its two slashes. -/
def lineComment (body : List Char) : List Token :=
  match body with
  | '!' :: text => documentation true text
  | '/' :: '/' :: _ => []
  | '/' :: text => documentation false text
  | _ => []

/-- The tokens of the text of a block comment between its marks. -/
def blockComment (body : List Char) : List Token :=
  match body with
  | '!' :: text => documentation true text
  | '*' :: '*' :: _ => []
  | '*' :: text => documentation false text
  | _ => []

/-! ### Single tokens -/

/-- The bracket that a character writes. -/
def bracket? : Char → Option Token
  | '(' => some (.opening .paren)
  | '[' => some (.opening .bracket)
  | '{' => some (.opening .brace)
  | ')' => some (.closing .paren)
  | ']' => some (.closing .bracket)
  | '}' => some (.closing .brace)
  | _ => none

/-- The identifier at the beginning of a text. A place word or an underscore cannot be raw. -/
def word? (text : List Char) : Option (Token × List Char) :=
  match text with
  | 'r' :: '#' :: rest =>
    match identifier? rest with
    | some (name, after) =>
      let name := String.ofList name
      if placeWords.contains name || name == "_" then none else some (.raw name, after)
    | none => none
  | _ => (identifier? text).map fun (name, after) ↦ (.word (String.ofList name), after)

/-- The lifetime after an apostrophe, unless another apostrophe closes it. -/
def lifetime? (text : List Char) : Option (Token × List Char) :=
  match identifier? text with
  | some (name, after) =>
    if after.head? == some '\'' then none else some (.lifetime (String.ofList name), after)
  | none => none

/-- The operator character or lifetime at the beginning of a text. -/
def sign? (text : List Char) : Option (Token × List Char) :=
  match text with
  | '\'' :: rest => lifetime? rest
  | character :: rest =>
    if isSign character then some (.sign character (rest.head?.any isSign), rest) else none
  | [] => none

/-- The tokens at the beginning of a text, of which there is at least a comment or one token. -/
def step? (text : List Char) : Option (List Token × List Char) :=
  match text with
  | '/' :: '/' :: rest =>
    some (lineComment (rest.takeWhile (· != '\n')), rest.dropWhile (· != '\n'))
  | '/' :: '*' :: rest =>
    (skipComment 0 rest).map fun after ↦
      (blockComment ((consumed rest after).dropLast.dropLast), after)
  | character :: rest =>
    match bracket? character with
    | some token => some ([token], rest)
    | none => (((literal? text).or (sign? text)).or (word? text)).map fun (token, after) ↦
        ([token], after)
  | [] => none

/-- The tokens of a text, read in at most `limit` steps. -/
def tokensUpTo : (limit : Nat) → List Char → Option (List Token)
  | 0, text => if (text.dropWhile isGap).isEmpty then some [] else none
  | limit + 1, text =>
    match text.dropWhile isGap with
    | [] => some []
    | start =>
      match step? start with
      | some (tokens, rest) => (tokensUpTo limit rest).map (tokens ++ ·)
      | none => none

/-- The tokens of a text. -/
def tokens? (text : String) : Option (List Token) := tokensUpTo text.toList.length text.toList

end Target

end SchemaCompiler
