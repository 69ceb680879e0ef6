import SchemaCompiler.Text.Hidden

/-!
# Quoted text

Messages show a character or a text between quotes, and written code holds texts as string
literals. All of them write a backslash, the common control characters and the enclosing quote by a
short escape, and a hidden character by its number.
-/

set_option autoImplicit false
set_option relaxedAutoImplicit false

namespace SchemaCompiler.Text

/-- A number in hexadecimal digits, small and without leading zeros. -/
def hex (number : Nat) : String := String.ofList (Nat.toDigits 16 number)

/-- The escape of a character by its number. -/
def numberEscape (character : Char) : String := "\\u\x7b" ++ hex character.toNat ++ "\x7d"

/-- A character as it stands between two `quote` characters. -/
def escape (quote character : Char) : String :=
  if character = '\x00' then "\\0"
  else if character = '\t' then "\\t"
  else if character = '\r' then "\\r"
  else if character = '\n' then "\\n"
  else if character = '\\' then "\\\\"
  else if character = quote then "\\" ++ String.singleton character
  else if isHidden character then numberEscape character
  else String.singleton character

/-- A character between single quotes. -/
def quoteChar (character : Char) : String := "'" ++ escape '\'' character ++ "'"

/-- A text between double quotes. -/
def quote (text : String) : String :=
  "\"" ++ String.join (text.toList.map (escape '"')) ++ "\""

/-- Whether a text begins with an octal digit. -/
def startsOctal : List Char → Bool
  | [] => false
  | character :: _ => '0' ≤ character && character ≤ '7'

/-- The characters of a string literal. A zero character before an octal digit is written in
hexadecimal, so that the digit is not taken for a part of the escape. -/
def literalBody : List Char → String
  | [] => ""
  | character :: rest =>
    (if character = '\x00' && startsOctal rest then "\\x00" else escape '"' character)
      ++ literalBody rest

/-- A text as a string literal of the written code. -/
def literal (text : String) : String := "\"" ++ literalBody text.toList ++ "\""

end SchemaCompiler.Text
