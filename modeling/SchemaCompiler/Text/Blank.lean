/-!
# Blank characters

A character is blank if it has the White_Space property of the Unicode standard. Trimming, the
division of a text into words and the gaps between lexemes all rest on this one class.
-/

set_option autoImplicit false
set_option relaxedAutoImplicit false

namespace SchemaCompiler.Text

/-- The code points with the White_Space property, as closed ranges in increasing order. -/
def blankRanges : List (Nat × Nat) :=
  [(0x9, 0xD), (0x20, 0x20), (0x85, 0x85), (0xA0, 0xA0), (0x1680, 0x1680), (0x2000, 0x200A),
    (0x2028, 0x2029), (0x202F, 0x202F), (0x205F, 0x205F), (0x3000, 0x3000)]

/-- Whether a code point lies in one of a list of closed ranges. -/
def inRanges (ranges : List (Nat × Nat)) (code : Nat) : Bool :=
  ranges.any fun range ↦ range.1 ≤ code && code ≤ range.2

/-- Whether a character has the White_Space property. -/
def isBlank (character : Char) : Bool := inRanges blankRanges character.toNat

/-- Whether a character is blank and does not end a line. -/
def isLineBlank (character : Char) : Bool := character != '\n' && isBlank character

/-- A text without the blanks at its end. -/
def trimEnd (text : List Char) : List Char := (text.reverse.dropWhile isBlank).reverse

/-- A text without the blanks at both ends. -/
def trim (text : List Char) : List Char := trimEnd (text.dropWhile isBlank)

/-- The parts of a text between the characters that `separates` selects; there is always one more
part than there are separators. -/
def pieces (separates : Char → Bool) : List Char → List (List Char)
  | [] => [[]]
  | character :: rest =>
    if separates character then [] :: pieces separates rest
    else
      match pieces separates rest with
      | [] => [[character]]
      | piece :: others => (character :: piece) :: others

/-- The maximal runs of characters that are not blank. -/
def words (text : List Char) : List (List Char) :=
  (pieces isBlank text).filter fun piece ↦ !piece.isEmpty

end SchemaCompiler.Text
