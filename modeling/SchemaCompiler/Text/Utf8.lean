/-!
# Reading UTF-8

Bytes are read as UTF-8 with the exact place and extent of the first fault: a fault is the longest
beginning of a sequence that no text continues, or a sequence that the input ends in the middle of.
-/

set_option autoImplicit false
set_option relaxedAutoImplicit false

namespace SchemaCompiler.Text

/-- Why a byte sequence is no text. -/
inductive Utf8Fault where
  /-- The `length` bytes from `index` on begin no character. -/
  | invalid (length index : Nat)
  /-- The input ends inside the character that begins at `index`. -/
  | incomplete (index : Nat)
deriving Repr, DecidableEq

/-- The wording of a fault. -/
def Utf8Fault.message : Utf8Fault → String
  | .invalid length index =>
    "invalid utf-8 sequence of " ++ toString length ++ " bytes from index " ++ toString index
  | .incomplete index => "incomplete utf-8 byte sequence from index " ++ toString index

/-- The number of bytes that follow a leading byte, with the range of the first of them. -/
def continuation? (lead : Nat) : Option (Nat × Nat × Nat) :=
  if 0xC2 ≤ lead && lead ≤ 0xDF then some (1, 0x80, 0xBF)
  else if lead = 0xE0 then some (2, 0xA0, 0xBF)
  else if lead = 0xED then some (2, 0x80, 0x9F)
  else if 0xE1 ≤ lead && lead ≤ 0xEF then some (2, 0x80, 0xBF)
  else if lead = 0xF0 then some (3, 0x90, 0xBF)
  else if lead = 0xF4 then some (3, 0x80, 0x8F)
  else if 0xF1 ≤ lead && lead ≤ 0xF3 then some (3, 0x80, 0xBF)
  else none

/-- The bits that a leading byte gives to its code point, by the number of bytes that follow. -/
def leadBits (lead following : Nat) : Nat :=
  if following = 1 then lead % 0x20 else if following = 2 then lead % 0x10 else lead % 0x8

/-- Reads the bytes that follow a leading byte. `missing` of them are left, the next of which lies
between `low` and `high`; `seen` bytes of the character, which began at `index`, have been read and
make up `code`. The answer is the number of bytes of the character, its code point and the bytes
after it. -/
def readFollowing (index : Nat) : (missing : Nat) → (low high seen code : Nat) → List UInt8 →
    Except Utf8Fault (Nat × Nat × List UInt8)
  | 0, _, _, seen, code, bytes => .ok (seen, code, bytes)
  | _ + 1, _, _, _, _, [] => .error (.incomplete index)
  | missing + 1, low, high, seen, code, byte :: bytes =>
    if low ≤ byte.toNat && byte.toNat ≤ high then
      readFollowing index missing 0x80 0xBF (seen + 1) (code * 0x40 + byte.toNat % 0x40) bytes
    else .error (.invalid seen index)

/-- Reads the first character of a byte sequence that begins at `index`. -/
def readCharacter (index : Nat) (lead : UInt8) (bytes : List UInt8) :
    Except Utf8Fault (Nat × Nat × List UInt8) :=
  if lead.toNat < 0x80 then .ok (1, lead.toNat, bytes)
  else
    match continuation? lead.toNat with
    | none => .error (.invalid 1 index)
    | some (following, low, high) =>
      readFollowing index following low high 1 (leadBits lead.toNat following) bytes

/-- Reads at most `limit` characters of a byte sequence that begins at `index`. -/
def decodeFrom : (limit : Nat) → (index : Nat) → List UInt8 → Except Utf8Fault (List Char)
  | 0, _, _ => .ok []
  | _, _, [] => .ok []
  | limit + 1, index, lead :: bytes => do
    let (size, code, rest) ← readCharacter index lead bytes
    let characters ← decodeFrom limit (index + size) rest
    return Char.ofNat code :: characters

/-- The text that a byte sequence spells, or its first fault. -/
def decodeUtf8 (bytes : List UInt8) : Except Utf8Fault String :=
  (decodeFrom bytes.length 0 bytes).map String.ofList

end SchemaCompiler.Text
