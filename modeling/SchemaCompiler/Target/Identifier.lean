import SchemaCompiler.Target.Token

/-!
# Identifiers of the written code

Names of a schema become identifiers of the written code. A keyword is marked as raw; the words that
stand for places among modules have no form at all.
-/

set_option autoImplicit false
set_option relaxedAutoImplicit false

namespace SchemaCompiler.Target

/-- An identifier as it is written. -/
structure Identifier where
  text : String
deriving Repr, DecidableEq

/-- Why a name has no identifier. -/
inductive NameFault where
  /-- The name is not one identifier. -/
  | refused
  /-- The name reads as an identifier but has gaps, comments or a raw mark around it. -/
  | decorated
deriving Repr, DecidableEq

/-- Whether a text is spelled like an identifier. -/
def isIdentifierText (name : String) : Bool :=
  match name.toList with
  | [] => false
  | first :: rest => Text.isIdentifierStart first && rest.all Text.isIdentifierContinue

/-- Whether a text reads as one identifier, whatever stands around it. -/
def readsAsIdentifier (name : String) : Bool :=
  match tokens? name with
  | some [.word text] => isPlain text
  | some [.raw _] => true
  | _ => false

/-- Whether a text reads as a raw identifier if the mark of one is put before it. -/
def readsAsRaw (name : String) : Bool :=
  match tokens? ("r#" ++ name) with
  | some [.raw _] => true
  | _ => false

/-- The identifier of a name. -/
def Identifier.ofName (name : String) : Except NameFault Identifier :=
  if isIdentifierText name then
    if placeWords.contains name || name == "_" then .error .refused
    else if keywords.contains name then .ok ⟨"r#" ++ name⟩
    else .ok ⟨name⟩
  else if readsAsIdentifier name || readsAsRaw name then .error .decorated
  else .error .refused

end SchemaCompiler.Target
