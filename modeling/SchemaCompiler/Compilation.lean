import SchemaCompiler.Code.Output
import SchemaCompiler.Schema.Edit
import SchemaCompiler.Schema.Read

/-!
# Compilation

The whole way from a text to code: read the schema, apply edits, generate. `compile` gives the
code, `compileEvents` what is reported on the way.
-/

set_option autoImplicit false
set_option relaxedAutoImplicit false

namespace SchemaCompiler

/-- Why there is no code. -/
inductive CompileStop where
  /-- The text describes no schema. -/
  | unreadable (cause : Cause)
  /-- The schema cannot be written. -/
  | unwritable (stop : GenerationStop)
deriving Repr, DecidableEq

/-- The cause that a stop reports, if it has one. -/
def CompileStop.cause? : CompileStop → Option Cause
  | unreadable cause => some cause
  | unwritable stop => stop.cause?

section

variable [Target.Grammar]

/-- The code of a text, with edits of its schema in between. -/
def compile (source : String) (edits : List Edit) (settings : Settings) :
    Except CompileStop Output := do
  let schema ← (Schema.read source).mapError .unreadable
  ((edits.foldl Schema.edit schema).generate settings).mapError .unwritable

/-- What a compilation reports, up to the place where it stops. -/
def compileEvents (source : String) (edits : List Edit) (settings : Settings) : List Event :=
  Schema.readEvents source ++
    match Schema.read source with
    | .ok schema => (edits.foldl Schema.edit schema).generateEvents settings
    | .error _ => []

end

/-- What dividing a text into lexemes reports. -/
def tokenizeEvents (source : String) : List Event :=
  match tokenize source with
  | .ok lexemes =>
    [{ severity := .debug
       message := "tokenized document"
       details := [("tokens", .count lexemes.length)] }]
  | .error _ => []

end SchemaCompiler
