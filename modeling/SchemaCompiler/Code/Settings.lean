/-!
# Settings of code generation
-/

set_option autoImplicit false
set_option relaxedAutoImplicit false

namespace SchemaCompiler

/-- A name that the written code takes from a module. -/
structure Import where
  name : String
  module : String
deriving Repr, DecidableEq

/-- The path of a module, whose parts may be written with points between them. -/
def Import.modulePath (item : Import) : String :=
  String.join (item.module.toList.map fun character ↦
    if character = '.' then "::" else String.singleton character)

/-- The path of the runtime if none is asked for. -/
def defaultRuntime : String := "dbg_runtime"

/-- What the written code depends on beside the schema. -/
structure Settings where
  /-- The path of the runtime that the written code uses. -/
  runtime : String := defaultRuntime
  /-- The lines of the configuration module. -/
  lines : List String := []
  imports : List Import := []
deriving Repr, DecidableEq

end SchemaCompiler
