/-!
# Log events

The compiler reports its progress as events. An event is a value: the functions that do the work
stay free of effects, and whoever runs them decides what to do with what they report.
-/

set_option autoImplicit false
set_option relaxedAutoImplicit false

namespace SchemaCompiler

/-- How much attention an event asks for. -/
inductive Severity where
  | trace
  | debug
  | info
  | warn
deriving Repr, DecidableEq

/-- The value of a named detail of an event. -/
inductive Detail where
  | count (number : Nat)
  | text (content : String)
deriving Repr, DecidableEq

/-- A message with named details. -/
structure Event where
  severity : Severity
  message : String
  details : List (String × Detail) := []
deriving Repr, DecidableEq

end SchemaCompiler
