import SchemaCompiler.Document.Parser
import SchemaCompiler.Schema.Build

/-!
# Reading a schema from text

`Schema.read` parses a document and builds the schema it describes. The first fault of either stage
is the answer.
-/

set_option autoImplicit false
set_option relaxedAutoImplicit false

namespace SchemaCompiler

/-- The schema that a text describes. -/
def Schema.read (source : String) : Except Cause Schema := do
  let document ← (Document.parse source).mapError ParseFault.cause
  (Schema.ofDocument document).mapError SchemaFault.cause

/-- The event of a parsed document. -/
def Document.parsedEvent (document : Document) : Event :=
  { severity := .debug
    message := "parsed schema document"
    details := [("statements", .count document.statements.length)] }

/-- What reading a schema reports, up to the fault if there is one. -/
def Schema.readEvents (source : String) : List Event :=
  match Document.parse source with
  | .ok document => document.parsedEvent :: Schema.events document
  | .error _ => []

end SchemaCompiler
