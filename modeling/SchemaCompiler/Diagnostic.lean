import SchemaCompiler.Text.Offset
import SchemaCompiler.Text.Quoted

/-!
# Diagnostics

A diagnostic says why a document could not be compiled. It has a cause and may stand in the context
of further causes, the most recently added first: its text names them from the outermost to the
innermost, its stage is that of the innermost, and its kind is that of the outermost.

Diagnostics are passed around by handles, which are copied freely. Putting a diagnostic in the
context of another one changes the other one in place, so its handle must not be shared.
-/

set_option autoImplicit false
set_option relaxedAutoImplicit false

namespace SchemaCompiler

/-- The part of a compilation that a cause belongs to. -/
inductive Stage where
  | tokenize
  | parse
  | build
  | generate
  | compile
deriving Repr, DecidableEq

/-- The name of a stage in messages. -/
def Stage.name : Stage → String
  | .tokenize => "tokenize"
  | .parse => "parse"
  | .build => "build"
  | .generate => "generate"
  | .compile => "compile"

/-- A single reason for a failure. -/
inductive Cause where
  /-- A character that begins no token. -/
  | lexical (character : Char) (position : Position)
  /-- A token, or the end of input if `found` is absent, where a grammar rule expects another. -/
  | grammar (rule expected : String) (found : Option String) (position : Position)
  /-- A document that is well formed but describes no schema. -/
  | invalidSchema (message : String)
  /-- A schema that cannot be written as code. -/
  | generation (message : String)
  /-- A failure outside the compiler, such as a file that cannot be read. -/
  | outside (message : String)
deriving Repr, DecidableEq

namespace Cause

/-- The kinds of causes that a caller can ask for. -/
inductive Kind where
  | lexical
  | grammar
  | invalidSchema
  | generation
deriving Repr, DecidableEq

/-- The kind of a cause, unless it lies outside the compiler. -/
def kind? : Cause → Option Kind
  | .lexical .. => some .lexical
  | .grammar .. => some .grammar
  | .invalidSchema _ => some .invalidSchema
  | .generation _ => some .generation
  | .outside _ => none

/-- The wording of a cause. -/
def text : Cause → String
  | .lexical character position =>
    "lexical error: unexpected character " ++ Text.quoteChar character ++ " at "
      ++ position.describe
  | .grammar rule expected found position =>
    "syntax error in " ++ rule ++ " at " ++ position.describe ++ ": expected " ++ expected
      ++ ", found " ++ found.getD "end of input"
  | .invalidSchema message => "invalid schema: " ++ message
  | .generation message => "generation error: " ++ message
  | .outside message => message

/-- The wording of causes one after another. A colon stands wherever another cause follows. -/
def write : List Cause → String
  | [] => ""
  | cause :: rest => cause.text ++ (if rest.isEmpty then "" else ": ") ++ write rest

/-- The stage of the compilation that raises a cause. -/
def stage : Cause → Stage
  | .lexical .. => .tokenize
  | .grammar .. => .parse
  | .invalidSchema _ => .build
  | .generation _ => .generate
  | .outside _ => .compile

/-- The message of a failure outside the compiler. -/
def outside? : Cause → Option String
  | .outside message => some message
  | _ => none

end Cause

/-- A cause together with the causes that led to it, the most recent first. -/
structure Diagnostic where
  cause : Cause
  earlier : List Cause := []
deriving Repr, DecidableEq

namespace Diagnostic

/-- Puts a diagnostic in the context of a further cause. -/
def addContext (diagnostic : Diagnostic) (consequent : Cause) : Diagnostic :=
  ⟨consequent, diagnostic.cause :: diagnostic.earlier⟩

/-- The causes from the outermost to the innermost. -/
def chain (diagnostic : Diagnostic) : List Cause := diagnostic.cause :: diagnostic.earlier

/-- The innermost cause. -/
def root (diagnostic : Diagnostic) : Cause :=
  diagnostic.earlier.getLast?.getD diagnostic.cause

/-- The wording of a diagnostic. -/
def text (diagnostic : Diagnostic) : String := Cause.write diagnostic.chain

/-- The stage at which the innermost cause arose. -/
def stage (diagnostic : Diagnostic) : Stage := diagnostic.root.stage

/-- Whether the outermost cause is of a kind. -/
def isOf (diagnostic : Diagnostic) (kind : Cause.Kind) : Bool :=
  diagnostic.cause.kind? == some kind

/-- The message of the failure outside the compiler that the outermost cause reports. -/
def outside? (diagnostic : Diagnostic) : Option String := diagnostic.cause.outside?

end Diagnostic

/-! ### Handles -/

/-- A handle on a diagnostic, which other handles may share. -/
structure Handle where
  diagnostic : Diagnostic
  /-- How many other handles there are on the diagnostic. -/
  others : Nat := 0
deriving Repr, DecidableEq

/-- Why a diagnostic cannot be put in the context of another one. -/
inductive ContextFault where
  /-- The other one has earlier causes of its own. -/
  | preceded
  /-- The handle on the other one is shared. -/
  | shared
deriving Repr, DecidableEq

namespace Handle

/-- The first handle on the diagnostic of a cause. -/
def raise (cause : Cause) : Handle := { diagnostic := ⟨cause, []⟩ }

/-- Puts a diagnostic in the context of a consequent, whose handle is handed on. No handle is copied
or dropped on the way, so the other handles keep their numbers. -/
def addContext (handle consequent : Handle) : Except ContextFault Handle :=
  if consequent.diagnostic.earlier.isEmpty then
    if consequent.others = 0 then
      .ok ⟨handle.diagnostic.addContext consequent.diagnostic.cause, consequent.others⟩
    else .error .shared
  else .error .preceded

end Handle

end SchemaCompiler
