import SchemaCompiler.Diagnostic

/-!
# Outlines of diagnostics

An outline shows the fields of a diagnostic one a line, each level indented by four blanks. It is
meant for those who debug the compiler; `Diagnostic.text` is what its users read.
-/

set_option autoImplicit false
set_option relaxedAutoImplicit false

namespace SchemaCompiler

/-- A value laid out over several lines. -/
inductive Outline where
  | plain (text : String)
  | record (name : String) (fields : List (String × Outline))
  | wrapper (name : String) (content : Outline)

namespace Outline

/-- Lines moved one level to the right. -/
def indent (lines : List String) : List String := lines.map ("    " ++ ·)

/-- Lines that follow an opening text and precede a closing one. -/
def attach (opening : String) (lines : List String) (closing : String) : List String :=
  match lines with
  | [] => [opening ++ closing]
  | first :: rest =>
    match rest.getLast? with
    | none => [opening ++ first ++ closing]
    | some last => (opening ++ first) :: rest.dropLast ++ [last ++ closing]

mutual

/-- The lines of an outline. -/
def lines : Outline → List String
  | .plain text => [text]
  | .record name fields => (name ++ " \x7b") :: indent (fieldLines fields) ++ ["\x7d"]
  | .wrapper name content => (name ++ "(") :: indent (attach "" (lines content) ",") ++ [")"]

/-- The lines of the fields of a record. -/
def fieldLines : List (String × Outline) → List String
  | [] => []
  | (name, content) :: rest => attach (name ++ ": ") (lines content) "," ++ fieldLines rest

end

/-- The text of an outline. -/
def text (outline : Outline) : String := String.intercalate "\n" outline.lines

/-- A number. -/
def number (value : Nat) : Outline := .plain (toString value)

/-- A quoted text. -/
def quoted (content : String) : Outline := .plain (Text.quote content)

/-- A value that may be absent. -/
def optional : Option Outline → Outline
  | none => .plain "None"
  | some content => .wrapper "Some" content

end Outline

/-- The outline of a position. -/
def Position.outline (position : Position) : Outline :=
  .record "Position" [("line", .number position.line), ("column", .number position.column)]

/-- The outline of a cause. -/
def Cause.outline : Cause → Outline
  | .lexical character position =>
    .wrapper "Lexical" (.record "LexicalError"
      [("ch", .plain (Text.quoteChar character)), ("position", position.outline)])
  | .grammar rule expected found position =>
    .wrapper "Syntax" (.record "SyntaxError"
      [("rule", .quoted rule), ("expected", .quoted expected),
        ("found", .optional (found.map .quoted)), ("position", position.outline)])
  | .invalidSchema message =>
    .wrapper "InvalidSchema" (.record "InvalidSchema" [("message", .quoted message)])
  | .generation message =>
    .wrapper "Generation" (.record "GenerationError" [("message", .quoted message)])
  | .outside message => .wrapper "Anyhow" (.quoted message)

/-- The outline of a cause and the causes that led to it, the most recent first. -/
def Cause.chainOutline (cause : Cause) : List Cause → Outline
  | [] => .record "Error" [("kind", cause.outline), ("cause", .optional none)]
  | previous :: earlier =>
    .record "Error"
      [("kind", cause.outline), ("cause", .optional (some (previous.chainOutline earlier)))]

/-- The outline of a diagnostic. -/
def Diagnostic.outline (diagnostic : Diagnostic) : Outline :=
  diagnostic.cause.chainOutline diagnostic.earlier

end SchemaCompiler
