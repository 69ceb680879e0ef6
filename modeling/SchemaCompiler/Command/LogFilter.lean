import SchemaCompiler.Text.Identifier

/-!
# Log filters

A log filter says from which level on events are shown, for all targets or for one. It is written as
directives with commas between them, each a level or `TARGET=LEVEL`. Directives are kept with the
longer target first, then the one later in the alphabet, then those for all targets.
-/

set_option autoImplicit false
set_option relaxedAutoImplicit false

namespace SchemaCompiler

/-- A level from which on events are shown. -/
inductive LogLevel where
  | off
  | error
  | warn
  | info
  | debug
  | trace
deriving Repr, DecidableEq

namespace LogLevel

/-- Every level, the one that shows least first. -/
def all : List LogLevel := [off, error, warn, info, debug, trace]

/-- The name of a level. -/
def name : LogLevel → String
  | off => "off"
  | error => "error"
  | warn => "warn"
  | info => "info"
  | debug => "debug"
  | trace => "trace"

/-- The level of a name, in letters of either case, or of a number. -/
def parse? (text : String) : Option LogLevel :=
  let small := String.ofList (text.toList.map Char.toLower)
  match all.find? fun level ↦ level.name == small with
  | some level => some level
  | none =>
    match text.toList with
    | [digit] => if digit.isDigit then all[digit.toNat - '0'.toNat]? else none
    | _ => none

end LogLevel

/-- A level for the events of a target, or of all targets. -/
structure LogDirective where
  target : Option String
  level : LogLevel
deriving Repr, DecidableEq

namespace LogDirective

/-- Whether a character may stand in a target. -/
def isTargetChar (character : Char) : Bool :=
  Text.isIdentifierContinue character || character == ':' || character == '-'

/-- Reads a directive. A target without a level shows everything. -/
def parse? (text : String) : Option LogDirective :=
  match LogLevel.parse? text with
  | some level => some ⟨none, level⟩
  | none =>
    let target := text.toList.takeWhile isTargetChar
    if target.isEmpty then none
    else
      match text.toList.drop target.length with
      | [] | ['='] => some ⟨some (String.ofList target), .trace⟩
      | '=' :: level =>
        (LogLevel.parse? (String.ofList level)).map (⟨some (String.ofList target), ·⟩)
      | _ => none

/-- The text of a directive. -/
def text (directive : LogDirective) : String :=
  match directive.target with
  | some target => target ++ "=" ++ directive.level.name
  | none => directive.level.name

/-- Whether the first directive stands before the second one. -/
def before (first second : LogDirective) : Bool :=
  match first.target, second.target with
  | none, _ => false
  | some _, none => true
  | some left, some right =>
    if left.utf8ByteSize = right.utf8ByteSize then decide (right < left)
    else decide (right.utf8ByteSize < left.utf8ByteSize)

/-- Puts a directive in its place, instead of one for the same target. -/
def insertInto (directive : LogDirective) : List LogDirective → List LogDirective
  | [] => [directive]
  | other :: rest =>
    if other.target = directive.target then directive :: rest
    else if directive.before other then directive :: other :: rest
    else other :: directive.insertInto rest

end LogDirective

/-- Directives in the order in which they apply. -/
structure LogFilter where
  directives : List LogDirective
deriving Repr, DecidableEq

namespace LogFilter

/-- The filter that holds if none is asked for. -/
def standard : LogFilter := ⟨[⟨some "dbg_cli", .info⟩, ⟨none, .warn⟩]⟩

/-- The filter of directives; without any, errors are shown. -/
def ofDirectives (directives : List LogDirective) : LogFilter :=
  if directives.isEmpty then ⟨[⟨none, .error⟩]⟩
  else ⟨directives.foldl (fun sorted directive ↦ directive.insertInto sorted) []⟩

/-- Reads a filter. -/
def parse? (text : String) : Option LogFilter :=
  let parts := (Text.pieces (· == ',') text.toList).filter fun part ↦ !part.isEmpty
  (parts.mapM fun part ↦ LogDirective.parse? (String.ofList part)).map ofDirectives

/-- The filter that a user asks for, or the standard one if there is none or it cannot be read. -/
def ofRequest (request : Option String) : LogFilter := (request.bind parse?).getD standard

/-- The text of a filter. -/
def text (filter : LogFilter) : String :=
  String.intercalate "," (filter.directives.map LogDirective.text)

end LogFilter

end SchemaCompiler
