import SchemaCompiler.Command.Arguments
import SchemaCompiler.Command.Clause
import SchemaCompiler.Command.Host
import SchemaCompiler.Compilation

/-!
# The compile command

The command reads the input file, compiles it, formats the code and writes the output file. All work
is done before the output is touched, so a failure leaves every file as it was.
-/

set_option autoImplicit false
set_option relaxedAutoImplicit false

namespace SchemaCompiler

/-- Why the input file is no text. -/
inductive InputFault where
  /-- The file cannot be read; `place` is its full path, if it has one. -/
  | unreadable (place : String) (fault : FileFault)
  | notText (fault : Text.Utf8Fault)
deriving Repr, DecidableEq

namespace InputFault

/-- The cause that an input fault reports. -/
def cause : InputFault → Cause
  | unreadable place _ => .outside ("Failed to read schema file from path " ++ place)
  | notText fault => .outside fault.message

/-- What led to the cause: the failure of the outside world, told once more from its own side. -/
def details (fault : InputFault) : List String :=
  match fault with
  | unreadable _ file => [fault.cause.text, file.message]
  | notText _ => [fault.cause.text]

end InputFault

/-- Why a command failed. -/
inductive CommandFault where
  | usage (fault : UsageFault)
  | clause (fault : ClauseFault)
  | input (name : String) (fault : InputFault)
  | compile (name : String) (cause : Cause)
  /-- Generation stopped at a name or an accessor that no message describes. -/
  | aborted
  | format (fault : FormatFault)
  | output (name : String) (fault : FileFault)
deriving Repr, DecidableEq

namespace CommandFault

/-- The texts of a fault from the outermost to the innermost. -/
def chain : CommandFault → List String
  | usage fault => [fault.name]
  | clause fault => [fault.message]
  | input name fault =>
    [fault.cause.stage.name ++ " failed for " ++ name, fault.cause.text] ++ fault.details
  | compile name cause => [cause.stage.name ++ " failed for " ++ name, cause.text]
  | aborted => ["code generation was aborted"]
  | format fault =>
    ["failed to format the generated code (pass --no-format to skip)", fault.message]
  | output name fault => ["failed to write " ++ name, fault.message]

/-- The wording of a fault. -/
def message (fault : CommandFault) : String := String.intercalate ": " fault.chain

/-- The cause inside the compiler, if there is one. -/
def cause? : CommandFault → Option Cause
  | input _ fault => some fault.cause
  | compile _ cause => some cause
  | _ => none

end CommandFault

/-- The event at the start of a compilation. -/
def Arguments.startEvent (arguments : Arguments) (settings : Settings) : Event :=
  { severity := .debug
    message := "compiling " ++ arguments.input
    details := [("config_lines", .count settings.lines.length),
      ("imports", .count settings.imports.length), ("runtime", .text settings.runtime)] }

/-- The event before the output is written. -/
def Arguments.writeEvent (arguments : Arguments) : Event :=
  { severity := .info, message := "     writing    " ++ arguments.output }

/-- The settings that arguments ask for. -/
def Arguments.settings (arguments : Arguments) : Except ClauseFault Settings := do
  let (lines, imports) ← Import.splitTrailing arguments.trailing
  return ⟨arguments.runtime, lines, imports⟩

/-- The fault of the command that a stop of the compilation is. -/
def CompileStop.commandFault (name : String) (stop : CompileStop) : CommandFault :=
  match stop.cause? with
  | some cause => .compile name cause
  | none => .aborted

/-! ### Runs -/

section Runs

variable {Run : Type → Type} [Monad Run]

/-- Goes on with a result, or fails with its fault. -/
def CommandFault.settle {Fault Value : Type} (describe : Fault → CommandFault)
    (result : Except Fault Value) : ExceptT CommandFault Run Value :=
  ExceptT.mk (pure (result.mapError describe))

namespace Arguments

/-- The text of the input file. -/
def source (arguments : Arguments) (host : Host Run) : ExceptT CommandFault Run String := do
  match ← host.read arguments.input with
  | .error fault =>
    throw (.input arguments.input (.unreadable (← host.fullPath arguments.input) fault))
  | .ok content =>
    CommandFault.settle (fun fault ↦ .input arguments.input (.notText fault))
      (Text.decodeUtf8 content)

variable [Target.Grammar]

/-- Does all work up to the writing of the output, whose text is the outcome. -/
def produce (arguments : Arguments) (host : Host Run) : ExceptT CommandFault Run String := do
  let settings ← CommandFault.settle .clause arguments.settings
  host.report [arguments.startEvent settings]
  let source ← arguments.source host
  host.report (compileEvents source [] settings)
  let output ← CommandFault.settle (CompileStop.commandFault arguments.input)
    (SchemaCompiler.compile source [] settings)
  if arguments.noFormat then return output.render
  else CommandFault.settle .format (← host.format output.render)

/-- Runs a command on a host. -/
def run (arguments : Arguments) (host : Host Run) : ExceptT CommandFault Run Unit := do
  let text ← arguments.produce host
  host.report [arguments.writeEvent]
  CommandFault.settle (.output arguments.output) (← host.write arguments.output text)

end Arguments

end Runs

/-- What became of a command: the files after it, what was reported on the way, and its outcome. -/
structure Report extends World where
  outcome : Except CommandFault Unit

/-- Runs the command on files below a directory, with arguments as they are typed, without its
name. -/
def runCommand [Target.Grammar] (arguments : List String) (files : Files) (root : String)
    (formatter : Formatter) : Report :=
  match Arguments.parse arguments with
  | .error fault => ⟨{files := files}, .error (.usage fault)⟩
  | .ok parsed =>
    let (outcome, world) := (parsed.run (.onFiles root formatter)).run.run {files := files}
    ⟨world, outcome⟩

end SchemaCompiler
