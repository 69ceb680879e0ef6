import SchemaCompiler.Code.Settings

/-!
# Command line arguments

`INPUT OUTPUT [TRAILING]...` with the options `--runtime PATH` and `--no-format`. Options are
recognized up to the first trailing argument; from there on, and after `--`, every argument is taken
as it stands. An option or an empty file name is checked when the next argument that settles it is
met, so the first fault in reading order is the one reported.
-/

set_option autoImplicit false
set_option relaxedAutoImplicit false

namespace SchemaCompiler

/-- Why arguments start no compilation. -/
inductive UsageFault where
  | displayHelp
  | displayVersion
  | missingRequired
  | unknownArgument
  | tooManyValues
  | conflict
  | invalidValue
deriving Repr, DecidableEq

/-- The name of a usage fault. -/
def UsageFault.name : UsageFault → String
  | displayHelp => "DisplayHelp"
  | displayVersion => "DisplayVersion"
  | missingRequired => "MissingRequiredArgument"
  | unknownArgument => "UnknownArgument"
  | tooManyValues => "TooManyValues"
  | conflict => "ArgumentConflict"
  | invalidValue => "InvalidValue"

/-- The arguments of a compilation. -/
structure Arguments where
  input : String
  output : String
  /-- Configuration lines and import clauses. -/
  trailing : List String := []
  runtime : String := defaultRuntime
  noFormat : Bool := false
deriving Repr, DecidableEq

namespace Arguments

/-! ### Forms of an argument -/

/-- What an argument looks like. -/
inductive Form where
  /-- The mark that ends the options. -/
  | endMark
  /-- A long option, perhaps with a value attached. -/
  | long (name : String) (value : Option String)
  /-- A row of short options. -/
  | short (letters : List Char)
  | plain
deriving Repr, DecidableEq

/-- The form of an argument. -/
def form (argument : String) : Form :=
  match argument.toList with
  | ['-', '-'] => .endMark
  | '-' :: '-' :: rest =>
    let name := String.ofList (rest.takeWhile (· != '='))
    match rest.dropWhile (· != '=') with
    | [] => .long name none
    | _ :: value => .long name (some (String.ofList value))
  | '-' :: letter :: rest => .short (letter :: rest)
  | _ => .plain

/-! ### Reading -/

/-- A value that has been met but not checked. -/
inductive Pending where
  | none
  /-- The runtime option, with its value unless that is still to come. -/
  | runtime (value : Option String)
  | input (name : String)
  | output (name : String)
deriving Repr, DecidableEq

/-- The arguments read so far. -/
structure State where
  pending : Pending := .none
  runtime : Option String := none
  noFormat : Bool := false
  input : Option String := none
  output : Option String := none
  trailing : List String := []
  /-- The number of file names met, pending ones included. -/
  files : Nat := 0
  /-- Whether everything that follows is taken as it stands. -/
  ended : Bool := false
deriving Repr, DecidableEq

namespace State

/-- Sets the runtime, once. -/
def setRuntime (state : State) (value : String) : Except UsageFault State :=
  if state.runtime.isSome then .error .conflict else .ok { state with runtime := some value }

/-- Checks the pending value. -/
def settle (state : State) : Except UsageFault State :=
  let settled := { state with pending := .none }
  match state.pending with
  | .none => .ok settled
  | .runtime none => .error .invalidValue
  | .runtime (some value) => settled.setRuntime value
  | .input name =>
    if name.isEmpty then .error .invalidValue else .ok { settled with input := some name }
  | .output name =>
    if name.isEmpty then .error .invalidValue else .ok { settled with output := some name }

/-- Takes an argument as a file name or as a trailing one. -/
def positional (state : State) (argument : String) : Except UsageFault State := do
  let settled ← state.settle
  if state.files = 0 then return { settled with pending := .input argument, files := 1 }
  else if state.files = 1 then return { settled with pending := .output argument, files := 2 }
  else return { settled with trailing := settled.trailing ++ [argument], ended := true }

/-- Takes an argument as the value of a pending option, or else by its place. -/
def value (state : State) (argument : String) : Except UsageFault State :=
  match state.pending with
  | .runtime none => .ok { state with pending := .runtime (some argument) }
  | _ => state.positional argument

/-- Takes an argument that looks like an option and is none: once both files are named, it is a
value. -/
def unknown (state : State) (argument : String) : Except UsageFault State :=
  if state.files = 2 then state.value argument else .error .unknownArgument

/-- Reports a fault that stands for a request, after the pending value is checked. -/
def request (state : State) (fault : UsageFault) : Except UsageFault State := do
  let _ ← state.settle
  throw fault

/-- Takes an option without a value. -/
def flag (attached : Option String) (action : Except UsageFault State) : Except UsageFault State :=
  if attached.isSome then .error .tooManyValues else action

/-- Takes the option that turns formatting off. -/
def setNoFormat (state : State) : Except UsageFault State := do
  let settled ← state.settle
  if settled.noFormat then throw .conflict else return { settled with noFormat := true }

/-- Takes the runtime option. -/
def runtimeOption (state : State) (attached : Option String) : Except UsageFault State := do
  let settled ← state.settle
  match attached with
  | some content => settled.setRuntime content
  | none => return { settled with pending := .runtime none }

/-- Takes a long option. -/
def long (state : State) (argument name : String) (attached : Option String) :
    Except UsageFault State :=
  if name = "runtime" then state.runtimeOption attached
  else if name = "no-format" then flag attached state.setNoFormat
  else if name = "help" then flag attached (state.request .displayHelp)
  else if name = "version" then flag attached (state.request .displayVersion)
  else state.unknown argument

/-- Whether a letter is a short option. -/
def isShortOption (letter : Char) : Bool := letter == 'h' || letter == 'V'

/-- Takes a row of short options; the first one decides. -/
def short (state : State) (argument : String) (letters : List Char) : Except UsageFault State :=
  if state.files = 2 && !letters.all isShortOption then state.value argument
  else
    match letters with
    | 'h' :: _ => state.request .displayHelp
    | 'V' :: _ => state.request .displayVersion
    | _ => .error .unknownArgument

/-- Takes an argument. -/
def step (state : State) (argument : String) : Except UsageFault State :=
  if state.ended then state.positional argument
  else
    match form argument with
    | .endMark => .ok { state with ended := true }
    | .long name attached => state.long argument name attached
    | .short letters => state.short argument letters
    | .plain => state.value argument

/-- Checks what is left when all arguments are read. -/
def finish (state : State) : Except UsageFault Arguments := do
  let settled ← state.settle
  match settled.input, settled.output with
  | some input, some output =>
    return { input := input
             output := output
             trailing := settled.trailing
             runtime := settled.runtime.getD defaultRuntime
             noFormat := settled.noFormat }
  | _, _ => throw .missingRequired

end State

/-- Reads the arguments of the command, without its name. -/
def parse (arguments : List String) : Except UsageFault Arguments := do
  (← arguments.foldlM State.step {}).finish

end Arguments

end SchemaCompiler
