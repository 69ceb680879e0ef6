import SchemaCompiler.Text.Utf8

/-!
# Formatters

The code may pass through a formatter, another program that reads it and writes it in a better
layout. To the compiler a formatter is a function of the text.
-/

set_option autoImplicit false
set_option relaxedAutoImplicit false

namespace SchemaCompiler

/-- How a program ended. -/
inductive ExitStatus where
  | code (number : Nat)
  | signal (number : Nat)
deriving Repr, DecidableEq

/-- The names of the signals that end programs. -/
def signalNames : List (Nat × String) :=
  [(1, "SIGHUP"), (2, "SIGINT"), (3, "SIGQUIT"), (4, "SIGILL"), (5, "SIGTRAP"), (6, "SIGABRT"),
    (7, "SIGBUS"), (8, "SIGFPE"), (9, "SIGKILL"), (10, "SIGUSR1"), (11, "SIGSEGV"),
    (12, "SIGUSR2"), (13, "SIGPIPE"), (14, "SIGALRM"), (15, "SIGTERM")]

/-- The wording of an exit status. -/
def ExitStatus.describe : ExitStatus → String
  | code number => "exit status: " ++ toString number
  | signal number =>
    "signal: " ++ toString number ++
      match signalNames.lookup number with
      | some name => " (" ++ name ++ ")"
      | none => ""

/-- What running a formatter comes to. -/
inductive FormatterRun where
  /-- There is no formatter. -/
  | notFound
  | finished (status : ExitStatus) (output : List UInt8)
deriving Repr, DecidableEq

/-- A program that reads code and writes it in a better layout. -/
abbrev Formatter := String → FormatterRun

/-- Why there is no formatted code. -/
inductive FormatFault where
  | notFound
  | failed (status : ExitStatus)
  | notText (fault : Text.Utf8Fault)
deriving Repr, DecidableEq

/-- The wording of a format fault. -/
def FormatFault.message : FormatFault → String
  | notFound => "failed to spawn `rustfmt`: No such file or directory (os error 2)"
  | failed (.code 2) => "rustfmt parsing errors"
  | failed (.code 3) => "rustfmt failed to format"
  | failed status => "rustfmt exited with " ++ status.describe
  | notText fault => fault.message

/-- The formatted code. -/
def Formatter.apply (formatter : Formatter) (code : String) : Except FormatFault String :=
  match formatter code with
  | .notFound => .error .notFound
  | .finished (.code 0) output => (Text.decodeUtf8 output).mapError .notText
  | .finished status _ => .error (.failed status)

/-- The arguments that a formatter is started with. -/
def Formatter.arguments : List String := ["--emit", "stdout", "--edition", "2021"]

end SchemaCompiler
