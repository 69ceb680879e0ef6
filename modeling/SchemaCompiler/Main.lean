import SchemaCompiler.Command.Compile

/-!
# The command

`main` runs the command on the disk. It starts no other program: without `--no-format` it reports
that there is no formatter.
-/

set_option autoImplicit false
set_option relaxedAutoImplicit false

open SchemaCompiler

/-- The files of the disk. -/
def diskHost : Host IO where
  read name := do
    try
      return .ok (← IO.FS.readBinFile name).toList
    catch _ => return .error .notFound
  fullPath name := return name
  format _ := return .error .notFound
  write name text := do
    try
      IO.FS.writeFile name text
      return .ok ()
    catch _ => return .error .notFound
  report _ := return ()

/-- Runs the command on the disk. -/
def main (arguments : List String) : IO UInt32 := do
  match Arguments.parse arguments with
  | .error fault =>
    IO.eprintln fault.name
    return 2
  | .ok parsed =>
    match ← (parsed.run diskHost).run with
    | .ok () => return 0
    | .error fault =>
      IO.eprintln ("Error: " ++ fault.message)
      return 1
