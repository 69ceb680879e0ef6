import SchemaCompiler.Command.Files
import SchemaCompiler.Command.Formatter
import SchemaCompiler.Event

/-!
# Hosts

A command does nothing to the machine by itself: it asks a host to read and write files, to format
code and to pass on what it reports. `Host.onFiles` is a host in memory. It leaves a `World` behind,
also where the command fails, so that what became of the files can be looked at afterwards.
-/

set_option autoImplicit false
set_option relaxedAutoImplicit false

namespace SchemaCompiler

/-- What a command asks of the machine that it runs on. -/
structure Host (Run : Type → Type) where
  read : String → Run (Except FileFault (List UInt8))
  /-- The full path of what a path leads to; the path itself if it leads nowhere. -/
  fullPath : String → Run String
  format : String → Run (Except FormatFault String)
  write : String → String → Run (Except FileFault Unit)
  report : List Event → Run Unit

/-- What a command can change: the files, and what was reported so far. -/
structure World where
  files : Files
  events : List Event := []

/-- The host of files below a directory, with a formatter. A file that cannot be written leaves all
files as they were. -/
def Host.onFiles (root : String) (formatter : Formatter) : Host (StateM World) where
  read path := return (← get).files.read path
  fullPath path := return (← get).files.fullPath root path
  format code := return formatter.apply code
  write path text := do
    let world ← get
    match world.files.write path text.toUTF8.toList with
    | .ok files =>
      set { world with files := files }
      return .ok ()
    | .error fault => return .error fault
  report events := modify fun world ↦ { world with events := world.events ++ events }

end SchemaCompiler
