import SchemaCompiler.Ordered
import SchemaCompiler.Text.Blank

/-!
# Files

The files below a directory, by their names relative to it. A name is a path whose parts are divided
by slashes; empty parts and single points in it say nothing. Reading and writing fail as they do on
a disk: where a directory stands, where a part of the path is missing, or where it is a file.
-/

set_option autoImplicit false
set_option relaxedAutoImplicit false

namespace SchemaCompiler

/-- Why a file cannot be read or written. -/
inductive FileFault where
  | notFound
  | notDirectory
  | isDirectory
deriving Repr, DecidableEq

/-- The wording of a file fault. -/
def FileFault.message : FileFault → String
  | notFound => "No such file or directory (os error 2)"
  | notDirectory => "Not a directory (os error 20)"
  | isDirectory => "Is a directory (os error 21)"

/-- Files by their names. -/
structure Files where
  contents : OrderedMap (List UInt8) := .empty
deriving Repr, DecidableEq

namespace Files

/-- The parts of a path that lead somewhere. -/
def parts (path : String) : List String :=
  ((Text.pieces (· == '/') path.toList).map String.ofList).filter fun part ↦
    !(part.isEmpty || part == ".")

/-- The name that parts of a path make up. -/
def join (parts : List String) : String := String.intercalate "/" parts

/-- The name of the file that a path leads to. -/
def name (path : String) : String := join (parts path)

/-- Whether a path asks for a directory. -/
def asksDirectory (path : String) : Bool :=
  match (Text.pieces (· == '/') path.toList).getLast? with
  | some last => last.isEmpty || last == ['.']
  | none => false

/-- Whether parts of a path lead to a directory: to the one that holds all files, or to one above a
file. -/
def isDirectory (files : Files) (parts : List String) : Bool :=
  parts.isEmpty || files.contents.keys.any fun key ↦ (join parts ++ "/").isPrefixOf key

/-- Whether parts of a path lead to a file. -/
def isFile (files : Files) (parts : List String) : Bool := files.contents.contains (join parts)

/-- Why the directory of a path cannot be entered. -/
def parentFault? (files : Files) (parts : List String) : Option FileFault :=
  let parents := (List.range parts.length).map fun count ↦ parts.take count
  parents.findSome? fun parent ↦
    if files.isDirectory parent then none
    else if files.isFile parent then some .notDirectory
    else some .notFound

/-- The content of the file that a path leads to. -/
def read (files : Files) (path : String) : Except FileFault (List UInt8) :=
  let places := parts path
  match files.parentFault? places with
  | some fault => .error fault
  | none =>
    if files.isDirectory places then .error .isDirectory
    else
      match files.contents.get? (join places) with
      | some content => if asksDirectory path then .error .notDirectory else .ok content
      | none => .error .notFound

/-- Sets the content of the file that a path leads to. -/
def write (files : Files) (path : String) (content : List UInt8) : Except FileFault Files :=
  let places := parts path
  match files.parentFault? places with
  | some fault => .error fault
  | none =>
    if files.isDirectory places then .error .isDirectory
    else if asksDirectory path then
      .error (if files.isFile places then .notDirectory else .isDirectory)
    else .ok ⟨files.contents.insert (join places) content⟩

/-- The full path of what a path leads to, if it is there, where `root` stands for the directory
that holds all files. -/
def fullPath (files : Files) (root path : String) : String :=
  let places := parts path
  if (files.parentFault? places).isSome then path
  else if places.isEmpty then root
  else if files.isDirectory places || (files.isFile places && !asksDirectory path) then
    root ++ "/" ++ join places
  else path

end Files

end SchemaCompiler
