import SchemaCompiler.Code.Settings
import SchemaCompiler.Text.Blank

/-!
# Import clauses

The trailing arguments are configuration lines up to the first word `import`. All words after it,
however they are spread over arguments, form clauses `NAME from MODULE`; further words `import`
between them say nothing.
-/

set_option autoImplicit false
set_option relaxedAutoImplicit false

namespace SchemaCompiler

/-- Why trailing arguments are no lines and clauses. -/
inductive ClauseFault where
  /-- The clause that begins with a name is not complete. -/
  | incomplete (name : String)
  /-- No clause follows the word `import`. -/
  | none
deriving Repr, DecidableEq

/-- The wording of a clause fault. -/
def ClauseFault.message : ClauseFault → String
  | incomplete name =>
    "invalid import clause starting at `" ++ name ++ "`: expected `NAME from MODULE`"
  | none => "`import` must be followed by at least one `NAME from MODULE` clause"

namespace Import

/-- The word that begins the clauses. -/
def keyword : String := "import"

/-- Reads clauses from words. -/
def ofWords : List String → Except ClauseFault (List Import)
  | [] => .ok []
  | name :: "from" :: module :: rest => (ofWords rest).map (⟨name, module⟩ :: ·)
  | name :: _ => .error (.incomplete name)

/-- Whether an argument is the word that begins the clauses. -/
def isKeyword (argument : String) : Bool :=
  String.ofList (Text.trim argument.toList) == keyword

/-- The words of arguments without the words `import`. -/
def clauseWords (arguments : List String) : List String :=
  let wordsOf := fun (argument : String) ↦ (Text.words argument.toList).map String.ofList
  (arguments.flatMap wordsOf).filter (· != keyword)

/-- Divides trailing arguments into configuration lines and imports. -/
def splitTrailing (trailing : List String) : Except ClauseFault (List String × List Import) :=
  let lines := trailing.takeWhile fun argument ↦ !isKeyword argument
  match trailing.dropWhile fun argument ↦ !isKeyword argument with
  | [] => .ok (lines, [])
  | _ :: rest => do
    let imports ← ofWords (clauseWords rest)
    if imports.isEmpty then throw .none else return (lines, imports)

end Import

end SchemaCompiler
