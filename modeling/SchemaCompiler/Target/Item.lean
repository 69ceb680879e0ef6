import SchemaCompiler.Code.Tree

/-!
# Paths and configuration items

Settings hold text in the language of the written code: paths to the runtime and to imported
modules, and configuration lines, which are items. `Grammar` says what the language takes for a path
and for items. Generation depends on it, and what is shown of generation holds for any grammar.

The command uses a grammar of the simple forms that settings are made of. `path?` reads a path, and
`items?` reads constants, statics, type aliases, imports, structures, enumerations and functions,
each with a visibility and attributes. Both give back as code what they read; attributes of the
whole text are dropped. Forms beyond these are refused, such as control flow, closures, generic
items, traits and macros.
-/

set_option autoImplicit false
set_option relaxedAutoImplicit false

namespace SchemaCompiler.Target

/-- A reader of tokens that may refuse them. -/
abbrev Reader := StateT (List Token) Option

namespace Reader

/-! ### Single tokens -/

/-- Takes the next token if it satisfies a condition. -/
def accept (holds : Token → Bool) : Reader Bool := do
  match ← get with
  | token :: rest => if holds token then set rest; return true else return false
  | [] => return false

/-- Takes the characters of an operator, if they follow. All but the last are joined to the next
one. -/
def acceptSigns : List Char → Reader Bool
  | [] => return true
  | [character] =>
    accept fun
      | .sign other _ => other == character
      | _ => false
  | character :: others => do
    let before ← get
    if ← accept (· == .sign character true) then
      if ← acceptSigns others then return true
      else
        set before
        return false
    else return false

/-- Takes an operator. -/
def sign (text : String) : Reader Tree := do
  if ← acceptSigns text.toList then return text else failure

/-- Takes a keyword. -/
def keyword (text : String) : Reader Tree := do
  if ← accept (· == .word text) then return text else failure

/-- Whether the next token is a given one. -/
def isNext (token : Token) : Reader Bool := do
  return (← get).head? == some token

/-- Takes a name. -/
def name : Reader Tree := do
  match ← get with
  | .word text :: rest => if isPlain text then set rest; return text else failure
  | .raw text :: rest => set rest; return .word ("r#" ++ text)
  | _ => failure

/-- Takes brackets around what a reader takes. -/
def enclosed (delimiter : Delimiter) (content : Reader (List Tree)) : Reader Tree := do
  unless ← accept (· == .opening delimiter) do failure
  let pieces ← content
  unless ← accept (· == .closing delimiter) do failure
  return .group delimiter pieces

/-- Takes items up to a closing bracket, with a comma between every two and perhaps one more. -/
def listed (delimiter : Delimiter) (item : Reader Tree) : (limit : Nat) → Reader (List Tree)
  | 0 => failure
  | limit + 1 => do
    if ← isNext (.closing delimiter) then return []
    let piece ← item
    if ← isNext (.closing delimiter) then return [piece]
    let comma ← sign ","
    return piece :: comma :: (← listed delimiter item limit)

/-! ### Paths, expressions and types -/

/-- Words that stand as a segment without arguments. -/
def bareSegments : List String := ["self", "super", "crate", "try"]

/-- Takes a segment of a path, with the arguments that `arguments` reads. -/
def segment (arguments : Reader (List Tree)) : Reader Tree := do
  match ← get with
  | .word text :: rest =>
    if bareSegments.contains text then set rest; return text
    else if isPlain text || text == "Self" then
      set rest
      return .row ((text : Tree) :: (← arguments))
    else failure
  | _ => return .row ((← name) :: (← arguments))

/-- Takes the segments of a path after a segment. -/
def furtherSegments (arguments : Reader (List Tree)) : (limit : Nat) → Reader (List Tree)
  | 0 => failure
  | limit + 1 => do
    if ← acceptSigns [':', ':'] then
      let next ← segment arguments
      return "::" :: next :: (← furtherSegments arguments limit)
    else return []

/-- Takes a path. -/
def path (arguments : Reader (List Tree)) (limit : Nat) : Reader Tree := do
  let root : List Tree := if ← acceptSigns [':', ':'] then ["::"] else []
  let first ← segment arguments
  return .row (root ++ first :: (← furtherSegments arguments limit))

/-- The operators between two operands. -/
def operators : List String := ["+", "-", "*", "/", "%", "<<", ">>", "&", "|", "^"]

/-- Takes the first of several operators that follows. -/
def anySign : List String → Reader (Option Tree)
  | [] => return none
  | text :: others => do
    if ← acceptSigns text.toList then return some text else anySign others

/-- Takes generic arguments up to the closing angle bracket. -/
def genericList (item : Reader Tree) : (limit : Nat) → Reader (List Tree)
  | 0 => failure
  | limit + 1 => do
    if ← acceptSigns ['>'] then return [">"]
    let piece ← item
    if ← acceptSigns ['>'] then return [piece, ">"]
    let comma ← sign ","
    return piece :: comma :: (← genericList item limit)

/-- Takes generic arguments, if they follow. -/
def generics (item : Reader Tree) (limit : Nat) : Reader (List Tree) := do
  if ← acceptSigns ['<'] then return "<" :: (← genericList item limit) else return []

/-- Takes a lifetime, if one follows. -/
def lifetime : Reader (List Tree) := do
  match ← get with
  | .lifetime text :: rest => set rest; return [.word ("'" ++ text)]
  | _ => return []

/-- Takes a lifetime, or else what a reader takes. -/
def lifetimeOr (other : Reader Tree) : Reader Tree := do
  match ← lifetime with
  | [] => other
  | bound => return .row bound

/-- Takes a word, if it follows. -/
def acceptWord (text : String) : Reader (List Tree) := do
  if ← accept (· == .word text) then return [text] else return []

/-- Takes the name or the number of a field. -/
def fieldName : Reader Tree := do
  match ← get with
  | .literal text :: rest =>
    if text.toList.all Char.isDigit then set rest; return text else failure
  | _ => name

mutual

/-- Takes an operand of an expression. -/
def operand : (limit : Nat) → Reader Tree
  | 0 => failure
  | limit + 1 => do
    match ← get with
    | .sign '-' _ :: rest => set rest; return .row ["-", ← operand limit]
    | .sign '!' _ :: rest => set rest; return .row ["!", ← operand limit]
    | .sign '&' _ :: rest =>
      set rest
      let changing ← acceptWord "mut"
      return .row ["&", .row changing, ← operand limit]
    | _ =>
      let subject ← subject limit
      return .row (subject :: (← postfixes limit))

/-- Takes a literal, a path, an array or a tuple. -/
def subject : (limit : Nat) → Reader Tree
  | 0 => failure
  | limit + 1 => do
    match ← get with
    | .literal text :: rest => set rest; return text
    | .word "true" :: rest => set rest; return "true"
    | .word "false" :: rest => set rest; return "false"
    | .opening .bracket :: _ => enclosed .bracket (elements limit)
    | .opening .paren :: _ => enclosed .paren (listed .paren (expression limit) limit)
    | _ => path (return []) limit

/-- Takes the arguments of calls, indices and fields that follow a value. -/
def postfixes : (limit : Nat) → Reader (List Tree)
  | 0 => failure
  | limit + 1 => do
    match ← get with
    | .opening .paren :: _ =>
      let arguments ← enclosed .paren (listed .paren (expression limit) limit)
      return arguments :: (← postfixes limit)
    | .opening .bracket :: _ =>
      let index ← enclosed .bracket do return [← expression limit]
      return index :: (← postfixes limit)
    | .sign '.' _ :: rest =>
      set rest
      let field ← fieldName
      return "." :: field :: (← postfixes limit)
    | _ => return []

/-- Takes the types that a value is cast to, one after another. -/
def casts : (limit : Nat) → Reader (List Tree)
  | 0 => failure
  | limit + 1 => do
    if ← accept (· == .word "as") then
      let kind ← type limit
      return "as" :: kind :: (← casts limit)
    else return []

/-- Takes an expression. -/
def expression : (limit : Nat) → Reader Tree
  | 0 => failure
  | limit + 1 => do
    let left ← operand limit
    let kinds ← casts limit
    match ← anySign operators with
    | some operator => return .row [left, .row kinds, operator, ← expression limit]
    | none => return .row [left, .row kinds]

/-- Takes the elements of an array, or one element and how often it is repeated. -/
def elements : (limit : Nat) → Reader (List Tree)
  | 0 => failure
  | limit + 1 => do
    if ← isNext (.closing .bracket) then return []
    let first ← expression limit
    if ← acceptSigns [';'] then return [first, ";", ← expression limit]
    else if ← acceptSigns [','] then
      return first :: "," :: (← listed .bracket (expression limit) limit)
    else return [first]

/-- Takes a type. -/
def type : (limit : Nat) → Reader Tree
  | 0 => failure
  | limit + 1 => do
    match ← get with
    | .sign '&' _ :: rest =>
      set rest
      let bound ← lifetime
      let changing ← acceptWord "mut"
      return .row ["&", .row bound, .row changing, ← type limit]
    | .sign '!' _ :: rest => set rest; return "!"
    | .word "_" :: rest => set rest; return "_"
    | .opening .bracket :: _ =>
      enclosed .bracket do
        let element ← type limit
        if ← acceptSigns [';'] then return [element, ";", ← expression limit]
        else return [element]
    | .opening .paren :: _ => enclosed .paren (listed .paren (type limit) limit)
    | _ => path (generics (lifetimeOr (type limit)) limit) limit

end

/-! ### Attributes and visibility -/

/-- The text of a token among others, as it is written. -/
def tokenText : Token → String
  | .word text => text
  | .raw name => "r#" ++ name
  | .lifetime name => "'" ++ name
  | .literal text => text
  | .sign character _ => String.singleton character
  | .opening _ | .closing _ => ""

/-- Takes any tokens up to a closing bracket; brackets among them are balanced. -/
def anything : (limit : Nat) → Reader (List Tree)
  | 0 => failure
  | limit + 1 => do
    match ← get with
    | .opening delimiter :: _ =>
      let group ← enclosed delimiter (anything limit)
      return group :: (← anything limit)
    | .closing _ :: _ => return []
    | .sign first true :: .sign second joined :: rest =>
      if joined then set (Token.sign second joined :: rest) else set rest
      if joined then return .word (String.singleton first) :: (← anything limit)
      else return .word (String.ofList [first, second]) :: (← anything limit)
    | token :: rest =>
      set rest
      return .word (tokenText token) :: (← anything limit)
    | [] => failure

/-- Takes the content of an attribute: a path, and then brackets, a value or nothing. -/
def attributeContent (limit : Nat) : Reader (List Tree) := do
  let place ← path (return []) limit
  match ← get with
  | .opening delimiter :: _ => return [place, ← enclosed delimiter (anything limit)]
  | .sign '=' _ :: rest => set rest; return [place, "=", ← expression limit]
  | _ => return [place]

/-- Takes the attributes of an item. -/
def attributes (limit : Nat) : (count : Nat) → Reader (List Tree)
  | 0 => failure
  | count + 1 => do
    if ← acceptSigns ['#'] then
      let content ← enclosed .bracket (attributeContent limit)
      return "#" :: content :: (← attributes limit count)
    else return []

/-- Takes the attributes of the whole text, which stand before all items. -/
def innerAttributes (limit : Nat) : (count : Nat) → Reader Unit
  | 0 => failure
  | count + 1 => do
    match ← get with
    | .sign '#' _ :: .sign '!' _ :: rest =>
      set rest
      let _ ← enclosed .bracket (attributeContent limit)
      innerAttributes limit count
    | _ => return ()

/-- Takes the place that bounds a visibility. -/
def visibilityBound : Reader Tree := do
  match ← get with
  | .word text :: rest =>
    if text == "crate" || text == "self" || text == "super" then set rest; return text
    else failure
  | _ => failure

/-- Takes a visibility, if one follows. -/
def visibility : Reader (List Tree) := do
  if ← accept (· == .word "pub") then
    match ← get with
    | .opening .paren :: .word _ :: .closing .paren :: _ =>
      let before ← get
      match (enclosed .paren (return [← visibilityBound])).run before with
      | some (bound, rest) => set rest; return ["pub", bound]
      | none => return ["pub"]
    | _ => return ["pub"]
  else return []

/-! ### Items -/

/-- Takes the type and value of a constant or static. -/
def typedValue (limit : Nat) : Reader (List Tree) := do
  let colon ← sign ":"
  let kind ← type limit
  let equal ← sign "="
  let value ← expression limit
  return [colon, kind, equal, value, ← sign ";"]

/-- Takes a name or an underscore. -/
def nameOrBlank : Reader Tree := do
  if ← accept (· == .word "_") then return .word "_" else name

/-- Takes a segment of the path of an import. -/
def useSegment : Reader Tree := do
  match ← get with
  | .word text :: rest =>
    if bareSegments.contains text then set rest; return text else name
  | _ => name

/-- Takes what an import brings into scope. -/
def useTree : (limit : Nat) → Reader (List Tree)
  | 0 => failure
  | limit + 1 => do
    match ← get with
    | .opening .brace :: _ =>
      return [← enclosed .brace (listed .brace (do return .row (← useTree limit)) limit)]
    | .sign '*' _ :: rest => set rest; return ["*"]
    | _ =>
      let first ← useSegment
      if ← acceptSigns [':', ':'] then return first :: "::" :: (← useTree limit)
      else if ← accept (· == .word "as") then return [first, "as", ← nameOrBlank]
      else return [first]

/-- Takes a field of a structure whose fields have no names. -/
def positionalField (limit : Nat) : Reader Tree := do
  let marks ← attributes limit limit
  let seen ← visibility
  return .row (marks ++ seen ++ [← type limit])

/-- Takes a field of a structure whose fields have names. -/
def namedField (limit : Nat) : Reader Tree := do
  let marks ← attributes limit limit
  let seen ← visibility
  let given ← name
  let colon ← sign ":"
  return .row (marks ++ seen ++ [given, colon, ← type limit])

/-- Takes fields, if they follow. -/
def fields (limit : Nat) : Reader (List Tree) := do
  match ← get with
  | .opening .paren :: _ => return [← enclosed .paren (listed .paren (positionalField limit) limit)]
  | .opening .brace :: _ => return [← enclosed .brace (listed .brace (namedField limit) limit)]
  | _ => return []

/-- Takes the name and the fields of a structure. Only fields in braces end it. -/
def structureBody (limit : Nat) : Reader (List Tree) := do
  let given ← name
  let braced ← isNext (.opening .brace)
  let content ← fields limit
  if braced then return given :: content
  else return given :: content ++ [← sign ";"]

/-- Takes a variant of an enumeration, perhaps with fields and a value. -/
def variant (limit : Nat) : Reader Tree := do
  let marks ← attributes limit limit
  let given ← name
  let content ← fields limit
  let value : List Tree ← if ← acceptSigns ['='] then pure ["=", ← expression limit] else pure []
  return .row (marks ++ given :: content ++ value)

/-- Takes the name and the variants of an enumeration. -/
def enumerationBody (limit : Nat) : Reader (List Tree) := do
  let given ← name
  return [given, ← enclosed .brace (listed .brace (variant limit) limit)]

/-- Takes a parameter of a function. -/
def parameter (limit : Nat) : Reader Tree := do
  let marks ← attributes limit limit
  let changing ← acceptWord "mut"
  let given ← if changing.isEmpty then nameOrBlank else name
  let colon ← sign ":"
  return .row (marks ++ changing ++ [given, colon, ← type limit])

/-- Takes the name, parameters, result type and body of a function. -/
def functionBody (limit : Nat) : Reader (List Tree) := do
  let given ← name
  let parameters ← enclosed .paren (listed .paren (parameter limit) limit)
  let result : List Tree ← if ← acceptSigns ['-', '>'] then pure ["->", ← type limit] else pure []
  let body ← enclosed .brace do
    if ← isNext (.closing .brace) then return [] else return [← expression limit]
  return [given, parameters] ++ result ++ [body]

/-- Takes what follows the attributes and the visibility of an item. -/
def itemBody (limit : Nat) : Reader (List Tree) := do
  if ← accept (· == .word "const") then
    let given ← nameOrBlank
    return "const" :: given :: (← typedValue limit)
  else if ← accept (· == .word "static") then
    let changing ← acceptWord "mut"
    let given ← name
    return "static" :: .row changing :: given :: (← typedValue limit)
  else if ← accept (· == .word "type") then
    let given ← name
    let equal ← sign "="
    let kind ← type limit
    return ["type", given, equal, kind, ← sign ";"]
  else if ← accept (· == .word "use") then
    let root : List Tree := if ← acceptSigns [':', ':'] then ["::"] else []
    let brought ← useTree limit
    return ["use", .row root, .row brought, ← sign ";"]
  else if ← accept (· == .word "struct") then return "struct" :: (← structureBody limit)
  else if ← accept (· == .word "enum") then return "enum" :: (← enumerationBody limit)
  else if ← accept (· == .word "fn") then return "fn" :: (← functionBody limit)
  else failure

/-- Takes an item. -/
def item (limit : Nat) : Reader Tree := do
  let marks ← attributes limit limit
  let seen ← visibility
  return .row (marks ++ seen ++ (← itemBody limit))

/-- Takes items to the end. -/
def itemsUpTo (limit : Nat) : (count : Nat) → Reader (List Tree)
  | 0 => failure
  | count + 1 => do
    if (← get).isEmpty then return []
    else return (← item limit) :: (← itemsUpTo limit count)

end Reader

/-- A text without the mark of its byte order and without a first line that names its
interpreter. -/
def dropShebang (text : String) : String :=
  let body := match text.toList with
    | '\ufeff' :: rest => rest
    | characters => characters
  match body with
  | '#' :: '!' :: rest =>
    if (rest.dropWhile Text.isBlank).head? == some '[' then String.ofList body
    else String.ofList (rest.dropWhile (· != '\n'))
  | _ => String.ofList body

/-- What a reader takes of all tokens of a text, which may not leave any. -/
def read? {Item : Type} (text : String) (reader : (limit : Nat) → Reader Item) : Option Item := do
  let tokens ← tokens? text
  let (item, rest) ← (reader (tokens.length + 1)).run tokens
  if rest.isEmpty then return item else none

/-- The path that a text is, as code. -/
def path? (text : String) : Option Tree :=
  read? text fun limit ↦
    Reader.path (Reader.generics (Reader.lifetimeOr (Reader.type limit)) limit) limit

/-- The items of a text as code. -/
def items? (text : String) : Option (List Tree) :=
  read? (dropShebang text) fun limit ↦ do
    Reader.innerAttributes limit limit
    Reader.itemsUpTo limit limit

/-- What the language of the written code takes for a path and for items, as code. -/
class Grammar where
  path? : String → Option Tree
  items? : String → Option (List Tree)

/-- The grammar of the simple forms that settings are made of. -/
instance : Grammar where
  path? := path?
  items? := items?

end SchemaCompiler.Target
