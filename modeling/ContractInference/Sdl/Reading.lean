import ContractInference.Sdl.Document
import ContractInference.Sdl.Token

/-!
# Reading schema documents

Definitions and extensions of types, and operations and fragments among them. Reading fails
unless the whole document follows the grammar.
-/

namespace ContractInference.Sdl

abbrev Reader (α : Type) := StateT (List Token) Option α

def peek : Reader (Option Token) := return (← get).head?

def lookahead : Reader (Option Token) := return ((← get).drop 1).head?

def take (t : Token) : Reader Unit := do
  match ← get with
  | u :: rest => if u = t then set rest else failure
  | [] => failure

def mark (s : String) : Reader Unit := take (.mark s)

def keyword (s : String) : Reader Unit := take (.name s)

/-- Takes a token if it stands next, and says whether it did. -/
def takes (t : Token) : Reader Bool := do
  if (← peek) = some t then
    take t
    return true
  else return false

def name : Reader String := do
  match ← get with
  | .name s :: rest =>
    set rest
    return s
  | _ => failure

def itemsAux {α : Type} (item : Reader α) (closing : String) : Nat → Reader (List α)
  | 0 => failure
  | fuel + 1 => do
    if ← takes (.mark closing) then return []
    else
      let a ← item
      return a :: (← itemsAux item closing fuel)

def size : Reader Nat := return (← get).length

def many {α : Type} (opening : String) (item : Reader α) (closing : String) : Reader (List α) := do
  mark opening
  let first ← item
  return first :: (← itemsAux item closing ((← size) + 1))

def optionalMany {α : Type} (opening : String) (item : Reader α) (closing : String) :
    Reader (List α) := do
  if (← peek) = some (.mark opening) then many opening item closing else return []

def any {α : Type} (opening : String) (item : Reader α) (closing : String) : Reader (List α) := do
  mark opening
  itemsAux item closing ((← size) + 1)

def moreAux {α : Type} (separator : String) (item : Reader α) : Nat → Reader (List α)
  | 0 => failure
  | fuel + 1 => do
    if ← takes (.mark separator) then
      let a ← item
      return a :: (← moreAux separator item fuel)
    else return []

/-- One or more items with marks between them, and one before them if wanted. -/
def delimited {α : Type} (separator : String) (item : Reader α) : Reader (List α) := do
  let _ ← takes (.mark separator)
  let first ← item
  return first :: (← moreAux separator item ((← size) + 1))

def repeated {α : Type} (start : Token) (item : Reader α) : Nat → Reader (List α)
  | 0 => failure
  | fuel + 1 => do
    if (← peek) = some start then
      let a ← item
      return a :: (← repeated start item fuel)
    else return []

/-- A value; a constant holds no variables. -/
def value (constant : Bool) : Nat → Reader Unit
  | 0 => failure
  | fuel + 1 => do
    match ← peek with
    | some .number => take .number
    | some .string => take .string
    | some (.name _) => discard name
    | some (.mark "[") => discard (any "[" (value constant fuel) "]")
    | some (.mark "\x7b") =>
      discard (any "\x7b" (do
        let _ ← name
        mark ":"
        value constant fuel) "\x7d")
    | some (.mark "$") =>
      if constant then failure
      else
        mark "$"
        discard name
    | _ => failure

def anyValue (constant : Bool) : Reader Unit := do
  value constant ((← size) + 1)

def argument (constant : Bool) : Reader Unit := do
  let _ ← name
  mark ":"
  anyValue constant

def arguments (constant : Bool) : Reader Unit := discard (optionalMany "(" (argument constant) ")")

def directive (constant : Bool) : Reader Unit := do
  mark "@"
  let _ ← name
  arguments constant

/-- Directives, and whether there are some. -/
def directives (constant : Bool) : Reader Bool := do
  let found ← repeated (.mark "@") (directive constant) ((← size) + 1)
  return !found.isEmpty

def typeRefAux : Nat → Reader TypeRef
  | 0 => failure
  | fuel + 1 => do
    let base ←
      if ← takes (.mark "[") then
        let item ← typeRefAux fuel
        mark "]"
        pure (TypeRef.list item)
      else pure (TypeRef.named (← name))
    if ← takes (.mark "!") then return .nonNull base else return base

def typeRef : Reader TypeRef := do
  typeRefAux ((← size) + 1)

def description : Reader Unit := discard (takes .string)

def operationTypes : List String := ["query", "mutation", "subscription"]

def operationType : Reader Unit := do
  let s ← name
  if operationTypes.contains s then pure () else failure

def selections (selection : Reader Unit) : Reader Unit := discard (many "\x7b" selection "\x7d")

def selection : Nat → Reader Unit
  | 0 => failure
  | fuel + 1 => do
    if ← takes (.mark "...") then
      if ← takes (.name "on") then
        let _ ← name
        let _ ← directives false
        selections (selection fuel)
      else
        match ← peek with
        | some (.name _) =>
          let _ ← name
          discard (directives false)
        | _ =>
          let _ ← directives false
          selections (selection fuel)
    else
      let _ ← name
      if ← takes (.mark ":") then discard name
      arguments false
      let _ ← directives false
      if (← peek) = some (.mark "\x7b") then selections (selection fuel)

def selectionSet : Reader Unit := do
  selections (selection ((← size) + 1))

def variableDefinition : Reader Unit := do
  description
  mark "$"
  let _ ← name
  mark ":"
  let _ ← typeRef
  if ← takes (.mark "=") then anyValue true
  discard (directives true)

def operation : Reader Unit := do
  operationType
  match ← peek with
  | some (.name _) => discard name
  | _ => pure ()
  let _ ← optionalMany "(" variableDefinition ")"
  let _ ← directives false
  selectionSet

def fragment : Reader Unit := do
  keyword "fragment"
  let s ← name
  if s == "on" then failure
  keyword "on"
  let _ ← name
  let _ ← directives false
  selectionSet

def inputValue : Reader InputValue := do
  description
  let n ← name
  mark ":"
  let type ← typeRef
  if ← takes (.mark "=") then anyValue true
  let _ ← directives true
  return { name := n, type }

def fieldDefinition : Reader FieldDefinition := do
  description
  let n ← name
  let arguments ← optionalMany "(" inputValue ")"
  mark ":"
  let type ← typeRef
  let _ ← directives true
  return { name := n, arguments, type }

def fields : Reader (List FieldDefinition) := optionalMany "\x7b" fieldDefinition "\x7d"

def inputFields : Reader (List InputValue) := optionalMany "\x7b" inputValue "\x7d"

def enumValue : Reader String := do
  description
  let n ← name
  if ["true", "false", "null"].contains n then failure
  let _ ← directives true
  return n

def enumValues : Reader (List String) := optionalMany "\x7b" enumValue "\x7d"

/-- The interfaces that a type implements, and whether there are some. -/
def implementing : Reader Bool := do
  if ← takes (.name "implements") then
    let _ ← delimited "&" name
    return true
  else return false

/-- The members of a union, and whether there are some. -/
def unionMembers : Reader Bool := do
  if ← takes (.mark "=") then
    let _ ← delimited "|" name
    return true
  else return false

def operationTypeDefinition : Reader String := do
  operationType
  mark ":"
  name

def locations : List String :=
  ["QUERY", "MUTATION", "SUBSCRIPTION", "FIELD", "FRAGMENT_DEFINITION", "FRAGMENT_SPREAD",
    "INLINE_FRAGMENT", "VARIABLE_DEFINITION", "SCHEMA", "SCALAR", "OBJECT", "FIELD_DEFINITION",
    "ARGUMENT_DEFINITION", "INTERFACE", "UNION", "ENUM", "ENUM_VALUE", "INPUT_OBJECT",
    "INPUT_FIELD_DEFINITION"]

def location : Reader Unit := do
  let s ← name
  if locations.contains s then pure () else failure

def directiveDefinition : Reader Unit := do
  keyword "directive"
  mark "@"
  let _ ← name
  let _ ← optionalMany "(" inputValue ")"
  let _ ← takes (.name "repeatable")
  keyword "on"
  discard (delimited "|" location)

/-- A definition after its description, by its first word. -/
def typeDefinition (word : String) : Reader Definition := do
  match word with
  | "schema" =>
    keyword "schema"
    let _ ← directives true
    return .schema (← many "\x7b" operationTypeDefinition "\x7d")
  | "scalar" =>
    keyword "scalar"
    let _ ← name
    let _ ← directives true
    return .other
  | "type" =>
    keyword "type"
    let n ← name
    let _ ← implementing
    let _ ← directives true
    return .object n (← fields)
  | "interface" =>
    keyword "interface"
    let _ ← name
    let _ ← implementing
    let _ ← directives true
    let _ ← fields
    return .other
  | "union" =>
    keyword "union"
    let _ ← name
    let _ ← directives true
    let _ ← unionMembers
    return .other
  | "enum" =>
    keyword "enum"
    let n ← name
    let _ ← directives true
    return .enum n (← enumValues)
  | "input" =>
    keyword "input"
    let n ← name
    let _ ← directives true
    return .input n (← inputFields)
  | "directive" =>
    directiveDefinition
    return .other
  | _ => failure

/-- An extension has to add something. -/
def adding (parts : List Bool) : Reader Definition :=
  if parts.any id then return .other else failure

def extension : Reader Definition := do
  keyword "extend"
  match ← name with
  | "schema" =>
    let d ← directives true
    let o ← optionalMany "\x7b" operationTypeDefinition "\x7d"
    adding [d, !o.isEmpty]
  | "scalar" =>
    let _ ← name
    adding [← directives true]
  | "type" | "interface" =>
    let _ ← name
    let i ← implementing
    let d ← directives true
    let f ← fields
    adding [i, d, !f.isEmpty]
  | "union" =>
    let _ ← name
    let d ← directives true
    let m ← unionMembers
    adding [d, m]
  | "enum" =>
    let _ ← name
    let d ← directives true
    let v ← enumValues
    adding [d, !v.isEmpty]
  | "input" =>
    let _ ← name
    let d ← directives true
    let f ← inputFields
    adding [d, !f.isEmpty]
  | _ => failure

def typeWords : List String :=
  ["schema", "scalar", "type", "interface", "union", "enum", "input", "directive"]

/-- A definition. Descriptions stand before definitions of types and before named operations and
fragments. -/
def definition : Reader Definition := do
  let described := (← peek) = some .string
  let first ← if described then lookahead else peek
  match first with
  | some (.mark "\x7b") =>
    if described then failure
    selectionSet
    return .other
  | some (.name word) =>
    if typeWords.contains word then
      description
      typeDefinition word
    else if operationTypes.contains word then
      description
      operation
      return .other
    else if word == "fragment" then
      description
      fragment
      return .other
    else if word == "extend" && !described then extension
    else failure
  | _ => failure

def documentAux : Nat → Reader Document
  | 0 => failure
  | fuel + 1 => do
    if (← get).isEmpty then return []
    else
      let d ← definition
      return d :: (← documentAux fuel)

def document : Reader Document := do
  let first ← definition
  return first :: (← documentAux ((← size) + 1))

def whole? {α : Type} (reader : Reader α) (text : String) : Option α := do
  let tokens ← tokenize? text
  let (a, rest) ← reader.run tokens
  if rest.isEmpty then some a else none

def parseDocument? (text : String) : Option Document := whole? document text

def parseType? (text : String) : Option TypeRef := whole? typeRef text

end ContractInference.Sdl
