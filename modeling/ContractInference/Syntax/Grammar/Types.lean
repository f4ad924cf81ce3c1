import ContractInference.Syntax.Grammar.Functions

/-!
# Types

Type expressions from the tightest binding to the loosest: primary types with array and lookup
suffixes, intersections, unions, conditional types.
-/

namespace ContractInference.Grammar

def predefinedTypes : List String :=
  ["any", "number", "boolean", "string", "symbol", "void", "unknown", "never", "object"]

def typeWords : List String :=
  ["keyof", "typeof", "infer", "readonly", "new", "this", "true", "false", "null", "undefined",
    "void", "import", "const", "unique", "abstract"]

/-- The word before an accessor or asynchronous method, or the star of a generator. -/
def methodMark (rules : Rules) : Rule (List Draft) := do
  let async ← optionally (modifier rules ["async"] <|> (do
    let d ← keyword "async"
    ahead (token "*")
    return d))
  let kind ← optionally (modifier rules ["get", "set"] <|> token "*")
  return async ++ kind

def propertyModifiers (rules : Rules) : Rule (List Draft) := do
  let access ← accessibility rules
  let static ← optionally (modifier rules ["static"])
  let overrides ← overriding rules
  let readonly ← optionally (modifier rules ["readonly"])
  return access ++ static ++ overrides ++ readonly

def optionalMark : Rule (List Draft) := optionally (tokenBut "?" ['.', '?'])

def methodSignature (rules : Rules) : Rule Draft := do
  let modifiers ← propertyModifiers rules
  let mark ← methodMark rules
  let name ← as "name" <$> propertyName rules
  let question ← optionalMark
  let sig ← signature rules
  return branch "method_signature" (modifiers ++ mark ++ name :: question ++ sig)

def propertySignature (rules : Rules) : Rule Draft := do
  let modifiers ← propertyModifiers rules
  let name ← as "name" <$> propertyName rules
  let question ← optionalMark
  let type ← typeMark? rules
  return branch "property_signature" (modifiers ++ name :: question ++ type)

def constructSignature (rules : Rules) : Rule Draft := do
  let abstractMark ← optionally (do
    let d ← keyword "abstract"
    ahead (keyword "new")
    return d)
  let mark ← keyword "new"
  let generics ← typeParameters? rules
  let list ← as "parameters" <$> parameters rules
  let type ← typeMark? rules
  return branch "construct_signature" (abstractMark ++ mark :: generics ++ list :: type)

def mappedClause (rules : Rules) : Rule Draft := do
  let name ← as "name" <$> typeIdentifier
  let mark ← keyword "in"
  let type ← as "type" <$> rules .type
  let renamed ← optionalList do
    let mark ← keyword "as"
    return [mark, as "alias" (← rules .type)]
  return branch "mapped_type_clause" (name :: mark :: type :: renamed)

/-- The annotation of an index signature, which can add or omit the optional mark. -/
def indexMark (rules : Rules) : Rule Draft :=
  choose [
    typeMark rules,
    (do
      let mark ← choose [token "-?:", token "+?:", token "?:"]
      let type ← rules .type
      let kind := match mark.label.kind with
        | "-?:" => "omitting_type_annotation"
        | "+?:" => "adding_type_annotation"
        | _ => "opting_type_annotation"
      return branch kind [mark, type])]

def indexSignature (rules : Rules) : Rule Draft := do
  let readonly ← optionalList do
    let sign ← optionally (as "sign" <$> (token "-" <|> token "+"))
    let mark ← keyword "readonly"
    return sign ++ [mark]
  let opening ← token "["
  let inner ← bracketed ((do
      let name ← as "name" <$> wordAs "identifier"
      let colon ← token ":"
      let type ← as "index_type" <$> rules .type
      return [name, colon, type]) <|>
    (fun d => [d]) <$> mappedClause rules)
  let closing ← token "]"
  let type ← as "type" <$> indexMark rules
  return branch "index_signature" (readonly ++ opening :: inner ++ [closing, type])

def callSignature (rules : Rules) : Rule Draft := branch "call_signature" <$> signature rules

def typeMember (rules : Rules) : Rule Draft :=
  choose [constructSignature rules, indexSignature rules, callSignature rules,
    methodSignature rules, propertySignature rules]

/-- Members with one separator between neighbours, and one before and after them if wanted. -/
def objectBody (kind : String) (rules : Rules) : Rule Draft := do
  let opening ← token "\x7b"
  let members ← unbracketed <| optionalList do
    let lead ← optionally (token "," <|> token ";")
    let first ← typeMember rules
    let rest ← many do
      let mark ← ((fun d => [d]) <$> token ",") <|> semicolonOr true
      return mark ++ [← typeMember rules]
    let last ← optionally (token "," <|> token ";")
    return lead ++ first :: rest.flatten ++ last
  let closing ← token "\x7d"
  return branch kind (opening :: members ++ [closing])

def typeName : Rule Draft := do
  let (d, text) ← word
  require (!typeWords.contains text)
  return if predefinedTypes.contains text then
      branch "predefined_type" [leaf text false d.label.start d.label.stop]
    else rename "type_identifier" d

def namedType (rules : Rules) : Rule Draft := do
  let first ← typeName
  let name ← grow (fun d => do
    let dot ← tokenBut "." ['.']
    let next ← typeIdentifier
    let scope := if d.label.kind == "nested_type_identifier" then rename "nested_identifier" d
      else rename "identifier" d
    return branch "nested_type_identifier" [as "module" scope, dot, as "name" next]) first
  (do
    require (name.label.kind != "predefined_type")
    let list ← typeArguments rules
    return branch "generic_type" [as "name" name, as "type_arguments" list]) <|> pure name

def arguments (rules : Rules) : Rule Draft := do
  let item := rules .expression <|> (do
    let dots ← token "..."
    return branch "spread_element" [dots, ← rules .expression])
  return branch "arguments" (← enclosed "(" (sparseList item) ")")

/-- The module of an imported type, and the members and calls after it. -/
def importedType (rules : Rules) : Rule Draft := do
  let mark ← keyword "import"
  let list ← arguments rules
  let call := branch "call_expression"
    [as "function" (rename "import" (branch "import" [mark])), as "arguments" list]
  let type ← grow (fun d => do
    let dot ← tokenBut "." ['.']
    let name ← privateName <|> wordAs "property_identifier"
    return branch "member_expression" [as "object" d, dot, as "property" name]) call
  (do
    let list ← typeArguments rules
    return branch "generic_type" [as "name" type, as "type_arguments" list]) <|> pure type

def typeQuery (rules : Rules) : Rule Draft := do
  let mark ← keyword "typeof"
  let base ← choose [importedType rules, thisWord, wordAs "identifier"]
  let subject ← grow (fun d => choose [
    (do
      let dot ← tokenBut "." ['.'] <|> token "?."
      let name ← privateName <|> wordAs "property_identifier"
      return branch "member_expression" [as "object" d, dot, as "property" name]),
    (do
      let opening ← token "["
      let index ← choose [number, string]
      let closing ← token "]"
      return branch "subscript_expression"
        [as "object" d, opening, as "index" index, closing])]) base
  let full ← (do
    let list ← typeArguments rules
    return branch "instantiation_expression" [as "function" subject, as "type_arguments" list]) <|>
    pure subject
  return branch "type_query" [mark, full]

def functionType (rules : Rules) : Rule Draft := do
  let generics ← typeParameters? rules
  let list ← as "parameters" <$> parameters rules
  let arrow ← token "=>"
  let result ← as "return_type" <$> choose [asserts rules, typePredicate rules, rules .type]
  return branch "function_type" (generics ++ [list, arrow, result])

def constructorType (rules : Rules) : Rule Draft := do
  let abstractMark ← optionally (keyword "abstract")
  let mark ← keyword "new"
  let generics ← typeParameters? rules
  let list ← as "parameters" <$> parameters rules
  let arrow ← token "=>"
  let type ← as "type" <$> rules .type
  return branch "constructor_type" (abstractMark ++ mark :: generics ++ [list, arrow, type])

def tupleMember (rules : Rules) : Rule Draft :=
  choose [
    (do
      let dots ← token "..."
      let name ← wordAs "identifier"
      let type ← typeMark rules
      return branch "required_parameter"
        [as "name" (branch "rest_pattern" [dots, name]), as "type" type]),
    (do
      let name ← wordAs "identifier"
      let mark ← optionally (token "?")
      let type ← typeMark rules
      return branch (if mark.isEmpty then "required_parameter" else "optional_parameter")
        (as "name" name :: mark ++ [as "type" type])),
    (do
      let dots ← token "..."
      return branch "rest_type" [dots, ← rules .type]),
    (do
      let type ← rules .type
      let mark ← token "?"
      return branch "optional_type" [type, mark]),
    rules .type]

def tupleType (rules : Rules) : Rule Draft := do
  return branch "tuple_type" (← enclosed "[" (optionalList (commaListEnd (tupleMember rules))) "]")

def wordLiteral (texts : List String) : Rule Draft := do
  let (d, text) ← word
  require (texts.contains text)
  return rename text d

def literalType : Rule Draft := do
  let value ← choose [number, string, wordLiteral ["true", "false", "null", "undefined"], (do
    let sign ← token "-" <|> token "+"
    let value ← number
    return branch "unary_expression" [as "operator" sign, as "argument" value])]
  return branch "literal_type" [value]

def prefixedType (kind text : String) (below : Rule Draft) : Rule Draft := do
  let mark ← keyword text
  return branch kind [mark, ← below]

def inferType (rules : Rules) : Rule Draft := do
  let mark ← keyword "infer"
  let name ← typeIdentifier
  let bound ← optionalList do
    let mark ← keyword "extends"
    let type ← rules .primaryType
    notAhead (token "?")
    return [mark, type]
  return branch "infer_type" (mark :: name :: bound)

def parenthesizedType (rules : Rules) : Rule Draft := do
  return branch "parenthesized_type" (← enclosed "(" ((fun d => [d]) <$> rules .type) ")")

def primaryTypeBase (rules : Rules) : Rule Draft :=
  choose [
    functionType rules,
    parenthesizedType rules,
    objectBody "object_type" rules,
    tupleType rules,
    literalType,
    templateOf "template_literal_type" "string_fragment" "template_type" (rules .type),
    typeQuery rules,
    prefixedType "index_type_query" "keyof" (rules .primaryType),
    prefixedType "readonly_type" "readonly" (rules .type),
    inferType rules,
    constructorType rules,
    importedType rules,
    rename "this_type" <$> thisWord,
    (do
      let mark ← keyword "unique"
      let symbol ← keyword "symbol"
      return branch "predefined_type" [mark, symbol]),
    keyword "const",
    (fun d => branch "predefined_type" [d]) <$> keyword "void",
    namedType rules,
    (fun d => branch "existential_type" [d]) <$> token "*",
    (do
      let mark ← token "?"
      return branch "flow_maybe_type" [mark, ← rules .primaryType])]

def typeGoesOn : Rule Unit := do
  if (← read).lineEnds then notAhead (lineEndHere true) else pure ()

def primaryTypeRule (rules : Rules) : Rule Draft := do
  let base ← primaryTypeBase rules
  grow (fun d => do
    typeGoesOn
    let opening ← token "["
    (do
      let closing ← token "]"
      return branch "array_type" [d, opening, closing]) <|>
    (do
      let index ← bracketed (rules .type)
      let closing ← token "]"
      return branch "lookup_type" [d, opening, index, closing])) base

/-- Operands joined by a mark, which may also stand before the first one. -/
def joinedType (kind mark : String) (operand : Rule Draft) : Rule Draft := do
  let first ← (do
    let lead ← token mark
    return branch kind [lead, ← operand]) <|> operand
  grow (fun d => do
    let between ← token mark
    return branch kind [d, between, ← operand]) first

def unionType (rules : Rules) : Rule Draft :=
  joinedType "union_type" "|" (joinedType "intersection_type" "&" (primaryTypeRule rules))

def typeRule (rules : Rules) : Rule Draft := do
  let left ← unionType rules
  (do
    typeGoesOn
    let mark ← keyword "extends"
    let right ← rules .type
    let question ← token "?"
    let yes ← rules .type
    let colon ← token ":"
    let no ← rules .type
    return branch "conditional_type" [as "left" left, mark, as "right" right, question,
      as "consequence" yes, colon, as "alternative" no]) <|> pure left

end ContractInference.Grammar
