import ContractInference.Syntax.Grammar.Names

/-!
# Patterns, parameters and signatures

What a declaration can bind, and the parameter lists and result types of functions.
-/

namespace ContractInference.Grammar

def typeMark (rules : Rules) : Rule Draft := do
  let colon ← token ":"
  let type ← rules .type
  return branch "type_annotation" [colon, type]

def typeMark? (rules : Rules) : Rule (List Draft) := do
  if ← typed then optionally (as "type" <$> typeMark rules) else pure []

/-- What a function's result says about an argument: `x is T`. -/
def typePredicate (rules : Rules) : Rule Draft := do
  let name ← (keyword "this" >>= fun d => pure (branch "this" [d])) <|> identifier
  let mark ← keyword "is"
  let type ← rules .type
  return branch "type_predicate" [as "name" name, mark, as "type" type]

def asserts (rules : Rules) : Rule Draft := do
  let mark ← keyword "asserts"
  let body ← choose [typePredicate rules, wordAs "identifier"]
  return branch "asserts" [mark, body]

def resultType (rules : Rules) : Rule Draft :=
  choose [
    (do
      let colon ← token ":"
      let body ← asserts rules
      return branch "asserts_annotation" [colon, body]),
    (do
      let colon ← token ":"
      let body ← typePredicate rules
      return branch "type_predicate_annotation" [colon, body]),
    typeMark rules]

def typeParameter (rules : Rules) : Rule Draft := do
  let mark ← optionally do
    let d ← keyword "const"
    ahead word
    return d
  let name ← typeIdentifier
  let bound ← optionally do
    let mark ← keyword "extends" <|> token ":"
    let type ← rules .type
    return as "constraint" (branch "constraint" [mark, type])
  let value ← optionally do
    let mark ← tokenBut "=" ['=', '>']
    let type ← rules .type
    return as "value" (branch "default_type" [mark, type])
  return branch "type_parameter" (mark ++ as "name" name :: bound ++ value)

def typeParameters (rules : Rules) : Rule Draft := do
  return branch "type_parameters" (← enclosed "<" (commaListEnd (typeParameter rules)) ">")

def typeParameters? (rules : Rules) : Rule (List Draft) := do
  if ← typed then optionally (as "type_parameters" <$> typeParameters rules) else pure []

def typeArguments (rules : Rules) : Rule Draft := do
  return branch "type_arguments" (← enclosed "<" (commaListEnd (rules .type)) ">")

def initializer (rules : Rules) : Rule (List Draft) := do
  let mark ← tokenBut "=" ['=', '>']
  let value ← rules .expression
  return [mark, as "value" value]

def assignmentPattern (rules : Rules) : Rule Draft := do
  let left ← rules .pattern
  let mark ← tokenBut "=" ['=', '>']
  let right ← rules .expression
  return branch "assignment_pattern" [as "left" left, mark, as "right" right]

def restPattern (rules : Rules) : Rule Draft := do
  let dots ← token "..."
  let rest ← rules .pattern
  return branch "rest_pattern" [dots, rest]

def patternProperty (rules : Rules) : Rule Draft :=
  choose [
    (do
      let key ← propertyName rules
      let colon ← token ":"
      let value ← assignmentPattern rules <|> rules .pattern
      return branch "pair_pattern" [as "key" key, colon, as "value" value]),
    restPattern rules,
    (do
      let left ← bindingIdentifier
      let mark ← tokenBut "=" ['=', '>']
      let right ← rules .expression
      return branch "object_assignment_pattern"
        [as "left" (rename "shorthand_property_identifier_pattern" left), mark, as "right" right]),
    rename "shorthand_property_identifier_pattern" <$> bindingIdentifier]

def objectPattern (rules : Rules) : Rule Draft := do
  return branch "object_pattern" (← enclosed "\x7b" (sparseList (patternProperty rules)) "\x7d")

def arrayPattern (rules : Rules) : Rule Draft := do
  return branch "array_pattern"
    (← enclosed "[" (sparseList (assignmentPattern rules <|> rules .pattern)) "]")

def destructuring (rules : Rules) : Rule Draft := objectPattern rules <|> arrayPattern rules

/-- The name or destructuring pattern of a declaration. -/
def binding (rules : Rules) : Rule Draft := destructuring rules <|> bindingIdentifier

def thisWord : Rule Draft := rename "this" <$> (do
  let (d, text) ← word
  require (text == "this")
  return d)

def memberPattern (rules : Rules) : Rule Draft := do
  let base ← thisWord <|> identifier
  grow (fun d => choose [
    (do
      let dot ← tokenBut "." ['.']
      let name ← privateName <|> wordAs "property_identifier"
      return branch "member_expression" [as "object" d, dot, as "property" name]),
    (do
      let opening ← token "["
      let index ← bracketed (rules .sequence)
      let closing ← token "]"
      return branch "subscript_expression"
        [as "object" d, opening, as "index" index, closing])]) base

def patternRule (rules : Rules) : Rule Draft :=
  choose [destructuring rules, restPattern rules, memberPattern rules]

def parameterModifier (texts : List String) (kind : String) : Rule (List Draft) :=
  optionally do
    let d ← keywordOf texts
    let next ← peek
    require (!(next == none || [',', ')', ':', '?', '='].contains (next.getD ' ')))
    return if kind == "" then d else branch kind [d]

def typedParameter (rules : Rules) : Rule Draft := do
  let decorators ← many (as "decorator" <$> decorator rules)
  let access ← parameterModifier ["public", "private", "protected"] "accessibility_modifier"
  let overrides ← parameterModifier ["override"] "override_modifier"
  let readonly ← parameterModifier ["readonly"] ""
  let pattern ← thisWord <|> patternRule rules
  let mark ← optionally (tokenBut "?" ['.'])
  let type ← typeMark? rules
  let value ← optionalList (initializer rules)
  let kind := if mark.isEmpty then "required_parameter" else "optional_parameter"
  return branch kind
    (decorators ++ access ++ overrides ++ readonly ++ as "pattern" pattern :: mark ++ type ++ value)

def parameter (rules : Rules) : Rule Draft := do
  if ← typed then typedParameter rules else assignmentPattern rules <|> patternRule rules

def parameters (rules : Rules) : Rule Draft := do
  return branch "formal_parameters"
    (← enclosed "(" (optionalList (commaListEnd (parameter rules))) ")")

def signature (rules : Rules) : Rule (List Draft) := do
  let generics ← typeParameters? rules
  let list ← as "parameters" <$> parameters rules
  let result ← if (← typed) && (← read).resultTypes then
      optionally (as "return_type" <$> resultType rules)
    else pure []
  return generics ++ list :: result

def body (rules : Rules) : Rule Draft := as "body" <$> rules .block

end ContractInference.Grammar
