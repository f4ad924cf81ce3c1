import ContractInference.Syntax.Grammar.Types

/-!
# Classes and methods
-/

namespace ContractInference.Grammar

def methodDefinition (rules : Rules) : Rule Draft := do
  let modifiers ← if ← typed then propertyModifiers rules
    else optionally (modifier rules ["static"])
  let mark ← methodMark rules
  let name ← as "name" <$> propertyName rules
  let question ← if ← typed then optionalMark else pure []
  let sig ← signature rules
  let code ← body rules
  return branch "method_definition" (modifiers ++ mark ++ name :: question ++ sig ++ [code])

def staticBlock (rules : Rules) : Rule Draft := do
  let mark ← keyword "static"
  let code ← body rules
  return branch "class_static_block" [mark, code]

def abstractMethod (rules : Rules) : Rule Draft := do
  let access ← accessibility rules
  let mark ← modifier rules ["abstract"]
  let overrides ← overriding rules
  let kind ← methodMark rules
  let name ← as "name" <$> propertyName rules
  let question ← optionalMark
  let sig ← signature rules
  return branch "abstract_method_signature"
    (access ++ mark :: overrides ++ kind ++ name :: question ++ sig)

def fieldWords : List String :=
  ["declare", "public", "private", "protected", "static", "override", "readonly", "abstract",
    "accessor"]

def typedField (rules : Rules) : Rule Draft := do
  let decorators ← many (as "decorator" <$> decorator rules)
  let modifiers ← many (do
    let d ← modifier rules fieldWords
    let text := d.label.kind
    return if ["public", "private", "protected"].contains text then
        branch "accessibility_modifier" [d]
      else if text == "override" then branch "override_modifier" [d]
      else d)
  let name ← as "name" <$> propertyName rules
  let mark ← optionally (tokenBut "?" ['.', '?'] <|> tokenBut "!" ['='])
  let type ← typeMark? rules
  let value ← optionalList (initializer rules)
  return branch "public_field_definition" (decorators ++ modifiers ++ name :: mark ++ type ++ value)

def untypedField (rules : Rules) : Rule Draft := do
  let decorators ← many (as "decorator" <$> decorator rules)
  let modifiers ← optionally (modifier rules ["static"])
  let name ← as "property" <$> propertyName rules
  let value ← optionalList (initializer rules)
  return branch "field_definition" (decorators ++ modifiers ++ name :: value)

def method (rules : Rules) : Rule (List Draft) := do
  let decorators ← many (as "decorator" <$> decorator rules)
  let code ← methodDefinition rules
  return decorators ++ [code] ++ (← optionally (token ";"))

/-- A member that ends with a separator or with its line. -/
def lineMember (inType : Bool) (rule : Rule Draft) : Rule (List Draft) := do
  let member ← rule
  let mark ← ((fun d => [d]) <$> token ",") <|> semicolonOr inType
  return member :: mark

def classMember (rules : Rules) : Rule (List Draft) := do
  let alternatives := if ← typed then
      [method rules,
        (fun d => [d]) <$> staticBlock rules,
        lineMember true (abstractMethod rules),
        lineMember true (indexSignature rules),
        lineMember true (methodSignature rules),
        lineMember false (typedField rules)]
    else
      [method rules,
        (fun d => [d]) <$> staticBlock rules,
        do
          let member ← untypedField rules
          return member :: (← semicolon)]
  alternatives.foldr (· <|> ·) ((fun d => [d]) <$> token ";")

def classBody (rules : Rules) : Rule Draft := do
  let opening ← token "\x7b"
  let members ← unbracketed (many (classMember rules))
  let closing ← token "\x7d"
  return branch "class_body" (opening :: members.flatten ++ [closing])

def extendsClause (rules : Rules) : Rule (List Draft) := do
  let mark ← keyword "extends"
  if ← typed then
    let parents ← commaList (as "value" <$> rules .operand)
    let generics ← optionally (as "type_arguments" <$> typeArguments rules)
    return [branch "extends_clause" (mark :: parents ++ generics)]
  else
    return [mark, ← rules .operand]

def implementsClause (rules : Rules) : Rule (List Draft) := do
  require (← typed)
  let mark ← keyword "implements"
  let types ← commaList (rules .type)
  return [branch "implements_clause" (mark :: types)]

def heritage (rules : Rules) : Rule (List Draft) := do
  let parents ← optionalList (extendsClause rules)
  let interfaces ← optionalList (implementsClause rules)
  let clauses := parents ++ interfaces
  return if clauses.isEmpty then [] else [branch "class_heritage" clauses]

def className : Rule Draft := do
  let name ← if ← typed then typeIdentifier else bindingIdentifier
  let source := (← read).source
  require !(["extends", "implements"].contains (slice source name.label.start name.label.stop))
  return as "name" name

/-- The parts of a class after its keyword, under the given kind. -/
def classAfter (kind : String) (before : List Draft) (name : Rule (List Draft)) (rules : Rules) :
    Rule Draft := do
  let names ← name
  let generics ← typeParameters? rules
  let parents ← heritage rules
  let code ← as "body" <$> classBody rules
  return branch kind (before ++ names ++ generics ++ parents ++ [code])

def classDeclaration (rules : Rules) : Rule Draft := do
  let decorators ← many (as "decorator" <$> decorator rules)
  (do
    require (← typed)
    let abstractMark ← keyword "abstract"
    let mark ← keyword "class"
    classAfter "abstract_class_declaration" (decorators ++ [abstractMark, mark])
      ((fun d => [d]) <$> className) rules) <|>
  (do
    let mark ← keyword "class"
    classAfter "class_declaration" (decorators ++ [mark]) ((fun d => [d]) <$> className) rules)

def classExpression (rules : Rules) : Rule Draft := do
  let decorators ← many (as "decorator" <$> decorator rules)
  let mark ← keyword "class"
  classAfter "class" (decorators ++ [mark]) (optionally className) rules

end ContractInference.Grammar
