import ContractInference.Syntax.Grammar.Expressions

/-!
# Imports and exports

The statements that bind names of other modules and that offer names to them.
-/

namespace ContractInference.Grammar

def source : Rule Draft := as "source" <$> string

def fromClause : Rule (List Draft) := do
  let mark ← keyword "from"
  return [mark, ← source]

def importAttribute (rules : Rules) : Rule (List Draft) :=
  optionally do
    goesOn
    let mark ← keywordOf ["with", "assert"]
    let object ← objectLiteral rules
    return branch "import_attribute" [mark, object]

def exportedName : Rule Draft := string <|> wordAs "identifier"

def renamedName : Rule (List Draft) := do
  let name ← as "name" <$> exportedName
  let mark ← keyword "as"
  let local' ← as "alias" <$> bindingIdentifier
  return [name, mark, local']

def plainName : Rule (List Draft) := do
  notAhead (keyword "default")
  return [as "name" (← bindingIdentifier)]

/-- A list element with an optional word that marks it as a type. -/
def specifier (kind : String) (names : Rule (List Draft)) : Rule Draft :=
  let complete (parts : Rule (List Draft)) : Rule Draft := do
    let d ← branch kind <$> parts
    ahead (token "," <|> token "\x7d")
    return d
  complete (do
    require (← typed)
    let mark ← keywordOf ["type", "typeof"]
    return mark :: (← names)) <|> complete names

def namedImports : Rule Draft := do
  let item := specifier "import_specifier" (renamedName <|> plainName)
  return branch "named_imports" (← enclosed "\x7b" (optionalList (commaListEnd item)) "\x7d")

def namespaceImport : Rule Draft := do
  let star ← token "*"
  let mark ← keyword "as"
  return branch "namespace_import" [star, mark, ← bindingIdentifier]

def importClause : Rule Draft :=
  choose [
    (fun d => branch "import_clause" [d]) <$> (namespaceImport <|> namedImports),
    (do
      let name ← bindingIdentifier
      let rest ← optionalList do
        let comma ← token ","
        return [comma, ← namespaceImport <|> namedImports]
      return branch "import_clause" (name :: rest))]

def requireClause : Rule Draft := do
  require (← typed)
  let name ← bindingIdentifier
  let mark ← tokenBut "=" ['=', '>']
  let call ← keyword "require"
  let inner ← enclosed "(" ((fun d => [d]) <$> source) ")"
  return branch "import_require_clause" (name :: mark :: call :: inner)

def importBody : Rule (List Draft) :=
  (do
    let clause ← importClause
    return clause :: (← fromClause)) <|>
  ((fun d => [d]) <$> (requireClause <|> source))

def importStatement (rules : Rules) : Rule Draft := do
  let mark ← keyword "import"
  let parts ← (do
      require (← typed)
      let type ← keywordOf ["type", "typeof"]
      return type :: (← importBody)) <|> importBody
  let how ← importAttribute rules
  let last ← semicolon
  return branch "import_statement" (mark :: parts ++ how ++ last)

def nestedName : Rule Draft := do
  let base ← bindingIdentifier
  grow (fun d => do
    let dot ← tokenBut "." ['.']
    let next ← wordAs "property_identifier"
    return branch "nested_identifier" [as "object" d, dot, as "property" next]) base

def importAlias : Rule Draft := do
  require (← typed)
  let mark ← keyword "import"
  let name ← bindingIdentifier
  let equals ← tokenBut "=" ['=', '>']
  let target ← nestedName
  let last ← semicolon
  return branch "import_alias" (mark :: name :: equals :: target :: last)

def exportClause : Rule Draft := do
  let names : Rule (List Draft) := do
    let name ← as "name" <$> exportedName
    let rest ← optionalList do
      let mark ← keyword "as"
      return [mark, as "alias" (← exportedName)]
    return name :: rest
  let item := specifier "export_specifier" names
  return branch "export_clause" (← enclosed "\x7b" (optionalList (commaListEnd item)) "\x7d")

def namespaceExport : Rule Draft := do
  let star ← token "*"
  let mark ← keyword "as"
  return branch "namespace_export" [star, mark, ← exportedName]

def exportedNames (rules : Rules) : Rule (List Draft) := do
  let parts ← (do
      let what ← namespaceExport <|> token "*"
      return what :: (← fromClause)) <|>
    (do
      let clause ← exportClause
      return clause :: (← optionalList fromClause))
  let how ← importAttribute rules
  return parts ++ how ++ (← semicolon)

def typedExport (rules : Rules) : Rule (List Draft) := do
  require (← typed)
  (do
    let mark ← keyword "type"
    let clause ← exportClause
    let origin ← optionalList fromClause
    return mark :: clause :: origin ++ (← semicolon)) <|>
  (do
    let mark ← tokenBut "=" ['=', '>']
    let value ← rules .expression
    return mark :: value :: (← semicolon)) <|>
  (do
    let first ← keyword "as"
    let second ← keyword "namespace"
    let name ← bindingIdentifier
    return first :: second :: name :: (← semicolon))

/-- An export statement, where `declaration` reads what can be declared in it. -/
def exportStatement (declaration : Rule Draft) (rules : Rules) : Rule Draft := do
  let decorators ← many (as "decorator" <$> decorator rules)
  let mark ← keyword "export"
  let parts ←
    (if decorators.isEmpty then exportedNames rules <|> typedExport rules else failure) <|>
    (do
      let default ← keyword "default"
      (do
        let d ← as "declaration" <$> declaration
        return [default, d]) <|>
      (do
        let value ← as "value" <$> rules .expression
        return default :: value :: (← semicolon))) <|>
    (do
      let d ← as "declaration" <$> declaration
      return [d])
  return branch "export_statement" (decorators ++ mark :: parts)

end ContractInference.Grammar
