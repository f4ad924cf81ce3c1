import ContractInference.Syntax.Grammar.Literals

/-!
# Names

Which words can name a variable, and the forms a property name can take.
-/

namespace ContractInference.Grammar

/-- Words that never name a variable where types are not part of the language. -/
def reservedWords : List String :=
  ["break", "case", "catch", "class", "const", "continue", "debugger", "default", "delete", "do",
    "else", "export", "extends", "false", "finally", "for", "function", "if", "import", "in",
    "instanceof", "new", "null", "return", "super", "switch", "this", "throw", "true", "try",
    "typeof", "var", "void", "while", "with"]

def operandWords : List String :=
  ["this", "super", "true", "false", "null", "undefined", "function", "class", "new", "typeof",
    "void", "delete", "await", "yield", "import"]

/-- A word that stands for a variable in an expression. In the typed language a word is reserved
only where it could be read as a keyword. -/
def identifier : Rule Draft := do
  let (d, text) ← word
  require (!operandWords.contains text)
  require ((← typed) || !reservedWords.contains text)
  return d

/-- A word that a declaration binds. -/
def bindingIdentifier : Rule Draft := do
  let (d, text) ← word
  require ((← typed) || !reservedWords.contains text)
  return d

def wordAs (kind : String) : Rule Draft := do
  let (d, _) ← word
  return rename kind d

def typeIdentifier : Rule Draft := wordAs "type_identifier"

def privateName : Rule Draft := do
  skip
  let i ← position
  exactly "#"
  match wordEnd? (← read).source (i + 1) with
  | some j =>
    moveTo j
    return leaf "private_property_identifier" true i j
  | none => failure

def computedName (rules : Rules) : Rule Draft := do
  return branch "computed_property_name" (← enclosed "[" ((fun d => [d]) <$> rules .expression) "]")

def propertyName (rules : Rules) : Rule Draft :=
  choose [wordAs "property_identifier", string, number, computedName rules, privateName]

/-- A word that qualifies the property name after it. -/
def modifier (rules : Rules) (texts : List String) : Rule Draft := do
  let d ← keywordOf texts
  ahead (propertyName rules)
  return d

def accessibility (rules : Rules) : Rule (List Draft) :=
  optionally do
    let d ← modifier rules ["public", "private", "protected"]
    return branch "accessibility_modifier" [d]

def overriding (rules : Rules) : Rule (List Draft) :=
  optionally do
    let d ← modifier rules ["override"]
    return branch "override_modifier" [d]

/-- The name after a decorator's mark, with the members and calls that follow it. -/
def decorator (rules : Rules) : Rule Draft := do
  let mark ← token "@"
  let base ← (do
    let inner ← enclosed "(" ((fun d => [d]) <$> rules .expression) ")"
    return branch "parenthesized_expression" inner) <|> identifier
  let body ← grow (fun d => choose [
    (do
      let dot ← tokenBut "." ['.']
      let name ← wordAs "property_identifier"
      return branch "member_expression" [as "object" d, dot, as "property" name]),
    (do
      let arguments ← enclosed "(" (sparseList (rules .expression)) ")"
      return branch "call_expression"
        [as "function" d, as "arguments" (branch "arguments" arguments)])]) base
  return branch "decorator" [mark, body]

end ContractInference.Grammar
