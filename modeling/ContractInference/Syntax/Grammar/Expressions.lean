import ContractInference.Syntax.Grammar.Classes
import ContractInference.Syntax.Grammar.Markup

/-!
# Expressions

Operands with their suffixes, binary operators by precedence, conditional expressions,
assignments and functions.
-/

namespace ContractInference.Grammar

/-- All operator tokens, a longer one before its prefixes. -/
def operatorTokens : List String :=
  [">>>=", "...", "===", "!==", ">>>", "<<=", ">>=", "**=", "&&=", "||=", "??=", "=>", "==", "!=",
    "<=", ">=", "&&", "||", "??", "++", "--", "+=", "-=", "*=", "/=", "%=", "&=", "|=", "^=", "<<",
    ">>", "**", "?.", "<", ">", "+", "-", "*", "/", "%", "&", "|", "^", "=", "?", "!", "~"]

def operatorToken : Rule Draft := choose (operatorTokens.map token)

inductive Grouping where
  | left
  | right
deriving DecidableEq, Repr

/-- How tightly a binary operator binds, and to which side. -/
def precedence? : String → Option (Nat × Grouping)
  | "??" => some (1, .left)
  | "||" => some (2, .left)
  | "&&" => some (3, .left)
  | "|" => some (4, .left)
  | "^" => some (5, .left)
  | "&" => some (6, .left)
  | "==" | "!=" | "===" | "!==" => some (7, .left)
  | "<" | "<=" | ">" | ">=" | "in" | "instanceof" => some (8, .left)
  | "<<" | ">>" | ">>>" => some (9, .left)
  | "+" | "-" => some (10, .left)
  | "*" | "/" | "%" => some (11, .left)
  | "**" => some (12, .right)
  | _ => none

/-- Where a type can be attached to an expression, relative to the binary operators. -/
def ascriptionPrecedence : Nat := 8

def assignmentTokens : List String :=
  ["+=", "-=", "*=", "/=", "%=", "^=", "&=", "|=", ">>=", ">>>=", "<<=", "**=", "&&=", "||=", "??="]

/-- What can stand left of an assignment. -/
def assignableKinds : List String :=
  ["identifier", "member_expression", "subscript_expression", "parenthesized_expression",
    "non_null_expression", "undefined"]

def spread (rules : Rules) : Rule Draft := do
  let dots ← token "..."
  return branch "spread_element" [dots, ← rules .expression]

def arrayLiteral (rules : Rules) : Rule Draft := do
  return branch "array" (← enclosed "[" (sparseList (spread rules <|> rules .expression)) "]")

def objectProperty (rules : Rules) : Rule Draft :=
  choose [
    (do
      let key ← propertyName rules
      let colon ← token ":"
      let value ← rules .expression
      return branch "pair" [as "key" key, colon, as "value" value]),
    methodDefinition rules,
    spread rules,
    rename "shorthand_property_identifier" <$> bindingIdentifier]

def objectLiteral (rules : Rules) : Rule Draft := do
  return branch "object" (← enclosed "\x7b" (sparseList (objectProperty rules)) "\x7d")

def parenthesized (rules : Rules) : Rule Draft := do
  let inner : Rule (List Draft) := do
    let d ← rules .sequence
    return d :: (← typeMark? rules)
  return branch "parenthesized_expression" (← enclosed "(" inner ")")

def functionExpression (rules : Rules) : Rule Draft := do
  let async ← optionally (keyword "async")
  let mark ← keyword "function"
  let star ← optionally (token "*")
  let name ← optionally (as "name" <$> bindingIdentifier)
  let sig ← signature rules
  let code ← body rules
  return branch (if star.isEmpty then "function_expression" else "generator_function")
    (async ++ mark :: star ++ name ++ sig ++ [code])

def metaProperty (first second : String) : Rule Draft := do
  let d ← keyword first
  let dot ← token "."
  let e ← keyword second
  return branch "meta_property" [d, dot, e]

def importWord : Rule Draft := rename "import" <$> (do
  let (d, text) ← word
  require (text == "import")
  let next ← peek
  require (next == some '(' || next == some '.')
  return d)

def wordOperand (rules : Rules) : Rule Draft := do
  let text ← peekWord
  match text with
  | "function" => functionExpression rules
  | "class" => classExpression rules
  | "async" => functionExpression rules <|> identifier
  | "import" => metaProperty "import" "meta" <|> importWord
  | "this" | "super" | "true" | "false" | "null" | "undefined" => wordLiteral [text]
  | _ => identifier

def primaryRule (rules : Rules) : Rule Draft := do
  match ← peek with
  | none => failure
  | some c =>
    if c = '(' then parenthesized rules
    else if c = '[' then arrayLiteral rules
    else if c = '\x7b' then objectLiteral rules
    else if c = '"' || c = '\'' then string
    else if c = '`' then template rules
    else if c.isDigit || c = '.' then number
    else if c = '/' then slashPattern
    else if c = '@' then classExpression rules
    else if c = '#' then privateName
    else wordOperand rules

def memberSuffix (rules : Rules) (d : Draft) : Rule Draft :=
  choose [
    (do
      let dot ← tokenBut "." ['.']
      let name ← privateName <|> wordAs "property_identifier"
      return branch "member_expression" [as "object" d, dot, as "property" name]),
    (do
      let mark ← token "?."
      let next ← charAt (← position)
      require (!(next.map Char.isDigit).getD false)
      let name ← privateName <|> wordAs "property_identifier"
      return branch "member_expression"
        [as "object" d, as "optional_chain" (branch "optional_chain" [mark]), as "property" name]),
    (do
      let mark ← optionally (token "?.")
      let opening ← token "["
      let index ← bracketed (rules .sequence)
      let closing ← token "]"
      return branch "subscript_expression"
        (as "object" d :: mark.map (fun m => as "optional_chain" (branch "optional_chain" [m])) ++
          [opening, as "index" index, closing]))]

/-- Tokens after which type arguments without a call are complete. -/
def endsInstantiation (next : Option Char) : Bool :=
  match next with
  | none => true
  | some c => ")],;:\x7d".toList.contains c

def typedCall (rules : Rules) (d : Draft) : Rule Draft := do
  require (← typed)
  let mark ← optionally (token "?.")
  let types ← as "type_arguments" <$> typeArguments rules
  (do
    let list ← arguments rules <|> template rules
    return branch "call_expression" (as "function" d :: mark ++ [types, as "arguments" list])) <|>
  (do
    require (mark.isEmpty && endsInstantiation (← peek))
    return branch "instantiation_expression" [as "function" d, types])

def callSuffix (rules : Rules) (d : Draft) : Rule Draft :=
  choose [
    (do
      let mark ← optionally (token "?.")
      let list ← arguments rules
      return branch "call_expression" (as "function" d :: mark ++ [as "arguments" list])),
    (do
      let list ← template rules
      return branch "call_expression" [as "function" d, as "arguments" list]),
    typedCall rules d]

def nonNullSuffix (d : Draft) : Rule Draft := do
  require (← typed)
  goesOn
  let mark ← tokenBut "!" ['=']
  return branch "non_null_expression" [d, mark]

def updateSuffix (d : Draft) : Rule Draft := do
  goesOn
  let mark ← token "++" <|> token "--"
  return branch "update_expression" [as "argument" d, as "operator" mark]

/-- The constructor of a new object: members of it are read, calls are not. -/
def newTargetAux (rules : Rules) (base : Rule Draft) : Rule Draft := do
  let target ← metaProperty "new" "target" <|> base
  grow (memberSuffix rules) target

def newExpression (rules : Rules) : Rule Draft := do
  let mark ← keyword "new"
  let target ← as "constructor" <$>
    ((do
      require ((← peekWord) == "new")
      rules .operand) <|> newTargetAux rules (primaryRule rules))
  let rest ← optionalList ((do
      require (← typed)
      let types ← as "type_arguments" <$> typeArguments rules
      return types :: (← optionally (as "arguments" <$> arguments rules))) <|>
    (do return [← as "arguments" <$> arguments rules]))
  return branch "new_expression" (mark :: target :: rest)

def suffixed (rules : Rules) : Rule Draft := do
  let base ← if (← peekWord) == "new" then metaProperty "new" "target" <|> newExpression rules
    else primaryRule rules
  grow (fun d =>
    choose [memberSuffix rules d, callSuffix rules d, nonNullSuffix d, updateSuffix d]) base

def unaryWords : List String := ["typeof", "void", "delete"]

def unaryExpression (rules : Rules) : Rule Draft := do
  let mark ← choose [tokenBut "!" [], tokenBut "~" [], tokenBut "-" ['-'], tokenBut "+" ['+'],
    keywordOf unaryWords]
  let argument ← rules .operand
  return branch "unary_expression" [as "operator" mark, as "argument" argument]

def updateExpression (rules : Rules) : Rule Draft := do
  let mark ← token "++" <|> token "--"
  let argument ← rules .operand
  return branch "update_expression" [as "operator" mark, as "argument" argument]

def awaitExpression (rules : Rules) : Rule Draft := do
  let mark ← keyword "await"
  return branch "await_expression" [mark, ← rules .operand]

def yieldExpression (rules : Rules) : Rule Draft := do
  let mark ← keyword "yield"
  let rest ← (do
      let star ← token "*"
      return [star, ← rules .expression]) <|>
    optionally (do
      goesOn
      rules .expression)
  return branch "yield_expression" (mark :: rest)

def arrowFunction (rules : Rules) : Rule Draft := do
  let async ← optionally (do
    let d ← keyword "async"
    notAhead (token "=>")
    return d)
  let head ← (do
      let name ← identifier
      ahead (token "=>")
      return [as "parameter" name]) <|> signature rules
  let arrow ← token "=>"
  let code ← as "body" <$> (rules .block <|> rules .expression)
  return branch "arrow_function" (async ++ head ++ [arrow, code])

def typeAssertion (rules : Rules) : Rule Draft := do
  let dialect := (← read).dialect
  require (dialect.typed && !dialect.markup)
  let types ← typeArguments rules
  let value ← rules .operand
  return branch "type_assertion" [types, value]

def patternAssignment (rules : Rules) : Rule Draft := do
  let left ← as "left" <$> destructuring rules
  let mark ← tokenBut "=" ['=', '>']
  let right ← as "right" <$> rules .expression
  return branch "assignment_expression" [left, mark, right]

def assignment (rules : Rules) (left : Draft) : Rule Draft := do
  require (isOneOf assignableKinds left)
  let mark ← operatorToken
  if mark.label.kind == "=" then
    let right ← rules .expression
    return branch "assignment_expression" [as "left" left, mark, as "right" right]
  else
    require (assignmentTokens.contains mark.label.kind)
    let right ← rules .expression
    return branch "augmented_assignment_expression"
      [as "left" left, as "operator" mark, as "right" right]

def plainOperand (rules : Rules) : Rule Draft :=
  (do
    let d ← suffixed rules
    if isOneOf ["object", "array"] d then
      notAhead (tokenBut "=" ['=', '>'])
      return d
    else assignment rules d <|> pure d) <|> patternAssignment rules

/-- An arrow function is tried first where one can start. -/
def operandRule (rules : Rules) : Rule Draft := do
  let c ← peek
  match c with
  | none => failure
  | some c =>
    if c = '!' || c = '~' then unaryExpression rules
    else if c = '-' || c = '+' then unaryExpression rules <|> updateExpression rules
    else if c = '(' then arrowFunction rules <|> plainOperand rules
    else if c = '<' then
      arrowFunction rules <|> rules .element <|> typeAssertion rules
    else if isWordStop c && c ≠ '\\' || c.isDigit then plainOperand rules
    else
      let text ← peekWord
      if unaryWords.contains text then unaryExpression rules
      else if text == "await" then awaitExpression rules
      else if text == "yield" then yieldExpression rules
      else arrowFunction rules <|> plainOperand rules

inductive Joiner where
  | binary (mark : Draft)
  | ascription (mark : Draft)

def binaryOperator : Rule (Joiner × Nat × Grouping) :=
  (do
    let mark ← operatorToken
    match precedence? mark.label.kind with
    | some (n, g) => return (.binary mark, n, g)
    | none => failure) <|>
  (do
    let mark ← keywordOf ["in", "instanceof", "as", "satisfies"]
    match precedence? mark.label.kind with
    | some (n, g) => return (.binary mark, n, g)
    | none =>
      require (← typed)
      return (.ascription mark, ascriptionPrecedence, .left))

/-- Goes on from a left operand with operators that bind at least as tightly as `least`. -/
def climb (rules : Rules) : Nat → Nat → Draft → Rule Draft
  | 0, _, left => pure left
  | fuel + 1, least, left => do
    let next ← optional (do
      let (op, n, g) ← (do
        match ← peekWord with
        | "" => binaryOperator
        | _ =>
          goesOn
          binaryOperator)
      require (least ≤ n)
      match op with
      | .binary mark =>
        let first ← rules .operand
        let right ← climb rules fuel (if g = .left then n + 1 else n) first
        return branch "binary_expression" [as "left" left, as "operator" mark, as "right" right]
      | .ascription mark =>
        let kind := if mark.label.kind == "as" then "as_expression" else "satisfies_expression"
        let type ← keyword "const" <|> rules .type
        return branch kind [left, mark, type])
    match next with
    | none => pure left
    | some d => climb rules fuel least d

def conditional (rules : Rules) (test : Draft) : Rule Draft := do
  let question ← token "?"
  match ← charAt (← position) with
  | some '?' => failure
  | some '.' => require (((← charAt ((← position) + 1)).map Char.isDigit).getD false)
  | _ => pure ()
  let branches : Rule (List Draft) := do
    let yes ← rules .expression
    let colon ← token ":"
    return [as "consequence" yes, colon]
  let first ← branches <|> withReader ({ · with resultTypes := false }) branches
  let no ← rules .expression
  return branch "ternary_expression"
    (as "condition" test :: question :: first ++ [as "alternative" no])

def expressionRule (rules : Rules) : Rule Draft := do
  let first ← rules .operand
  let d ← climb rules ((← read).source.size - (← position) + 1) 1 first
  conditional rules d <|> pure d

def sequenceRule (rules : Rules) : Rule Draft := do
  match ← commaList (rules .expression) with
  | [single] => pure single
  | several => return branch "sequence_expression" several

end ContractInference.Grammar
