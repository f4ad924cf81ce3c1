import ContractInference.Syntax.Grammar.Modules

/-!
# Statements and declarations
-/

namespace ContractInference.Grammar

def declarator (rules : Rules) : Rule Draft := do
  let name ← as "name" <$> binding rules
  let definite ← if ← typed then optionally (tokenBut "!" ['=']) else pure []
  let type ← typeMark? rules
  let value ← optionalList (initializer rules)
  return branch "variable_declarator" (name :: definite ++ type ++ value)

def variableDeclaration (rules : Rules) : Rule Draft := do
  let mark ← keyword "var"
  let list ← commaList (declarator rules)
  return branch "variable_declaration" (mark :: list ++ (← semicolon))

def lexicalDeclaration (rules : Rules) : Rule Draft := do
  let mark ← as "kind" <$> keywordOf ["let", "const"]
  let list ← commaList (declarator rules)
  return branch "lexical_declaration" (mark :: list ++ (← semicolon))

def functionHead (rules : Rules) : Rule (Bool × List Draft) := do
  let async ← optionally (keyword "async")
  let mark ← keyword "function"
  let star ← optionally (token "*")
  let name ← as "name" <$> bindingIdentifier
  let sig ← signature rules
  return (!star.isEmpty, async ++ mark :: star ++ name :: sig)

def functionDeclaration (rules : Rules) : Rule Draft := do
  let (generator, head) ← functionHead rules
  let code ← body rules
  return branch (if generator then "generator_function_declaration" else "function_declaration")
    (head ++ [code])

def functionSignature (rules : Rules) : Rule Draft := do
  require (← typed)
  let (_, head) ← functionHead rules
  return branch "function_signature" (head ++ (← semicolonOr true))

def extendsTypes (rules : Rules) : Rule Draft := do
  let mark ← keyword "extends"
  let types ← commaList (as "type" <$> namedType rules)
  return branch "extends_type_clause" (mark :: types)

def interfaceDeclaration (rules : Rules) : Rule Draft := do
  let mark ← keyword "interface"
  let name ← as "name" <$> typeIdentifier
  let generics ← typeParameters? rules
  let parents ← optionally (extendsTypes rules)
  let members ← as "body" <$> objectBody "interface_body" rules
  return branch "interface_declaration" (mark :: name :: generics ++ parents ++ [members])

def typeAlias (rules : Rules) : Rule Draft := do
  let mark ← keyword "type"
  let name ← as "name" <$> typeIdentifier
  let generics ← typeParameters? rules
  let equals ← tokenBut "=" ['=', '>']
  let value ← as "value" <$> rules .type
  return branch "type_alias_declaration"
    (mark :: name :: generics ++ equals :: value :: (← semicolonOr true))

def enumMember (rules : Rules) : Rule Draft := do
  let name ← as "name" <$> propertyName rules
  (do
    let value ← initializer rules
    return branch "enum_assignment" (name :: value)) <|> pure name

def enumDeclaration (rules : Rules) : Rule Draft := do
  let constant ← optionally (keyword "const")
  let mark ← keyword "enum"
  let name ← as "name" <$> wordAs "identifier"
  let members ← enclosed "\x7b" (optionalList (commaListEnd (enumMember rules))) "\x7d"
  return branch "enum_declaration"
    (constant ++ [mark, name, as "body" (branch "enum_body" members)])

def moduleNamed (kind text : String) (rules : Rules) : Rule Draft := do
  let mark ← keyword text
  let name ← as "name" <$> (string <|> nestedName)
  let code ← optionally (body rules)
  return branch kind (mark :: name :: code)

def ambientDeclaration (declaration : Rule Draft) (rules : Rules) : Rule Draft := do
  let mark ← keyword "declare"
  (do
    let globalMark ← keyword "global"
    let code ← rules .block
    return branch "ambient_declaration" [mark, globalMark, code]) <|>
  (do
    let d ← declaration
    return branch "ambient_declaration" [mark, d])

def untypedDeclaration (rules : Rules) : Rule Draft := do
  match ← peek with
  | some '@' => classDeclaration rules
  | _ =>
    match ← peekWord with
    | "var" => variableDeclaration rules
    | "let" | "const" => lexicalDeclaration rules
    | "function" | "async" => functionDeclaration rules
    | "class" | "abstract" => classDeclaration rules
    | _ => failure

def typedDeclaration (rules : Rules) : Rule Draft := do
  match ← peekWord with
  | "const" => enumDeclaration rules <|> lexicalDeclaration rules
  | "enum" => enumDeclaration rules
  | "interface" => interfaceDeclaration rules
  | "type" => typeAlias rules
  | "namespace" => moduleNamed "internal_module" "namespace" rules
  | "module" => moduleNamed "module" "module" rules
  | "import" => importAlias
  | "function" | "async" => functionDeclaration rules <|> functionSignature rules
  | _ => untypedDeclaration rules

def declaration (rules : Rules) : Rule Draft := do
  if ← typed then
    typedDeclaration rules <|>
      ambientDeclaration (typedDeclaration rules <|> lexicalDeclaration rules) rules
  else untypedDeclaration rules

/-- Words that start a statement and nothing else. -/
def statementWords : List String :=
  ["break", "case", "const", "continue", "debugger", "default", "do", "export", "for", "if",
    "return", "switch", "throw", "try", "var", "while", "with"]

/-- Words that start a declaration of the typed language and nothing else. -/
def declarationWords : List String := ["abstract", "enum", "interface"]

def expressionStatement (rules : Rules) : Rule Draft := do
  let first ← peekWord
  require (!statementWords.contains first)
  require (!((← typed) && declarationWords.contains first))
  let d ← rules .sequence
  return branch "expression_statement" (d :: (← semicolon))

def condition (rules : Rules) : Rule Draft := do
  return branch "parenthesized_expression"
    (← enclosed "(" ((fun d => [d]) <$> rules .sequence) ")")

def ifStatement (rules : Rules) : Rule Draft := do
  let mark ← keyword "if"
  let test ← as "condition" <$> condition rules
  let yes ← as "consequence" <$> rules .statement
  let no ← optionally do
    let mark ← keyword "else"
    let statement ← rules .statement
    return as "alternative" (branch "else_clause" [mark, statement])
  return branch "if_statement" (mark :: test :: yes :: no)

def switchCase (rules : Rules) : Rule Draft :=
  (do
    let mark ← keyword "case"
    let value ← bracketed (as "value" <$> rules .sequence)
    let colon ← token ":"
    let code ← many (as "body" <$> rules .statement)
    return branch "switch_case" (mark :: value :: colon :: code)) <|>
  (do
    let mark ← keyword "default"
    let colon ← token ":"
    let code ← many (as "body" <$> rules .statement)
    return branch "switch_default" (mark :: colon :: code))

def switchStatement (rules : Rules) : Rule Draft := do
  let mark ← keyword "switch"
  let value ← as "value" <$> condition rules
  let opening ← token "\x7b"
  let cases ← unbracketed (many (switchCase rules))
  let closing ← token "\x7d"
  return branch "switch_statement"
    [mark, value, as "body" (branch "switch_body" (opening :: cases ++ [closing]))]

def memberHeader (rules : Rules) : Rule (List Draft) := do
  let left ← (do
      let mark ← as "kind" <$> keywordOf ["var", "let", "const"]
      let name ← as "left" <$> binding rules
      let value ← if mark.label.kind == "var" then optionalList (initializer rules) else pure []
      return mark :: name :: value) <|>
    (do
      let d ← (parenthesized rules <|> rules .pattern)
      return [as "left" d])
  let operator ← as "operator" <$> keywordOf ["in", "of"]
  let right ← as "right" <$> rules .sequence
  return left ++ [operator, right]

def emptyStatement : Rule Draft := do
  return branch "empty_statement" [← token ";"]

def countHeader (rules : Rules) : Rule (List Draft) := do
  let start ← choose [
      as "initializer" <$> unbracketed (lexicalDeclaration rules <|> variableDeclaration rules),
      as "initializer" <$> emptyStatement] >>= (fun d => pure [d]) <|>
    (do
      let d ← as "initializer" <$> rules .sequence
      return [d, ← token ";"])
  let test ← ((fun d => [as "condition" d]) <$> emptyStatement) <|>
    (do
      let d ← as "condition" <$> rules .sequence
      return [d, ← token ";"])
  let increment ← optionally (as "increment" <$> rules .sequence)
  return start ++ test ++ increment

def forStatement (rules : Rules) : Rule Draft := do
  let mark ← keyword "for"
  let wait ← optionally (keyword "await")
  let opening ← token "("
  let (kind, header) ← bracketed (((fun h => ("for_in_statement", h)) <$> (do
      let h ← memberHeader rules
      ahead (token ")")
      return h)) <|> (fun h => ("for_statement", h)) <$> countHeader rules)
  let closing ← token ")"
  let code ← as "body" <$> rules .statement
  return branch kind (mark :: wait ++ opening :: header ++ [closing, code])

def whileStatement (rules : Rules) : Rule Draft := do
  let mark ← keyword "while"
  let test ← as "condition" <$> condition rules
  let code ← as "body" <$> rules .statement
  return branch "while_statement" [mark, test, code]

def doStatement (rules : Rules) : Rule Draft := do
  let mark ← keyword "do"
  let code ← as "body" <$> rules .statement
  let again ← keyword "while"
  let test ← as "condition" <$> condition rules
  return branch "do_statement" ([mark, code, again, test] ++ (← optionally (token ";")))

def catchClause (rules : Rules) : Rule Draft := do
  let mark ← keyword "catch"
  let parameter ← optionalList (enclosed "(" (do
    let name ← as "parameter" <$> binding rules
    return name :: (← typeMark? rules)) ")")
  let code ← body rules
  return branch "catch_clause" (mark :: parameter ++ [code])

def tryStatement (rules : Rules) : Rule Draft := do
  let mark ← keyword "try"
  let code ← body rules
  let handler ← optionally (as "handler" <$> catchClause rules)
  let finalizer ← optionally do
    let mark ← keyword "finally"
    let code ← body rules
    return as "finalizer" (branch "finally_clause" [mark, code])
  return branch "try_statement" (mark :: code :: handler ++ finalizer)

def withStatement (rules : Rules) : Rule Draft := do
  let mark ← keyword "with"
  let object ← as "object" <$> condition rules
  let code ← as "body" <$> rules .statement
  return branch "with_statement" [mark, object, code]

def jumpStatement (kind text : String) : Rule Draft := do
  let mark ← keyword text
  let label ← optionally do
    goesOn
    as "label" <$> wordAs "statement_identifier"
  return branch kind (mark :: label ++ (← semicolon))

def returnStatement (rules : Rules) : Rule Draft := do
  let mark ← keyword "return"
  let value ← optionally do
    goesOn
    rules .sequence
  return branch "return_statement" (mark :: value ++ (← semicolon))

def throwStatement (rules : Rules) : Rule Draft := do
  let mark ← keyword "throw"
  let value ← rules .sequence
  return branch "throw_statement" (mark :: value :: (← semicolon))

def labeledStatement (rules : Rules) : Rule Draft := do
  let name ← as "label" <$> (rename "statement_identifier" <$> identifier)
  let colon ← token ":"
  let code ← as "body" <$> rules .statement
  return branch "labeled_statement" [name, colon, code]

def blockRule (rules : Rules) : Rule Draft := do
  let opening ← token "\x7b"
  let statements ← unbracketed (many (rules .statement))
  let closing ← token "\x7d"
  return branch "statement_block" (opening :: statements ++ [closing])

def wordStatement (rules : Rules) : Rule Draft := do
  match ← peekWord with
  | "export" => exportStatement (declaration rules) rules
  | "import" => choose [importStatement rules, importAlias, expressionStatement rules]
  | "if" => ifStatement rules
  | "switch" => switchStatement rules
  | "for" => forStatement rules
  | "while" => whileStatement rules
  | "do" => doStatement rules
  | "try" => tryStatement rules
  | "with" => withStatement rules
  | "break" => jumpStatement "break_statement" "break"
  | "continue" => jumpStatement "continue_statement" "continue"
  | "debugger" => do
    let mark ← keyword "debugger"
    return branch "debugger_statement" (mark :: (← semicolon))
  | "return" => returnStatement rules
  | "throw" => throwStatement rules
  | "case" | "default" => failure
  | "namespace" =>
    (do
      require (← typed)
      let d ← moduleNamed "internal_module" "namespace" rules
      return branch "expression_statement" (d :: (← optionalList semicolon))) <|>
    choose [labeledStatement rules, expressionStatement rules]
  | _ => choose [declaration rules, labeledStatement rules, expressionStatement rules]

def statementRule (rules : Rules) : Rule Draft := do
  match ← peek with
  | none => failure
  | some '\x7b' => rules .block <|> expressionStatement rules
  | some '\x7d' => failure
  | some ';' => emptyStatement
  | some '@' => choose [exportStatement (declaration rules) rules, classDeclaration rules,
      expressionStatement rules]
  | some _ => wordStatement rules

end ContractInference.Grammar
