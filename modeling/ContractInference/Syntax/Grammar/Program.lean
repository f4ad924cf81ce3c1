import ContractInference.Syntax.Grammar.Statements

/-!
# Programs

The rules are tied together by the depth to which they may call each other. A program is read
to its end or not at all; comments are then put back between the nodes they stand between.
-/

namespace ContractInference.Grammar

/-- One layer of rules over the rules below it. -/
def step (rules : Rules) : Rules
  | .expression => expressionRule rules
  | .sequence => sequenceRule rules
  | .operand => operandRule rules
  | .pattern => patternRule rules
  | .type => typeRule rules
  | .primaryType => primaryTypeRule rules
  | .statement => statementRule rules
  | .block => blockRule rules
  | .element => do
    require (← read).dialect.markup
    elementRule (do
      if ← typed then optionally (as "type_arguments" <$> typeArguments rules) else pure []) rules

def rulesTo : Nat → Rules
  | 0 => fun _ => failure
  | depth + 1 => step (rulesTo depth)

def interpreterLine : Rule Draft := do
  skip
  let i ← position
  exactly "#!"
  let j := runEnd (← read).source (· ≠ '\n') i
  moveTo j
  return leaf "hash_bang_line" true i j

def programRule (rules : Rules) : Rule (List Draft) := do
  let first ← optionally interpreterLine
  let statements ← many (rules .statement)
  require ((← peek) == none)
  return first ++ statements

/-- A rule calls fewer than this many others before it moves on by one character. -/
def callsPerCharacter : Nat := 20

def draft? (dialect : Dialect) (source : Array Char) : Option (List Draft) :=
  let context := { source, dialect, lineEnds := true, resultTypes := true }
  let depth := callsPerCharacter * (source.size + 5)
  ((programRule (rulesTo depth)).run context |>.run 0).map Prod.fst

def tagOf (source : Array Char) (span : Span) : Tag :=
  { kind := span.kind, text := slice source span.start span.stop, field := span.field,
    named := span.named }

def commentNodes (source : Array Char) (start stop : Nat) : List Node :=
  (commentsFrom source (stop - start) start).map fun (i, j) =>
    .node { kind := "comment", text := slice source i j } []

mutual

/-- A draft with its texts, and with the comments between its children. -/
def weave (source : Array Char) : Draft → Node
  | .node span children => .node (tagOf source span) (weaveAll source none children)

def weaveAll (source : Array Char) : Option Nat → List Draft → List Node
  | _, [] => []
  | none, d :: ds => weave source d :: weaveAll source (some d.label.stop) ds
  | some i, d :: ds =>
    commentNodes source i d.label.start ++ weave source d :: weaveAll source (some d.label.stop) ds

end

/-- The syntax tree of a program text; none if the text is not a program. -/
def parse? (dialect : Dialect) (text : String) : Option Node :=
  let source := text.toList.toArray
  (draft? dialect source).map fun statements =>
    let stop := match statements.getLast? with
      | some d => d.label.stop
      | none => 0
    .node { kind := "program", text }
      (weaveAll source (some 0) statements ++ commentNodes source stop source.size)

/-- The same, where a text that is not a program gives a single error node. -/
def parse (dialect : Dialect) (text : String) : Node :=
  (parse? dialect text).getD (.node { kind := "ERROR", text } [])

end ContractInference.Grammar
