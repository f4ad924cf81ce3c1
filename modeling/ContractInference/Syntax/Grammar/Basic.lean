import ContractInference.Syntax.Node
import ContractInference.Text.Blank

/-!
# Grammar rules

Rules read a program text from a position and give a draft of a syntax tree, or fail without
moving. A draft knows where its text starts and stops; blanks and comments lie between drafts.
-/

namespace ContractInference.Grammar

/-- The variants of the language that the rules know. -/
structure Dialect where
  /-- Type annotations and declarations are part of the language. -/
  typed : Bool
  /-- Markup elements are expressions. -/
  markup : Bool
deriving DecidableEq, Repr

structure Span where
  kind : String
  field : Option String
  named : Bool
  start : Nat
  stop : Nat
deriving Repr, Inhabited

abbrev Draft := Tree Span

structure Context where
  source : Array Char
  dialect : Dialect
  /-- The end of a line can end what is being read. -/
  lineEnds : Bool
  /-- A colon after a parameter list can start a result type. -/
  resultTypes : Bool

abbrev Rule (α : Type) := ReaderT Context (StateT Nat Option) α

/-- What a rule can ask for below itself. -/
inductive Goal where
  | expression
  | sequence
  | operand
  | pattern
  | type
  | primaryType
  | statement
  | block
  | element
deriving DecidableEq, Repr

abbrev Rules := Goal → Rule Draft

def position : Rule Nat := get

def moveTo (i : Nat) : Rule Unit := set i

def charAt (i : Nat) : Rule (Option Char) := return (← read).source[i]?

def typed : Rule Bool := return (← read).dialect.typed

def require (b : Bool) : Rule Unit := if b then pure () else failure

/-- Inside brackets the end of a line ends nothing. -/
def bracketed {α : Type} (rule : Rule α) : Rule α :=
  withReader ({ · with lineEnds := false, resultTypes := true }) rule

/-- In statements the end of a line can stand for a semicolon. -/
def unbracketed {α : Type} (rule : Rule α) : Rule α :=
  withReader ({ · with lineEnds := true, resultTypes := true }) rule

def isGap (c : Char) : Bool :=
  (isBlank c && !(0x1C ≤ c.toNat && c.toNat ≤ 0x1F)) || c = '\uFEFF' || c = '\u2060' || c = '\u200B'

def isLineBreak (c : Char) : Bool := c = '\n' || c = '\u2028' || c = '\u2029'

def runEnd (source : Array Char) (p : Char → Bool) (i : Nat) : Nat :=
  if h : i < source.size then
    if p source[i] then runEnd source p (i + 1) else i
  else i
termination_by source.size - i

def lineEnd (source : Array Char) (i : Nat) : Nat :=
  runEnd source (fun c => !(isLineBreak c || c = '\r')) i

def blockEnd? (source : Array Char) (i : Nat) : Option Nat :=
  if h : i < source.size then
    if source[i] = '*' && source[i + 1]? == some '/' then some (i + 2)
    else blockEnd? source (i + 1)
  else none
termination_by source.size - i

def commentEnd? (source : Array Char) (i : Nat) : Option Nat :=
  if source[i]? == some '/' then
    if source[i + 1]? == some '/' then some (lineEnd source (i + 2))
    else if source[i + 1]? == some '*' then blockEnd? source (i + 2)
    else none
  else none

/-- Skips blanks and comments, at most `fuel` of them. -/
def skipGaps (source : Array Char) : Nat → Nat → Nat
  | 0, i => i
  | fuel + 1, i =>
    match source[i]? with
    | some c =>
      if isGap c then skipGaps source fuel (i + 1)
      else
        match commentEnd? source i with
        | some j => skipGaps source fuel j
        | none => i
    | none => i

/-- The comments among the blanks from `i` on, with where they start and stop. -/
def commentsFrom (source : Array Char) : Nat → Nat → List (Nat × Nat)
  | 0, _ => []
  | fuel + 1, i =>
    match source[i]? with
    | some c =>
      if isGap c then commentsFrom source fuel (i + 1)
      else
        match commentEnd? source i with
        | some j => (i, j) :: commentsFrom source fuel j
        | none => []
    | none => []

def skip : Rule Unit := do
  let source := (← read).source
  let i ← position
  moveTo (skipGaps source (source.size - i) i)

def peek : Rule (Option Char) := do
  let source := (← read).source
  let i ← position
  return source[skipGaps source (source.size - i) i]?

def leaf (kind : String) (named : Bool) (start stop : Nat) : Draft :=
  .node ⟨kind, none, named, start, stop⟩ []

/-- A named node over its children, from the first one's start to the last one's end. -/
def branch (kind : String) (children : List Draft) : Draft :=
  let start := match children.head? with
    | some c => c.label.start
    | none => 0
  let stop := match children.getLast? with
    | some c => c.label.stop
    | none => start
  .node ⟨kind, none, true, start, stop⟩ children

def as (field : String) : Draft → Draft
  | .node l ts => .node { l with field := some field } ts

def rename (kind : String) : Draft → Draft
  | .node l ts => .node { l with kind } ts

def isOneOf (kinds : List String) (d : Draft) : Bool := kinds.contains d.label.kind

def optionalList {α : Type} (rule : Rule (List α)) : Rule (List α) := rule <|> pure []

def optionally (rule : Rule Draft) : Rule (List Draft) := optionalList ((fun d => [d]) <$> rule)

/-- As many as there are; each has to move. -/
def manyAux {α : Type} (rule : Rule α) : Nat → Rule (List α)
  | 0 => pure []
  | fuel + 1 => do
    let i ← position
    let next ← optional rule
    match next with
    | none => pure []
    | some a => if (← position) ≤ i then pure [] else return a :: (← manyAux rule fuel)

def many {α : Type} (rule : Rule α) : Rule (List α) := do
  manyAux rule ((← read).source.size - (← position) + 1)

/-- Extends a draft to the right as long as `rule` can. -/
def growAux (rule : Draft → Rule Draft) : Nat → Draft → Rule Draft
  | 0, d => pure d
  | fuel + 1, d => do
    let next ← optional (rule d)
    match next with
    | none => pure d
    | some e => growAux rule fuel e

def grow (rule : Draft → Rule Draft) (d : Draft) : Rule Draft := do
  growAux rule ((← read).source.size - (← position) + 1) d

/-- Succeeds where `rule` fails, and does not move. -/
def notAhead {α : Type} (rule : Rule α) : Rule Unit := fun c i =>
  match rule c i with
  | some _ => none
  | none => some ((), i)

def ahead {α : Type} (rule : Rule α) : Rule Unit := fun c i =>
  match rule c i with
  | some _ => some ((), i)
  | none => none

def choose (rules : List (Rule Draft)) : Rule Draft := rules.foldr (· <|> ·) failure

/-- Reads `text` at exactly the current position. -/
def exactlyAux (source : Array Char) : List Char → Nat → Option Nat
  | [], i => some i
  | c :: cs, i => if source[i]? == some c then exactlyAux source cs (i + 1) else none

def exactly (text : String) : Rule Unit := fun c i =>
  (exactlyAux c.source text.toList i).map fun j => ((), j)

/-- A token with the given text, as a node of that kind. -/
def token (text : String) : Rule Draft := do
  skip
  let i ← position
  exactly text
  return leaf text false i (← position)

/-- A token that is not the start of a longer one. -/
def tokenBut (text : String) (longer : List Char) : Rule Draft := do
  let d ← token text
  match ← charAt (← position) with
  | some c => require (!longer.contains c)
  | none => pure ()
  return d

def isWordStop (c : Char) : Bool :=
  c.toNat ≤ 0x1F || isGap c || ":;`\"'@#.,|^&<=>+-*/\\%?!~()[]\x7b\x7d".toList.contains c

def isHex (c : Char) : Bool := c.isDigit || ('a' ≤ c && c ≤ 'f') || ('A' ≤ c && c ≤ 'F')

def pointEscapeEnd? (source : Array Char) (i : Nat) : Option Nat :=
  if source[i]? == some '\\' && source[i + 1]? == some 'u' then
    if source[i + 2]? == some '\x7b' then
      let j := runEnd source isHex (i + 3)
      if i + 3 < j && source[j]? == some '\x7d' then some (j + 1) else none
    else if i + 6 ≤ runEnd source isHex (i + 2) then some (i + 6)
    else none
  else none

def wordEnd (source : Array Char) : Nat → Nat → Nat
  | 0, i => i
  | fuel + 1, i =>
    match source[i]? with
    | some c =>
      if !isWordStop c then wordEnd source fuel (i + 1)
      else
        match pointEscapeEnd? source i with
        | some j => wordEnd source fuel j
        | none => i
    | none => i

/-- The end of the word that starts at `i`; words do not start with a digit. -/
def wordEnd? (source : Array Char) (i : Nat) : Option Nat :=
  match source[i]? with
  | some c =>
    if c.isDigit then none
    else
      let j := wordEnd source (source.size - i) i
      if i < j then some j else none
  | none => none

def slice (source : Array Char) (start stop : Nat) : String :=
  String.ofList (source.extract start stop).toList

def word : Rule (Draft × String) := do
  skip
  let source := (← read).source
  let i ← position
  match wordEnd? source i with
  | some j =>
    moveTo j
    return (leaf "identifier" true i j, slice source i j)
  | none => failure

def peekWord : Rule String := fun c i =>
  match word c i with
  | some ((_, text), _) => some (text, i)
  | none => some ("", i)

def keyword (text : String) : Rule Draft := do
  let (d, t) ← word
  require (t == text)
  return leaf text false d.label.start d.label.stop

def keywordOf (texts : List String) : Rule Draft := do
  let (d, t) ← word
  require (texts.contains t)
  return leaf t false d.label.start d.label.stop

/-- Items with commas between them, where items may be left out. -/
def sparseList (item : Rule Draft) : Rule (List Draft) := do
  let first ← optionally item
  let rest ← many do
    let comma ← token ","
    return comma :: (← optionally item)
  return first ++ rest.flatten

def commaList (item : Rule Draft) : Rule (List Draft) := do
  let first ← item
  let rest ← many do
    let comma ← token ","
    return [comma, ← item]
  return first :: rest.flatten

/-- The same, with an optional comma at the end. -/
def commaListEnd (item : Rule Draft) : Rule (List Draft) := do
  return (← commaList item) ++ (← optionally (token ","))

def enclosed (opening : String) (body : Rule (List Draft)) (closing : String) :
    Rule (List Draft) := do
  let first ← token opening
  let inner ← bracketed body
  let last ← token closing
  return first :: inner ++ [last]

/-- A line break lies before the next token. -/
def newLineBefore (source : Array Char) (stop : Nat) (i : Nat) : Bool :=
  (source.extract i stop).any isLineBreak

/-- Whether a statement may end before the token at `i`, when that token is on a new line: not
before a token that continues an expression. -/
def endsBefore (source : Array Char) (typed inType : Bool) (i : Nat) : Bool :=
  match source[i]? with
  | none => true
  | some c =>
    let next := source[i + 1]?
    if "`,:;*%><=?^|&/".toList.contains c then false
    else if c = '.' then !typed && (next.map Char.isDigit).getD false
    else if c = '(' || c = '[' then typed && inType
    else if c = '+' then next == some '+'
    else if c = '-' then next == some '-'
    else if c = '!' then next != some '='
    else
      match wordEnd? source i with
      | some j =>
        let w := slice source i j
        w != "in" && w != "instanceof"
      | none => true

/-- The end of a line stands here for a semicolon. -/
def lineEndHere (inType : Bool) : Rule Unit := do
  let ctx ← read
  let i ← position
  let j := skipGaps ctx.source (ctx.source.size - i) i
  match ctx.source[j]? with
  | none => pure ()
  | some '\x7d' => pure ()
  | some _ =>
    require (newLineBefore ctx.source j i && endsBefore ctx.source ctx.dialect.typed inType j)

def goesOn : Rule Unit := do
  if (← read).lineEnds then notAhead (lineEndHere false) else pure ()

/-- A semicolon, or the end of a line in its place. -/
def semicolonOr (inType : Bool) : Rule (List Draft) :=
  ((fun d => [d]) <$> token ";") <|> ((fun _ => []) <$> lineEndHere inType)

def semicolon : Rule (List Draft) := semicolonOr false

end ContractInference.Grammar
