import ContractInference.Syntax.Grammar.Basic

/-!
# Literals

Numbers, quoted strings, templates and patterns between slashes.
-/

namespace ContractInference.Grammar

/-- Where a run of digits with single underscores between them stops. -/
def digitsEnd (source : Array Char) (digit : Char → Bool) (i : Nat) : Nat :=
  let j := runEnd source digit i
  if h : i < j ∧ j < source.size ∧ source[j]? = some '_' then
    let k := digitsEnd source digit (j + 1)
    if j + 1 < k then k else j
  else j
termination_by source.size - i

def digitsEnd? (source : Array Char) (digit : Char → Bool) (i : Nat) : Option Nat :=
  let j := digitsEnd source digit i
  if i < j then some j else none

def isOctal (c : Char) : Bool := '0' ≤ c && c ≤ '7'

def isBinary (c : Char) : Bool := c = '0' || c = '1'

def radixDigit? (mark : Char) : Option (Char → Bool) :=
  if mark = 'x' || mark = 'X' then some isHex
  else if mark = 'o' || mark = 'O' then some isOctal
  else if mark = 'b' || mark = 'B' then some isBinary
  else none

def radixEnd? (source : Array Char) (i : Nat) : Option Nat :=
  match source[i]?, source[i + 1]? with
  | some '0', some mark => (radixDigit? mark).bind fun digit => digitsEnd? source digit (i + 2)
  | _, _ => none

def exponentEnd? (source : Array Char) (i : Nat) : Option Nat :=
  match source[i]? with
  | some c =>
    if c = 'e' || c = 'E' then
      match source[i + 1]? with
      | some s =>
        if s = '+' || s = '-' then digitsEnd? source Char.isDigit (i + 2)
        else digitsEnd? source Char.isDigit (i + 1)
      | none => none
    else none
  | none => none

def afterExponent (source : Array Char) (i : Nat) : Nat := (exponentEnd? source i).getD i

/-- The integer part of a number that may have a fraction: no leading zero but one. -/
def integerEnd? (source : Array Char) (i : Nat) : Option Nat :=
  let lead := if source[i]? == some '0' then i + 1 else i
  match source[lead]? with
  | some c =>
    if '1' ≤ c && c ≤ '9' then some (digitsEnd source Char.isDigit lead)
    else if lead = i + 1 then some lead
    else none
  | none => if lead = i + 1 then some lead else none

/-- The possible ends of the number that starts at `i`. -/
def numberEnds (source : Array Char) (i : Nat) : List Nat :=
  let digits := digitsEnd? source Char.isDigit i
  let big (e : Option Nat) : Option Nat :=
    e.bind fun j => if source[j]? == some 'n' then some (j + 1) else none
  let fraction := (integerEnd? source i).bind fun j =>
    if source[j]? == some '.' then
      some (afterExponent source (digitsEnd source Char.isDigit (j + 1)))
    else none
  let exponent := (integerEnd? source i).bind (exponentEnd? source ·)
  let point :=
    if source[i]? == some '.' then
      (digitsEnd? source Char.isDigit (i + 1)).map (afterExponent source ·)
    else none
  let radix := radixEnd? source i
  [digits, fraction, exponent, point, radix, big digits, big radix].filterMap id

def number : Rule Draft := do
  skip
  let source := (← read).source
  let i ← position
  match numberEnds source i with
  | [] => failure
  | ends =>
    let j := ends.foldl max 0
    moveTo j
    return leaf "number" true i j

def escapeEnd? (source : Array Char) (i : Nat) : Option Nat :=
  if source[i]? == some '\\' then
    match source[i + 1]? with
    | none => none
    | some c =>
      if c = 'x' then if i + 4 ≤ runEnd source isHex (i + 2) then some (i + 4) else none
      else if c = 'u' then pointEscapeEnd? source i
      else if isOctal c then some (min (runEnd source isOctal (i + 1)) (i + 4))
      else if (c = '\r' || c = '?') && ((source[i + 2]?).map isLineBreak).getD false then
        some (i + 3)
      else some (i + 2)
  else none

/-- The pieces of a string up to its closing quote: runs of plain characters, and escapes. -/
def stringPieces (source : Array Char) (quote : Char) : Nat → Nat → Option (List Draft × Nat)
  | 0, _ => none
  | fuel + 1, i =>
    match source[i]? with
    | none => none
    | some c =>
      if c = quote then some ([], i)
      else if c = '\\' then do
        let j ← escapeEnd? source i
        let (rest, k) ← stringPieces source quote fuel j
        return (leaf "escape_sequence" true i j :: rest, k)
      else
        let j := runEnd source (fun c => !(c = quote || c = '\\' || c = '\n' || c = '\r')) i
        if i < j then do
          let (rest, k) ← stringPieces source quote fuel j
          return (leaf "string_fragment" true i j :: rest, k)
        else none

def quotedBy (quote : Char) : Rule Draft := do
  let first ← token (String.singleton quote)
  let source := (← read).source
  let i ← position
  match stringPieces source quote (source.size - i + 1) i with
  | none => failure
  | some (pieces, j) =>
    moveTo (j + 1)
    return branch "string" (first :: pieces ++ [leaf (String.singleton quote) false j (j + 1)])

def string : Rule Draft := quotedBy '"' <|> quotedBy '\''

/-- The end of a run of template text: it stops before an escape, a substitution and the
closing mark. -/
def templateTextEnd (source : Array Char) (i : Nat) : Nat :=
  if h : i < source.size then
    if source[i] = '`' || source[i] = '\\' then i
    else if source[i] = '$' && source[i + 1]? == some '\x7b' then i
    else templateTextEnd source (i + 1)
  else i
termination_by source.size - i

def templatePiece (textKind substitutionKind : String) (inner : Rule Draft) : Rule Draft := do
  let source := (← read).source
  let i ← position
  let j := templateTextEnd source i
  if i < j then
    moveTo j
    return leaf textKind true i j
  else if source[i]? == some '\\' then
    match escapeEnd? source i with
    | some k =>
      moveTo k
      return leaf "escape_sequence" true i k
    | none => failure
  else
    exactly "$\x7b"
    let opening := leaf "$\x7b" false i (← position)
    let body ← bracketed inner
    let closing ← token "\x7d"
    return branch substitutionKind [opening, body, closing]

def templateOf (kind textKind substitutionKind : String) (inner : Rule Draft) : Rule Draft := do
  let opening ← token "`"
  let pieces ← many (templatePiece textKind substitutionKind inner)
  let i ← position
  exactly "`"
  return branch kind (opening :: pieces ++ [leaf "`" false i (← position)])

def template (rules : Rules) : Rule Draft :=
  templateOf "template_string" "string_fragment" "template_substitution" (rules .sequence)

/-- The slash that ends the pattern; within brackets a slash is plain. -/
def slashPatternEnd? (source : Array Char) : Nat → Bool → Nat → Option Nat
  | 0, _, _ => none
  | fuel + 1, inClass, i =>
    match source[i]? with
    | none => none
    | some c =>
      if c = '/' && !inClass then some i
      else if c = '\n' then none
      else if c = '\\' then slashPatternEnd? source fuel inClass (i + 2)
      else if c = '[' then slashPatternEnd? source fuel true (i + 1)
      else if c = ']' then slashPatternEnd? source fuel false (i + 1)
      else slashPatternEnd? source fuel inClass (i + 1)

def slashPattern : Rule Draft := do
  let opening ← token "/"
  let source := (← read).source
  let i ← position
  match slashPatternEnd? source (source.size - i + 1) false i with
  | none => failure
  | some j =>
    require (i < j)
    let k := runEnd source (fun c => 'a' ≤ c && c ≤ 'z') (j + 1)
    moveTo k
    let flags := if j + 1 < k then [as "flags" (leaf "regex_flags" true (j + 1) k)] else []
    return branch "regex"
      ([opening, as "pattern" (leaf "regex_pattern" true i j), leaf "/" false j (j + 1)] ++ flags)

end ContractInference.Grammar
