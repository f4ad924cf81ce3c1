import ContractInference.Text.Basic

/-!
# Quoted text in JSON

Writing a text between double quotes and reading it back. Reading refuses a raw control
character and any escape that is not one of the format's own.
-/

namespace ContractInference.Json

def hexDigit (n : Nat) : CodePoint :=
  CodePoint.ofNat (if n < 10 then '0'.toNat + n else 'a'.toNat + (n - 10))

def unitEscape (n : Nat) : List CodePoint :=
  [CodePoint.ofChar '\\', CodePoint.ofChar 'u', hexDigit (n / 0x1000 % 16),
    hexDigit (n / 0x100 % 16), hexDigit (n / 16 % 16), hexDigit (n % 16)]

def shortEscapes : List (Nat × Char) :=
  [(0x22, '"'), (0x5C, '\\'), (0x0A, 'n'), (0x0D, 'r'), (0x09, 't'), (0x0C, 'f'), (0x08, 'b')]

/-- A point between quotes: the quote, the backslash and the controls are escaped. -/
def escapePoint (p : CodePoint) : List CodePoint :=
  match shortEscapes.lookup p.val with
  | some c => [CodePoint.ofChar '\\', CodePoint.ofChar c]
  | none => if p.val < 0x20 then unitEscape p.val else [p]

/-- The same, with every point outside ASCII written as UTF-16 units too. -/
def escapePointAscii (p : CodePoint) : List CodePoint :=
  if p.val < 0x7F then escapePoint p
  else if p.val = 0x7F then [p]
  else if p.val < 0x10000 then unitEscape p.val
  else
    unitEscape (0xD800 + (p.val - 0x10000) / 0x400) ++
      unitEscape (0xDC00 + (p.val - 0x10000) % 0x400)

def quote : CodePoint := CodePoint.ofChar '"'

def write (t : Text) : Text := ⟨quote :: t.points.flatMap escapePoint ++ [quote]⟩

def writeAscii (t : Text) : Text := ⟨quote :: t.points.flatMap escapePointAscii ++ [quote]⟩

def hexValue? (c : Char) : Option Nat :=
  if '0' ≤ c && c ≤ '9' then some (c.toNat - '0'.toNat)
  else if 'a' ≤ c && c ≤ 'f' then some (c.toNat - 'a'.toNat + 10)
  else if 'A' ≤ c && c ≤ 'F' then some (c.toNat - 'A'.toNat + 10)
  else none

def unit? (a b c d : Char) : Option CodePoint :=
  match hexValue? a, hexValue? b, hexValue? c, hexValue? d with
  | some a, some b, some c, some d => some (CodePoint.ofNat (((a * 16 + b) * 16 + c) * 16 + d))
  | _, _, _, _ => none

def shortEscape? (c : Char) : Option CodePoint :=
  match c with
  | '"' => some (CodePoint.ofChar '"')
  | '\\' => some (CodePoint.ofChar '\\')
  | '/' => some (CodePoint.ofChar '/')
  | 'b' => some (CodePoint.ofNat 0x08)
  | 'f' => some (CodePoint.ofNat 0x0C)
  | 'n' => some (CodePoint.ofNat 0x0A)
  | 'r' => some (CodePoint.ofNat 0x0D)
  | 't' => some (CodePoint.ofNat 0x09)
  | _ => none

/-- Adds a unit before points already read; a high surrogate joins the escaped low one that
follows it. -/
def consUnit (p : CodePoint) (follows : Bool) : List CodePoint → List CodePoint
  | q :: rest =>
    if follows && p.isHighSurrogate && q.isLowSurrogate then CodePoint.ofPair p q :: rest
    else p :: q :: rest
  | [] => [p]

def startsWithUnit : List Char → Bool
  | '\\' :: 'u' :: _ => true
  | _ => false

/-- Points up to the closing quote, and what stands after it. -/
def readBody : List Char → Option (List CodePoint × List Char)
  | [] => none
  | '"' :: rest => some ([], rest)
  | '\\' :: 'u' :: a :: b :: c :: d :: rest => do
    let p ← unit? a b c d
    let (ps, rest') ← readBody rest
    return (consUnit p (startsWithUnit rest) ps, rest')
  | '\\' :: c :: rest => do
    let p ← shortEscape? c
    let (ps, rest') ← readBody rest
    return (p :: ps, rest')
  | c :: rest => do
    if c = '\\' || c.toNat < 0x20 then none
    else
      let (ps, rest') ← readBody rest
      return (CodePoint.ofChar c :: ps, rest')

/-- The text that `body` spells between two quotes, if it is one quoted text and no more. -/
def readQuoted? (body : List Char) : Option Text :=
  match readBody (body ++ ['"']) with
  | some (ps, []) => some ⟨ps⟩
  | _ => none

end ContractInference.Json
