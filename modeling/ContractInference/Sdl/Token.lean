import ContractInference.Json.Quoted

/-!
# Tokens of schema documents

Names, numbers, strings and punctuation. Blanks, commas, comments and byte order marks stand
between tokens and are dropped.
-/

namespace ContractInference.Sdl

inductive Token where
  | name (s : String)
  | number
  | string
  /-- A mark; the dots of a spread are one mark. -/
  | mark (s : String)
deriving DecidableEq, Repr

def isNameStart (c : Char) : Bool := c.isAlpha || c = '_'

def isNamePart (c : Char) : Bool := c.isAlphanum || c = '_'

def marks : List Char := ['!', '$', '&', '(', ')', ':', '=', '@', '[', ']', '\x7b', '|', '\x7d']

def isIgnored (c : Char) : Bool :=
  c = ' ' || c = '\t' || c = ',' || c = '\n' || c = '\r' || c = '\uFEFF'

def digits? (cs : List Char) : Option (List Char) :=
  match cs with
  | c :: _ => if c.isDigit then some (cs.dropWhile Char.isDigit) else none
  | [] => none

/-- The rest after a number: no leading zeros, and nothing that could go on as a name. -/
def number? (cs : List Char) : Option (List Char) := do
  let cs := match cs with
    | '-' :: r => r
    | r => r
  let cs ← match cs with
    | '0' :: r => if (r.head?.map Char.isDigit).getD false then none else some r
    | r => digits? r
  let cs ← match cs with
    | '.' :: r => digits? r
    | r => some r
  let cs ← match cs with
    | e :: r =>
      if e = 'e' || e = 'E' then
        match r with
        | '+' :: r | '-' :: r => digits? r
        | r => digits? r
      else some (e :: r)
    | [] => some []
  match cs with
  | c :: _ => if c = '.' || isNameStart c then none else some cs
  | [] => some []

/-- The rest after a code point in braces; it has at most eight digits. -/
def wideEscape? (cs : List Char) : Option (List Char) :=
  let hex := cs.takeWhile (· ≠ '\x7d')
  let value := hex.foldlM (fun n c => (Json.hexValue? c).map (16 * n + ·)) 0
  match value, cs.drop hex.length with
  | some n, _ :: rest =>
    if !hex.isEmpty && hex.length ≤ 8 && n < 0x110000 && !(0xD800 ≤ n && n < 0xE000) then some rest
    else none
  | _, _ => none

/-- The rest after four hexadecimal digits, or after the eight of a surrogate pair. -/
def unitEscape? (cs : List Char) : Option (List Char) :=
  match cs with
  | a :: b :: c :: d :: rest => do
    let first ← Json.unit? a b c d
    if first.isHighSurrogate then
      match rest with
      | '\\' :: 'u' :: a :: b :: c :: d :: rest =>
        let second ← Json.unit? a b c d
        if second.isLowSurrogate then some rest else none
      | _ => none
    else if first.isLowSurrogate then none
    else some rest
  | _ => none

def stringEnd? : Nat → List Char → Option (List Char)
  | 0, _ => none
  | fuel + 1, cs =>
    match cs with
    | [] => none
    | '"' :: rest => some rest
    | '\\' :: 'u' :: '\x7b' :: rest => (wideEscape? rest).bind (stringEnd? fuel)
    | '\\' :: 'u' :: rest => (unitEscape? rest).bind (stringEnd? fuel)
    | '\\' :: c :: rest =>
      if ['"', '\\', '/', 'b', 'f', 'n', 'r', 't'].contains c then stringEnd? fuel rest else none
    | c :: rest => if c = '\n' || c = '\r' || c = '\\' then none else stringEnd? fuel rest

def blockEnd? : List Char → Option (List Char)
  | '\\' :: '"' :: '"' :: '"' :: rest => blockEnd? rest
  | '"' :: '"' :: '"' :: rest => some rest
  | _ :: rest => blockEnd? rest
  | [] => none

/-- The tokens of a document, unless it holds something that is none. -/
def tokens? : Nat → List Char → Option (List Token)
  | 0, _ => none
  | _ + 1, [] => some []
  | fuel + 1, c :: cs =>
    if isIgnored c then tokens? fuel cs
    else if c = '#' then tokens? fuel (cs.dropWhile fun c => c ≠ '\n' && c ≠ '\r')
    else if marks.contains c then (tokens? fuel cs).map (.mark (String.singleton c) :: ·)
    else if c = '.' then
      match cs with
      | '.' :: '.' :: rest => (tokens? fuel rest).map (.mark "..." :: ·)
      | _ => none
    else if isNameStart c then
      let name := String.ofList (c :: cs.takeWhile isNamePart)
      (tokens? fuel (cs.dropWhile isNamePart)).map (.name name :: ·)
    else if c.isDigit || c = '-' then
      (number? (c :: cs)).bind fun rest => (tokens? fuel rest).map (.number :: ·)
    else if c = '"' then
      let rest := match cs with
        | '"' :: '"' :: r => blockEnd? r
        | r => stringEnd? (r.length + 1) r
      rest.bind fun rest => (tokens? fuel rest).map (.string :: ·)
    else none

def tokenize? (text : String) : Option (List Token) := tokens? (text.length + 1) text.toList

end ContractInference.Sdl
