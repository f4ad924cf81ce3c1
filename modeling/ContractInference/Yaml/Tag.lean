import ContractInference.Json.Quoted
import ContractInference.Yaml.Line
import ContractInference.Yaml.Token

/-!
# Names, tags and directives

The words that follow the marks `&`, `*`, `!` and `%`.
-/

namespace ContractInference.Yaml

def isNameChar (c : Char) : Bool := c.isAlphanum || c = '-' || c = '_'

def isUriChar (c : Char) : Bool := c.isAlphanum || "-;/?:@&=+$,_.!~*'()[]%".toList.contains c

def name? (cs : List Char) : Option (String × List Char) :=
  let name := cs.takeWhile isNameChar
  if name.isEmpty then none else some (String.ofList name, cs.dropWhile isNameChar)

def anchorName? (cs : List Char) : Option (String × List Char) := do
  let (name, rest) ← name? cs
  let next := peek rest 0
  if isBlankOrEnd next || "?:,]\x7d%@`".toList.contains next then some (name, rest) else none

def uriBytes : Nat → List Char → Option (List UInt8 × List Char)
  | 0, cs => some ([], cs)
  | fuel + 1, '%' :: a :: b :: rest => do
    let x ← Json.hexValue? a
    let y ← Json.hexValue? b
    let (bytes, rest) ← uriBytes fuel rest
    return ((16 * x + y).toUInt8 :: bytes, rest)
  | _, '%' :: _ => none
  | _, cs => some ([], cs)

def uriChars : Nat → List Char → Option (List Char × List Char)
  | 0, cs => some ([], cs)
  | _, [] => some ([], [])
  | fuel + 1, c :: rest =>
    if c = '%' then do
      let (bytes, rest) ← uriBytes fuel (c :: rest)
      let text ← String.fromUTF8? ⟨bytes.toArray⟩
      let (cs, rest) ← uriChars fuel rest
      return (text.toList ++ cs, rest)
    else if isUriChar c then do
      let (cs, rest) ← uriChars fuel rest
      return (c :: cs, rest)
    else some ([], c :: rest)

/-- A tag or the start of one, which is not empty. -/
def uri? (cs : List Char) : Option (String × List Char) := do
  let (text, rest) ← uriChars (cs.length + 1) cs
  if rest.length = cs.length then none else some (String.ofList text, rest)

/-- A handle: a mark, or a name between two marks. -/
def tagHandle? : List Char → Option (String × List Char)
  | '!' :: cs =>
    if peek cs 0 = ' ' then some ("!", cs)
    else
      match cs.dropWhile isNameChar with
      | '!' :: rest => some ("!" ++ String.ofList (cs.takeWhile isNameChar) ++ "!", rest)
      | _ => none
  | _ => none

def tag? (cs : List Char) : Option (Token × List Char) := do
  let (token, rest) ←
    if peek cs 0 = '<' then do
      let (suffix, rest) ← uri? (cs.drop 1)
      if peek rest 0 = '>' then some (Token.tag none suffix, rest.drop 1) else none
    else if isBlankOrEnd (peek cs 0) then some (Token.tag none "!", cs)
    else if (cs.takeWhile (!isSpaceOrEnd ·)).contains '!' then do
      let (handle, rest) ← tagHandle? ('!' :: cs)
      let (suffix, rest) ← uri? rest
      return (Token.tag (some handle) suffix, rest)
    else do
      let (suffix, rest) ← uri? cs
      return (Token.tag (some "!") suffix, rest)
  if isSpaceOrEnd (peek rest 0) then some (token, rest) else none

def version? (cs : List Char) : Option (Directive × List Char) :=
  let major := cs.takeWhile Char.isDigit
  match cs.dropWhile Char.isDigit with
  | '.' :: cs =>
    let rest := cs.dropWhile Char.isDigit
    if major.isEmpty || !(peek cs 0).isDigit || !isSpaceOrEnd (peek rest 0) then none
    else
      let n := major.foldl (fun n c => 10 * n + (c.toNat - '0'.toNat)) 0
      some (.version n, rest)
  | _ => none

def handleDirective? (cs : List Char) : Option (Directive × List Char) := do
  let (handle, rest) ← tagHandle? cs
  if peek rest 0 ≠ ' ' then none
  else
    let (start, rest) ← uri? (rest.dropWhile (· = ' '))
    if isSpaceOrEnd (peek rest 0) then some (.tagHandle handle start, rest) else none

def directive? (cs : List Char) : Option (Directive × List Char) := do
  let (name, rest) ← name? cs
  if !isSpaceOrEnd (peek rest 0) then none
  else
    let body := rest.dropWhile (· = ' ')
    let (d, rest) ←
      if name == "YAML" then version? body
      else if name == "TAG" then handleDirective? body
      else some (.reserved, rest.dropWhile (!isBreak ·))
    let rest ← ignoredLine? rest
    return (d, rest)

end ContractInference.Yaml
