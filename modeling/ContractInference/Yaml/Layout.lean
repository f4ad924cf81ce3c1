import ContractInference.Yaml.Block
import ContractInference.Yaml.Plain
import ContractInference.Yaml.Quoted
import ContractInference.Yaml.Tag

/-!
# From text to tokens

Indentation opens and closes blocks. A scalar turns out to be a key only when a colon follows it
on the same line, so the places where a key may have started are remembered.
-/

namespace ContractInference.Yaml

structure Cursor where
  rest : List Char
  index : Nat := 0
  line : Nat := 0
  column : Nat := 0

namespace Cursor

/-- Goes one character further. A byte order mark has no width. -/
def next (c : Cursor) : Cursor :=
  match c.rest with
  | [] => c
  | x :: rest =>
    let ends := isBreak x && !(x = '\r' && peek rest 0 = '\n')
    { rest, index := c.index + 1
      line := if ends then c.line + 1 else c.line
      column := if ends then 0 else if x = '\uFEFF' then c.column else c.column + 1 }

def skip (c : Cursor) : Nat → Cursor
  | 0 => c
  | n + 1 => c.next.skip n

/-- Goes to where only `rest` is left. -/
def moveTo (c : Cursor) (rest : List Char) : Cursor := c.skip (c.rest.length - rest.length)

def head (c : Cursor) : Char := peek c.rest 0

end Cursor

/-- A token that may be the start of a key. -/
structure PossibleKey where
  /-- Its place among the tokens. -/
  position : Nat
  /-- Nothing but a key may stand where it stands. -/
  required : Bool
  index : Nat
  line : Nat
  column : Nat

structure Layout where
  cursor : Cursor
  tokens : Array Token := #[]
  /-- How many brackets are open. -/
  flowLevel : Nat := 0
  /-- The indentations of the open blocks, the innermost first. -/
  indents : List Nat := []
  keyAllowed : Bool := true
  /-- The possible keys, at most one for every level of brackets. -/
  keys : List (Nat × PossibleKey) := []

def maxKeyLength : Nat := 1024

namespace Layout

abbrev Result := Except YamlError Layout

def push (s : Layout) (t : Token) : Layout := { s with tokens := s.tokens.push t }

def inFlow (s : Layout) : Bool := s.flowLevel ≠ 0

def allowKey (s : Layout) (allowed : Bool) : Layout := { s with keyAllowed := allowed }

def moveTo (s : Layout) (rest : List Char) : Layout := { s with cursor := s.cursor.moveTo rest }

def skip (s : Layout) (n : Nat) : Layout := { s with cursor := s.cursor.skip n }

def isStale (c : Cursor) (k : PossibleKey) : Bool :=
  k.line ≠ c.line || maxKeyLength < c.index - k.index

/-- Forgets the keys that the cursor has left behind. -/
def dropStale (s : Layout) : Result :=
  if s.keys.any fun (_, k) => isStale s.cursor k && k.required then .error .malformed
  else .ok { s with keys := s.keys.filter fun (_, k) => !isStale s.cursor k }

def dropKey (s : Layout) : Result :=
  match s.keys.lookup s.flowLevel with
  | some k =>
    if k.required then .error .malformed
    else .ok { s with keys := s.keys.filter (·.1 ≠ s.flowLevel) }
  | none => .ok s

def noteKey (s : Layout) : Result :=
  if s.keyAllowed then do
    let s ← s.dropKey
    let k : PossibleKey :=
      { position := s.tokens.size
        required := !s.inFlow && s.indents.head? == some s.cursor.column
        index := s.cursor.index, line := s.cursor.line, column := s.cursor.column }
    return { s with keys := (s.flowLevel, k) :: s.keys }
  else .ok s

/-- Closes the blocks that are indented further than a column. -/
def unwindTo (column : Nat) : List Nat → Array Token → List Nat × Array Token
  | [], tokens => ([], tokens)
  | n :: rest, tokens =>
    if column < n then unwindTo column rest (tokens.push .blockEnd) else (n :: rest, tokens)

def unwind (s : Layout) : Layout :=
  if s.inFlow then s
  else
    let (indents, tokens) := unwindTo s.cursor.column s.indents s.tokens
    { s with indents, tokens }

def unwindAll (s : Layout) : Layout :=
  if s.inFlow then s
  else { s with indents := [], tokens := s.tokens ++ s.indents.map fun _ => Token.blockEnd }

/-- Opens a block at a column, with its mark at a place among the tokens, unless the block is
open. -/
def openBlock (s : Layout) (column position : Nat) (mark : Token) : Layout :=
  let deeper : Bool := match s.indents with
    | n :: _ => n < column
    | [] => true
  if deeper then
    { s with
      indents := column :: s.indents
      tokens := s.tokens.insertIdxIfInBounds position mark }
  else s

/-- Opens a block here. Blocks start only where a key may start. -/
def openHere (s : Layout) (mark : Token) : Result :=
  if s.inFlow then .ok s
  else if !s.keyAllowed then .error .malformed
  else .ok (s.openBlock s.cursor.column s.tokens.size mark)

def documentMark (s : Layout) (t : Token) : Result := do
  let s ← s.unwindAll.dropKey
  return ((s.allowKey false).skip 3).push t

def directive (s : Layout) : Result := do
  let s ← s.unwindAll.dropKey
  match directive? (s.cursor.rest.drop 1) with
  | some (d, rest) => return ((s.allowKey false).moveTo rest).push (.directive d)
  | none => .error .malformed

def openBracket (s : Layout) (t : Token) : Result := do
  let s ← s.noteKey
  return ({ s with flowLevel := s.flowLevel + 1, keyAllowed := true }.skip 1).push t

def closeBracket (s : Layout) (t : Token) : Result := do
  let s ← s.dropKey
  if s.inFlow then
    return ({ s with flowLevel := s.flowLevel - 1, keyAllowed := false }.skip 1).push t
  else .error .malformed

def flowEntry (s : Layout) : Result := do
  let s ← s.dropKey
  return ((s.allowKey true).skip 1).push .flowEntry

def blockEntry (s : Layout) : Result := do
  let s ← s.openHere .blockSequenceStart
  let s ← (s.allowKey true).dropKey
  return (s.skip 1).push .blockEntry

def keyMark (s : Layout) : Result := do
  let s ← s.openHere .blockMappingStart
  let s ← (s.allowKey (!s.inFlow)).dropKey
  return (s.skip 1).push .key

/-- A colon. What a possible key has started is a key. -/
def valueMark (s : Layout) : Result := do
  match s.keys.lookup s.flowLevel with
  | some k =>
    let s := { s with
      keys := s.keys.filter (·.1 ≠ s.flowLevel)
      tokens := s.tokens.insertIdxIfInBounds k.position .key }
    let s := if s.inFlow then s else s.openBlock k.column k.position .blockMappingStart
    return ((s.allowKey false).skip 1).push .value
  | none =>
    let s ← s.openHere .blockMappingStart
    let s ← (s.allowKey (!s.inFlow)).dropKey
    return (s.skip 1).push .value

/-- A token that may start a key and after which none starts. -/
def keyWord (s : Layout) (token : Token) (rest : List Char) : Result := do
  let s ← s.noteKey
  return ((s.allowKey false).moveTo rest).push token

def anchor (s : Layout) (token : String → Token) : Result :=
  match anchorName? (s.cursor.rest.drop 1) with
  | some (name, rest) => s.keyWord (token name) rest
  | none => .error .malformed

def tag (s : Layout) : Result :=
  match tag? (s.cursor.rest.drop 1) with
  | some (token, rest) => s.keyWord token rest
  | none => .error .malformed

def quoted (s : Layout) (quote : Char) : Result := do
  let (text, rest) ← quotedScalar quote (s.cursor.rest.drop 1)
  s.keyWord (.scalar false text) rest

def block (s : Layout) (folded : Bool) : Result := do
  let s ← (s.allowKey true).dropKey
  match blockScalar? folded s.indents.head? (s.cursor.rest.drop 1) with
  | some (text, rest) => return (s.moveTo rest).push (.scalar false text)
  | none => .error .malformed

def plain (s : Layout) : Result := do
  let p := plainScalar s.inFlow s.indents.head? s.cursor.rest
  let s ← s.keyWord (.scalar true (String.ofList p.text)) p.rest
  return s.allowKey p.endsLine

def startsPlain (s : Layout) : Bool :=
  let c := s.cursor.head
  let indicators := "-?:,[]\x7b\x7d#&*!|>'\"%@`"
  (!isBlankOrEnd c && !indicators.toList.contains c) ||
    (!isBlankOrEnd (peek s.cursor.rest 1) && (c = '-' || (!s.inFlow && (c = '?' || c = ':'))))

/-- Skips spaces, comments and line ends. After a line end a key may start, outside brackets. -/
def skipBlank : Nat → Layout → Layout
  | 0, s => s
  | fuel + 1, s =>
    let rest := s.cursor.rest.dropWhile (· = ' ')
    let rest := if peek rest 0 = '#' then rest.dropWhile (!isBreak ·) else rest
    match lineBreak? rest with
    | some (_, rest) =>
      let s := s.moveTo rest
      skipBlank fuel (if s.inFlow then s else s.allowKey true)
    | none => s.moveTo rest

/-- The token at the cursor. -/
def step (s : Layout) : Result :=
  let c := s.cursor.head
  let wide := isBlankOrEnd (peek s.cursor.rest 1)
  let first := s.cursor.column = 0
  if c = '%' && first then s.directive
  else if first && isSeparator s.cursor.rest then
    s.documentMark (if c = '-' then .documentStart else .documentEnd)
  else if c = '[' then s.openBracket .flowSequenceStart
  else if c = '\x7b' then s.openBracket .flowMappingStart
  else if c = ']' then s.closeBracket .flowSequenceEnd
  else if c = '\x7d' then s.closeBracket .flowMappingEnd
  else if c = ',' then s.flowEntry
  else if c = '-' && wide then s.blockEntry
  else if c = '?' && (s.inFlow || wide) then s.keyMark
  else if c = ':' && (s.inFlow || wide) then s.valueMark
  else if c = '*' then s.anchor .alias
  else if c = '&' then s.anchor .anchor
  else if c = '!' then s.tag
  else if c = '|' && !s.inFlow then s.block false
  else if c = '>' && !s.inFlow then s.block true
  else if c = '\'' || c = '"' then s.quoted c
  else if s.startsPlain then s.plain
  else .error .malformed

/-- Every step takes at least one character. -/
def scan : Nat → Layout → Result
  | 0, _ => .error .malformed
  | fuel + 1, s => do
    let s := s.skipBlank (s.cursor.rest.length + 1)
    let s ← s.dropStale
    let s := s.unwind
    if s.cursor.rest.isEmpty then s.unwindAll.dropKey
    else
      let s ← s.step
      scan fuel s

end Layout

/-- The tokens of a text. A byte order mark at the start is passed over. -/
def tokensOf (text : String) : Except YamlError (List Token) := do
  let cs := text.toList
  if cs.all isAdmitted then
    let start : Cursor := { rest := cs }
    let s : Layout := { cursor := if start.head = '\uFEFF' then start.next else start }
    let s ← s.scan (cs.length + 1)
    return s.tokens.toList
  else .error .malformed

end ContractInference.Yaml
