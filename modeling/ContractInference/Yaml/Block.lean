import ContractInference.Yaml.Line

/-!
# Block scalars

Lines below a bar are kept as they are, lines below an angle bracket are joined. The indentation
of the first line with text is left out of all of them.
-/

namespace ContractInference.Yaml

/-- What happens to the line ends after the last line with text. -/
inductive Chomping where
  | strip
  | clip
  | keep
deriving DecidableEq, Repr

structure BlockHeader where
  chomping : Chomping := .clip
  /-- The indentation relative to the surrounding one. -/
  increment : Option Nat := none
deriving DecidableEq, Repr

def chomping? (c : Char) : Option Chomping :=
  if c = '+' then some .keep else if c = '-' then some .strip else none

/-- An indentation is one digit and not zero. -/
def increment? (c : Char) : Option (Option Nat) :=
  if c.isDigit then some (if c = '0' then none else some (c.toNat - '0'.toNat)) else none

/-- The indicators after the mark of a block scalar, in any order. -/
def blockIndicators? (cs : List Char) : Option (BlockHeader × List Char) :=
  match chomping? (peek cs 0) with
  | some chomping =>
    match increment? (peek cs 1) with
    | some none => none
    | some increment => some ({ chomping, increment }, cs.drop 2)
    | none => some ({ chomping }, cs.drop 1)
  | none =>
    match increment? (peek cs 0) with
    | some none => none
    | some increment =>
      match chomping? (peek cs 1) with
      | some chomping => some ({ chomping, increment }, cs.drop 2)
      | none => some ({ increment }, cs.drop 1)
    | none => some ({}, cs)

def blockHeader? (cs : List Char) : Option (BlockHeader × List Char) := do
  let (header, rest) ← blockIndicators? cs
  if isSpaceOrEnd (peek rest 0) then
    let rest ← ignoredLine? rest
    return (header, rest)
  else none

/-- A place in the lines: the column and the characters from there on. -/
structure LinePlace where
  column : Nat
  rest : List Char
deriving DecidableEq, Repr

/-- Skips spaces and line ends before the first text. Gives the line ends, the greatest number
of spaces seen and the place of the text. -/
def firstIndentation : Nat → Nat → Nat → List Char → List Char × Nat × LinePlace
  | 0, column, widest, cs => ([], widest, ⟨column, cs⟩)
  | fuel + 1, column, widest, cs =>
    match cs with
    | ' ' :: rest => firstIndentation fuel (column + 1) (max widest (column + 1)) rest
    | _ =>
      match lineBreak? cs with
      | some (b, rest) =>
        let (bs, widest, place) := firstIndentation fuel 0 widest rest
        (b :: bs, widest, place)
      | none => ([], widest, ⟨column, cs⟩)

def skipIndent (indent : Nat) : Nat → List Char → LinePlace
  | column, ' ' :: rest =>
    if column < indent then skipIndent indent (column + 1) rest else ⟨column, ' ' :: rest⟩
  | column, cs => ⟨column, cs⟩

/-- Skips the indentation of lines, and the line ends of those that have no more than that. -/
def blockBreaks (indent : Nat) : Nat → Nat → List Char → List Char × LinePlace
  | 0, column, cs => ([], ⟨column, cs⟩)
  | fuel + 1, column, cs =>
    let place := skipIndent indent column cs
    match lineBreak? place.rest with
    | some (b, rest) =>
      let (bs, place) := blockBreaks indent fuel 0 rest
      (b :: bs, place)
    | none => ([], place)

def LinePlace.hasText (p : LinePlace) (indent : Nat) : Bool :=
  p.column == indent && !p.rest.isEmpty

/-- The line end between two lines with text, before the line ends `breaks` of empty lines. -/
def betweenLines (folded : Bool) (lineEnd : Option Char) (before after : Char)
    (breaks : List Char) : List Char :=
  if folded && lineEnd = some '\n' && !isSpaceOrTab before && !isSpaceOrTab after then
    if breaks.isEmpty then [' '] else []
  else lineEnd.toList

/-- The lines with text from a place on: the characters, the last line end, the line ends after
it, and the rest. -/
def blockLines (folded : Bool) (indent : Nat) : Nat → LinePlace →
    List Char × Option Char × List Char × List Char
  | 0, place => ([], none, [], place.rest)
  | fuel + 1, place =>
    let line := place.rest.takeWhile (!isBreak ·)
    let rest := place.rest.dropWhile (!isBreak ·)
    let (lineEnd, column, rest) := match lineBreak? rest with
      | some (b, rest) => (some b, 0, rest)
      | none => (none, place.column + line.length, rest)
    let (breaks, next) := blockBreaks indent (rest.length + 1) column rest
    if next.hasText indent then
      let joint := betweenLines folded lineEnd (peek line 0) (peek next.rest 0) breaks
      let (cs, result) := blockLines folded indent fuel next
      (line ++ joint ++ breaks ++ cs, result)
    else (line, lineEnd, breaks, next.rest)

/-- The text of a block scalar after its mark. The surrounding block is indented by `outer`, if
there is one. -/
def blockScalar? (folded : Bool) (outer : Option Nat) (cs : List Char) :
    Option (String × List Char) := do
  let (header, cs) ← blockHeader? cs
  let least := match outer with
    | some n => n + 1
    | none => 1
  let fuel := cs.length + 1
  let (breaks, indent, place) := match header.increment with
    | some n =>
      let indent := least + n - 1
      let (breaks, place) := blockBreaks indent fuel 0 cs
      (breaks, indent, place)
    | none =>
      let (breaks, widest, place) := firstIndentation fuel 0 0 cs
      (breaks, max least widest, place)
  let (text, lineEnd, after, rest) :=
    if place.hasText indent then
      let (text, result) := blockLines folded indent fuel place
      (breaks ++ text, result)
    else ([], none, breaks, place.rest)
  let tail := match header.chomping with
    | .strip => []
    | .clip => lineEnd.toList
    | .keep => lineEnd.toList ++ after
  return (String.ofList (text ++ tail), rest)

end ContractInference.Yaml
