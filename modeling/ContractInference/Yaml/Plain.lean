import ContractInference.Yaml.Line

/-!
# Plain scalars

Text without quotes. It goes on over lines that are indented more than the surrounding block,
and ends before a colon, a comment or, inside brackets, an indicator.
-/

namespace ContractInference.Yaml

def isFlowIndicator (c : Char) : Bool := ",[]\x7b\x7d".toList.contains c

/-- A word of a plain scalar ends before this character. -/
def endsWord (flow : Bool) (c : Char) (rest : List Char) : Bool :=
  isBlankOrEnd c ||
    (c = ':' && (isBlankOrEnd (peek rest 0) || (flow && isFlowIndicator (peek rest 0)))) ||
    (flow && (c = '?' || isFlowIndicator c))

def plainWord (flow : Bool) : List Char → List Char × List Char
  | [] => ([], [])
  | c :: rest =>
    if endsWord flow c rest then ([], c :: rest)
    else
      let (word, rest) := plainWord flow rest
      (c :: word, rest)

structure PlainSpace where
  /-- What it counts as, or nothing if the scalar ends before it. -/
  joint : List Char
  /-- The column after the last line end, if there is one. -/
  column : Option Nat
  rest : List Char

/-- Skips lines without text, and ends before a separator of documents. Gives the line ends, the
column and the rest. -/
def plainBreaks : Nat → Nat → List Char → Option (List Char) × Nat × List Char
  | 0, column, cs => (some [], column, cs)
  | fuel + 1, column, cs =>
    match cs with
    | ' ' :: rest => plainBreaks fuel (column + 1) rest
    | _ =>
      match lineBreak? cs with
      | some (b, rest) =>
        if isSeparator rest then (none, 0, rest)
        else
          let (bs, column, rest) := plainBreaks fuel 0 rest
          (bs.map (b :: ·), column, rest)
      | none => (some [], column, cs)

def plainSpace (cs : List Char) : PlainSpace :=
  let blanks := cs.takeWhile (· = ' ')
  let rest := cs.dropWhile (· = ' ')
  match lineBreak? rest with
  | some (b, rest) =>
    if isSeparator rest then { joint := [], column := some 0, rest }
    else
      let (bs, column, rest) := plainBreaks (rest.length + 1) 0 rest
      { joint := (bs.map (joinLines b)).getD [], column := some column, rest }
  | none => { joint := blanks, column := none, rest }

/-- The text of a plain scalar, whether a line ends after it, and the rest. -/
structure Plain where
  text : List Char
  endsLine : Bool
  rest : List Char

def plainFrom (flow : Bool) (indent : Nat) : Nat → List Char → Plain
  | 0, cs => ⟨[], false, cs⟩
  | fuel + 1, cs =>
    let (word, rest) := plainWord flow cs
    let space := plainSpace rest
    let dedented := match space.column with
      | some column => !flow && column < indent
      | none => false
    let next := (plainWord flow space.rest).1
    if space.joint.isEmpty || peek space.rest 0 = '#' || dedented || next.isEmpty then
      ⟨word, space.column.isSome, space.rest⟩
    else
      let p := plainFrom flow indent fuel space.rest
      { p with text := word ++ space.joint ++ p.text }

/-- A plain scalar at the head. The surrounding block is indented by `outer`, if there is one. -/
def plainScalar (flow : Bool) (outer : Option Nat) (cs : List Char) : Plain :=
  let indent := match outer with
    | some n => n + 1
    | none => 0
  plainFrom flow indent (cs.length + 1) cs

end ContractInference.Yaml
