import ContractInference.Json.Quoted
import ContractInference.Yaml.Error
import ContractInference.Yaml.Line

/-!
# Quoted scalars

Between single quotes a quote is written twice; between double quotes there are escapes. Lines
are joined in both.
-/

namespace ContractInference.Yaml

/-- Blank lines and the blanks before the next text. A separator of documents may not stand
among them. -/
def blankLines : Nat → List Char → Except YamlError (List Char × List Char)
  | 0, _ => .error .malformed
  | fuel + 1, cs =>
    if isSeparator cs then .error .malformed
    else
      let cs := cs.dropWhile isSpaceOrTab
      match lineBreak? cs with
      | some (b, rest) => do
        let (bs, rest) ← blankLines fuel rest
        return (b :: bs, rest)
      | none => .ok ([], cs)

def quotedSpace (fuel : Nat) (cs : List Char) : Except YamlError (List Char × List Char) :=
  let blanks := cs.takeWhile isSpaceOrTab
  let rest := cs.dropWhile isSpaceOrTab
  match lineBreak? rest with
  | some (b, rest) => do
    let (bs, rest) ← blankLines fuel rest
    return (joinLines b bs, rest)
  | none => .ok (blanks, rest)

def shortEscapes : List (Char × Nat) :=
  [('0', 0), ('a', 7), ('b', 8), ('t', 9), ('\t', 9), ('n', 10), ('v', 11), ('f', 12), ('r', 13),
    ('e', 0x1B), (' ', 0x20), ('"', 0x22), ('\\', 0x5C), ('/', 0x2F), ('N', 0x85), ('_', 0xA0),
    ('L', 0x2028), ('P', 0x2029)]

def hexLengths : List (Char × Nat) := [('x', 2), ('u', 4), ('U', 8)]

def hexNumber? (count : Nat) (cs : List Char) : Option Nat :=
  if cs.length < count then none
  else (cs.take count).foldlM (fun n c => (Json.hexValue? c).map (16 * n + ·)) 0

def quotedEscape (fuel : Nat) (cs : List Char) :
    Except YamlError (List CodePoint × List Char) :=
  match cs with
  | [] => .error .malformed
  | c :: rest =>
    match shortEscapes.lookup c, hexLengths.lookup c with
    | some n, _ => .ok ([CodePoint.ofNat n], rest)
    | none, some count =>
      match hexNumber? count rest with
      | some n =>
        if n < 0x110000 then .ok ([CodePoint.ofNat n], rest.drop count)
        else .error .codePointTooLarge
      | none => .error .malformed
    | none, none =>
      match lineBreak? cs with
      | some (_, rest) => do
        let (bs, rest) ← blankLines fuel rest
        return (bs.map CodePoint.ofChar, rest)
      | none => .error .malformed

/-- The code points up to the closing quote, and what follows it. -/
def quotedBody (quote : Char) : Nat → List Char → Except YamlError (List CodePoint × List Char)
  | 0, _ => .error .malformed
  | _, [] => .error .malformed
  | fuel + 1, c :: rest => do
    if c = quote then
      if quote = '\'' && peek rest 0 = '\'' then
        let (ps, rest) ← quotedBody quote fuel (rest.drop 1)
        return (CodePoint.ofChar c :: ps, rest)
      else return ([], rest)
    else if isSpaceOrTab c || isBreak c then
      let (cs, rest) ← quotedSpace fuel (c :: rest)
      let (ps, rest) ← quotedBody quote fuel rest
      return (cs.map CodePoint.ofChar ++ ps, rest)
    else if quote = '"' && c = '\\' then
      let (es, rest) ← quotedEscape fuel rest
      let (ps, rest) ← quotedBody quote fuel rest
      return (es ++ ps, rest)
    else
      let (ps, rest) ← quotedBody quote fuel rest
      return (CodePoint.ofChar c :: ps, rest)

def quotedScalar (quote : Char) (cs : List Char) : Except YamlError (String × List Char) := do
  let (ps, rest) ← quotedBody quote (cs.length + 1) cs
  return (Text.toString ⟨ps⟩, rest)

end ContractInference.Yaml
