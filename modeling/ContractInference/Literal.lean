import ContractInference.Failure
import ContractInference.Number.Reading
import ContractInference.Number.Shortest
import ContractInference.Syntax.Node
import ContractInference.Text.Lowercase

/-!
# Literal values

The value that a literal expression denotes, and the two ways of writing it down: as it would
appear inside a template, and as JSON.
-/

namespace ContractInference

inductive Literal where
  | null
  | bool (b : Bool)
  | int (n : Int)
  | float (x : Binary64)
  | text (t : Text)
deriving DecidableEq, Repr

namespace Literal

/-- Below this magnitude a number without a fraction is an integer. -/
def integerBound : Nat := 1000000000000000000000

def ofFloat (x : Binary64) : Literal :=
  match x.toInt? with
  | some n => if n.natAbs < integerBound then .int n else .float x
  | none => .float x

/-- The value of a numeral. Separators are dropped; integers with a suffix or a radix mark are
read exactly, all other numerals as the nearest double. -/
def ofNumeral? (s : String) : Option Literal :=
  let cs := (lowercase (String.ofList (s.toList.filter (· ≠ '_')))).toList
  let text := String.ofList cs
  match cs.getLast? with
  | some 'n' => (readInteger? (String.ofList cs.dropLast)).map .int
  | _ =>
    if text.startsWith "0x" || text.startsWith "0o" || text.startsWith "0b" then
      (readInteger? text).map .int
    else (readFloat? text).map ofFloat

def negate? : Literal → Option Literal
  | .int n => some (.int (-n))
  | .float x => some (.float x.neg)
  | _ => none

/-- The text of an escape: what it denotes in JSON, and otherwise what follows the backslash. -/
def decodeEscape (s : String) : Text :=
  match Json.readQuoted? s.toList with
  | some t => t
  | none => Text.ofChars (s.toList.drop 1)

def decodePiece (n : Node) : Text :=
  if n.isKind "string_fragment" then Text.ofString n.text
  else if n.isKind "escape_sequence" then decodeEscape n.text
  else .empty

def decodeString (n : Node) : Text := Text.concat (n.namedChildren.map decodePiece)

/-- The value of an expression, if it is a literal: a string, a number with or without a minus,
a truth value, null, or a template without substitutions. -/
def ofNode? (n : Node) : Option Literal :=
  match n.kind with
  | "string" => some (.text (decodeString n))
  | "number" => ofNumeral? n.text
  | "true" => some (.bool true)
  | "false" => some (.bool false)
  | "null" => some .null
  | "template_string" =>
    if n.namedChildren.any (·.isKind "template_substitution") then none
    else some (.text (Text.ofChars (n.text.toList.drop 1).dropLast))
  | "unary_expression" =>
    match n.child? "argument" with
    | some argument =>
      if n.childText "operator" == "-" && argument.isKind "number" then
        (ofNumeral? argument.text).bind negate?
      else none
    | none => none
  | _ => none

/-- Decimal digits, unless there are too many. -/
def integerText (n : Int) : Except Failure Text :=
  if n.natAbs < Nat.pow 10 maxIntegerDigits then .ok (Text.ofString (toString n))
  else .error .integerTooLong

def display : Literal → Except Failure Text
  | .null => .ok "null"
  | .bool b => .ok (if b then "true" else "false")
  | .int n => integerText n
  | .float x => .ok (Binary64.Layout.plain.text x)
  | .text t => .ok t

def json : Literal → Except Failure Text
  | .null => .ok "null"
  | .bool b => .ok (if b then "true" else "false")
  | .int n => integerText n
  | .float x => .ok (Binary64.Layout.interchange.text x)
  | .text t => .ok (Json.write t)

/-- The JSON text of a default value; arrays and objects keep only their brackets. -/
def jsonOfNode? (n : Node) : Except Failure (Option Text) :=
  match ofNode? n with
  | some v => some <$> v.json
  | none =>
    if n.isKind "array" then .ok (some "[]")
    else if n.isKind "object" then .ok (some "\x7b\x7d")
    else .ok none

end Literal

end ContractInference
