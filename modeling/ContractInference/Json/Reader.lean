import ContractInference.Datum.Basic
import ContractInference.Json.Quoted

/-!
# Reading JSON

Integers and numbers with a fraction or an exponent are told apart. The words `NaN`,
`Infinity` and `-Infinity` are numbers too.
-/

namespace ContractInference

/-- Decimal integers longer than this are not converted from or to text. -/
def maxIntegerDigits : Nat := 4300

namespace Json

def isSpace (c : Char) : Bool := c = ' ' || c = '\t' || c = '\n' || c = '\r'

def skipSpace (cs : List Char) : List Char := cs.dropWhile isSpace

def natOfDigits (cs : List Char) : Nat :=
  cs.foldl (fun n c => 10 * n + (c.toNat - '0'.toNat)) 0

def readExponent : List Char → Option Int × List Char
  | e :: rest =>
    if e = 'e' || e = 'E' then
      let (negative, digits) := match rest with
        | '-' :: r => (true, r)
        | '+' :: r => (false, r)
        | r => (false, r)
      let ds := digits.takeWhile Char.isDigit
      if ds.isEmpty then (none, e :: rest)
      else
        let n : Int := natOfDigits ds
        (some (if negative then -n else n), digits.dropWhile Char.isDigit)
    else (none, e :: rest)
  | [] => (none, [])

def readFraction : List Char → Option (List Char) × List Char
  | '.' :: rest =>
    let ds := rest.takeWhile Char.isDigit
    if ds.isEmpty then (none, '.' :: rest) else (some ds, rest.dropWhile Char.isDigit)
  | cs => (none, cs)

def readNumber (negative : Bool) (cs : List Char) : Option (Datum × List Char) :=
  let whole := match cs with
    | '0' :: _ => ['0']
    | _ => cs.takeWhile Char.isDigit
  if whole.isEmpty then none
  else
    let (fraction, rest) := readFraction (cs.drop whole.length)
    let (exponent, rest) := readExponent rest
    match fraction, exponent with
    | none, none =>
      if maxIntegerDigits < whole.length then none
      else
        let n : Int := natOfDigits whole
        some (.int (if negative then -n else n), rest)
    | _, _ =>
      let digits := fraction.getD []
      let shift : Int := exponent.getD 0 - (digits.length : Int)
      some (.float (Binary64.ofDecimal negative (natOfDigits (whole ++ digits)) shift), rest)

def readWord (cs : List Char) : Option (Datum × List Char) :=
  let words : List (String × Datum) :=
    [("null", .null), ("true", .bool true), ("false", .bool false), ("NaN", .float .nan),
      ("Infinity", .float (.infinite false)), ("-Infinity", .float (.infinite true))]
  words.findSome? fun (w, d) =>
    if w.toList.isPrefixOf cs then some (d, cs.drop w.length) else none

mutual

/-- A value at the head of the characters; nesting and length are bounded by the fuel. -/
def readValue : Nat → List Char → Option (Datum × List Char)
  | 0, _ => none
  | fuel + 1, cs =>
    match cs with
    | '"' :: rest => do
      let (ps, rest) ← readBody rest
      return (.text (Text.toString ⟨ps⟩), rest)
    | '[' :: rest =>
      match skipSpace rest with
      | ']' :: rest => some (.list [], rest)
      | rest => do
        let (items, rest) ← readItems fuel rest
        return (.list items, rest)
    | '\x7b' :: rest =>
      match skipSpace rest with
      | '\x7d' :: rest => some (.map [], rest)
      | rest => do
        let (entries, rest) ← readMembers fuel rest
        return (.map (Datum.ofEntries entries), rest)
    | '-' :: rest => (readNumber true rest).or (readWord cs)
    | cs => (readNumber false cs).or (readWord cs)

def readItems : Nat → List Char → Option (List Datum × List Char)
  | 0, _ => none
  | fuel + 1, cs => do
    let (d, rest) ← readValue fuel (skipSpace cs)
    match skipSpace rest with
    | ',' :: rest =>
      let (ds, rest) ← readItems fuel rest
      return (d :: ds, rest)
    | ']' :: rest => return ([d], rest)
    | _ => none

def readMembers : Nat → List Char → Option (List (Scalar × Datum) × List Char)
  | 0, _ => none
  | fuel + 1, cs => do
    let '"' :: rest := skipSpace cs | none
    let (ps, rest) ← readBody rest
    let ':' :: rest := skipSpace rest | none
    let (d, rest) ← readValue fuel (skipSpace rest)
    let entry := (Scalar.text (Text.toString ⟨ps⟩), d)
    match skipSpace rest with
    | ',' :: rest =>
      let (entries, rest) ← readMembers fuel rest
      return (entry :: entries, rest)
    | '\x7d' :: rest => return ([entry], rest)
    | _ => none

end

def parse? (s : String) : Option Datum :=
  let cs := s.toList
  match readValue (2 * cs.length + 2) (skipSpace cs) with
  | some (d, rest) => if (skipSpace rest).isEmpty then some d else none
  | none => none

end Json

end ContractInference
