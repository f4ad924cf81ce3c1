import ContractInference.Datum.Display
import ContractInference.Number.Reading

/-!
# Checking data

Reading values of the wanted types from data. All parts of a value are checked, and every part
that does not fit is an issue with its place.
-/

namespace ContractInference

/-- A step from a value to a part of it. -/
inductive Step where
  | key (name : String)
  | index (n : Nat)
deriving DecidableEq, Repr

inductive Complaint where
  | notText
  | notList
  | notMapping
  | notSection (name : String)
  | notInteger
  | fractional
  | unreadableInteger
  | integerTooLarge
  | notFinite
  | notNumber
  | unreadableNumber
  | notOneOf (choices : List String)
  | refused (reason : String)
  | unexpected
deriving DecidableEq, Repr

namespace Complaint

def code : Complaint → String
  | .notText => "string_type"
  | .notList => "list_type"
  | .notMapping => "dict_type"
  | .notSection _ => "model_type"
  | .notInteger => "int_type"
  | .fractional => "int_from_float"
  | .unreadableInteger => "int_parsing"
  | .integerTooLarge => "int_parsing_size"
  | .notFinite => "finite_number"
  | .notNumber => "float_type"
  | .unreadableNumber => "float_parsing"
  | .notOneOf _ => "literal_error"
  | .refused _ => "value_error"
  | .unexpected => "extra_forbidden"

/-- Quoted choices with commas between them and `or` before the last one. -/
def choicesText (choices : List String) : String :=
  match choices.reverse.map (fun c => s!"'{c}'") with
  | [] => ""
  | [only] => only
  | last :: rest => ", ".intercalate rest.reverse ++ " or " ++ last

def message : Complaint → String
  | .notText => "Input should be a valid string"
  | .notList => "Input should be a valid list"
  | .notMapping => "Input should be a valid dictionary"
  | .notSection name => "Input should be a valid dictionary or instance of " ++ name
  | .notInteger => "Input should be a valid integer"
  | .fractional => "Input should be a valid integer, got a number with a fractional part"
  | .unreadableInteger => "Input should be a valid integer, unable to parse string as an integer"
  | .integerTooLarge => "Unable to parse input string as an integer, exceeded maximum size"
  | .notFinite => "Input should be a finite number"
  | .notNumber => "Input should be a valid number"
  | .unreadableNumber => "Input should be a valid number, unable to parse string as a number"
  | .notOneOf choices => "Input should be " ++ choicesText choices
  | .refused reason => "Value error, " ++ reason
  | .unexpected => "Extra inputs are not permitted"

end Complaint

structure Issue where
  place : List Step
  complaint : Complaint
  /-- The part that does not fit. -/
  input : Datum
deriving Repr

/-- The outcome of a check. A home directory that is not known ends it at once. -/
inductive Check (α : Type) where
  | valid (a : α)
  | invalid (issues : List Issue)
  | homeless
deriving Repr

namespace Check

variable {α β : Type}

def map (f : α → β) : Check α → Check β
  | valid a => .valid (f a)
  | invalid issues => .invalid issues
  | homeless => .homeless

/-- Checks both parts, and keeps the issues of both. -/
def seq (f : Check (α → β)) (x : Check α) : Check β :=
  match f, x with
  | .valid f, .valid a => .valid (f a)
  | .homeless, _ => .homeless
  | _, .homeless => .homeless
  | .invalid is, .invalid js => .invalid (is ++ js)
  | .invalid is, .valid _ => .invalid is
  | .valid _, .invalid js => .invalid js

instance : Applicative Check where
  pure := .valid
  seq f x := seq f (x ())

def andThen (x : Check α) (f : α → Check β) : Check β :=
  match x with
  | .valid a => f a
  | .invalid issues => .invalid issues
  | .homeless => .homeless

def complain (c : Complaint) (input : Datum) : Check α := .invalid [⟨[], c, input⟩]

def inside (step : Step) : Check α → Check α
  | invalid issues => .invalid (issues.map fun i => { i with place := step :: i.place })
  | valid a => .valid a
  | homeless => .homeless

def all : List (Check α) → Check (List α)
  | [] => .valid []
  | c :: cs => seq (c.map List.cons) (all cs)

def text : Datum → Check String
  | .text s => .valid s
  | d => complain .notText d

def plainInteger? (cs : List Char) : Option Int :=
  let (negative, digits) := readSign cs
  (natOfRadix? 10 digits).map (signed negative)

/-- Drops the zeros in front of a number; single underscores between them go with them. -/
def dropZeros (previous : Char) : List Char → Option (List Char)
  | [] => some [previous]
  | c :: cs =>
    if c = '0' || (c = '_' && previous = '0') then dropZeros c cs
    else if c.isDigit then some (c :: cs)
    else if c = '.' then some (previous :: c :: cs)
    else none

def dropLeadingZeros : List Char → Option (List Char)
  | '0' :: cs => dropZeros '0' cs
  | c :: cs => if c.isDigit || c = '-' then some (c :: cs) else none
  | [] => none

def dropZeroFraction (cs : List Char) : List Char :=
  match cs.dropWhile (· ≠ '.') with
  | '.' :: zeros => if zeros.all (· = '0') then cs.takeWhile (· ≠ '.') else cs
  | _ => cs

/-- Drops underscores that stand singly inside a number. -/
def dropUnderscores (cs : List Char) : List Char :=
  let doubled := (cs.zip (cs.drop 1)).any (fun (a, b) => a = '_' && b = '_')
  if cs.head? == some '_' || cs.getLast? == some '_' || doubled then cs
  else cs.filter (· ≠ '_')

def trimmed (s : String) : List Char :=
  let outer (c : Char) : Bool := isBlank c && !(0x1C ≤ c.toNat && c.toNat ≤ 0x1F)
  (s.toList.dropWhile outer |>.reverse.dropWhile outer).reverse

/-- An integer in a text, with blanks around it, with underscores, or with a fraction of zeros. -/
def integerOfText? (cs : List Char) : Option Int :=
  match plainInteger? cs with
  | some n => some n
  | none =>
    (dropLeadingZeros cs).bind fun cs => plainInteger? (dropUnderscores (dropZeroFraction cs))

/-- Beyond this bound a number with a floating point is not taken for an integer. -/
def integerBound : Nat := 0x8000000000000000

def integer : Datum → Check Int
  | .int n => .valid n
  | .bool b => .valid (if b then 1 else 0)
  | d@(.float x) =>
    match x.toInt? with
    | some n =>
      if n < integerBound && -integerBound ≤ n then .valid n else complain .integerTooLarge d
    | none =>
      match x with
      | .finite .. => complain .fractional d
      | _ => complain .notFinite d
  | d@(.text s) =>
    let cs := trimmed s
    if maxIntegerDigits < cs.length then complain .integerTooLarge d
    else
      match integerOfText? cs with
      | some n => .valid n
      | none => complain .unreadableInteger d
  | d => complain .notInteger d

/-- A decimal fraction in a text, or a word for infinity or no number. -/
def numberOfChars? (cs : List Char) : Option Binary64 :=
  let (negative, body) := readSign cs
  let word := String.ofList (body.map Char.toLower)
  if word == "inf" || word == "infinity" then some (.infinite negative)
  else if word == "nan" then some .nan
  else decimalOfChars? negative body

def number : Datum → Check Binary64
  | .float x => .valid x
  | .int n => .valid (.ofInt n)
  | .bool b => .valid (.ofInt (if b then 1 else 0))
  | d@(.text s) =>
    let cs := trimmed s
    match (numberOfChars? cs).or (numberOfChars? (dropUnderscores cs)) with
    | some x => .valid x
    | none => complain .unreadableNumber d
  | d => complain .notNumber d

def oneOf (choices : List (String × α)) (d : Datum) : Check α :=
  match d with
  | .text s =>
    match choices.lookup s with
    | some a => .valid a
    | none => complain (.notOneOf (choices.map (·.1))) d
  | _ => complain (.notOneOf (choices.map (·.1))) d

def list (item : Datum → Check α) : Datum → Check (List α)
  | .list items => all (items.mapIdx fun i d => (item d).inside (.index i))
  | d => complain .notList d

def texts : Datum → Check (List String) := list text

def stepOf : Scalar → Step
  | .text s => .key s
  | .int n => if 0 ≤ n then .index n.toNat else .key (toString n)
  | s => .key s.inspect

def mapping (item : Datum → Check α) : Datum → Check (List (String × α))
  | .map entries => all (entries.map fun (k, d) =>
      let key : Check String := match k with
        | .text s => .valid s
        | _ =>
          ((complain .notText (.scalar k) : Check String).inside (.key "[key]")).inside (stepOf k)
      seq (key.map Prod.mk) ((item d).inside (stepOf k)))
  | d => complain .notMapping d

/-- A mapping with known keys. -/
def entriesOf (name : String) (d : Datum) (body : List (Scalar × Datum) → Check α) : Check α :=
  match d with
  | .map entries => body entries
  | _ => complain (.notSection name) d

/-- The value under a key, or the default. -/
def field (entries : List (Scalar × Datum)) (key : String) (default : α)
    (check : Datum → Check α) : Check α :=
  match Datum.lookup? (.text key) entries with
  | some d => (check d).inside (.key key)
  | none => .valid default

end Check

end ContractInference
