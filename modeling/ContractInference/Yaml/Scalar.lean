import ContractInference.Number.Reading
import ContractInference.Text.Lowercase
import ContractInference.Yaml.Error

/-!
# Meaning of scalars

A plain scalar is a truth value, a number, an instant or nothing if it has the form of one, and
text otherwise. A tag can ask for one of them.
-/

namespace ContractInference.Yaml

def truthWords : List (String × Bool) :=
  [("yes", true), ("no", false), ("true", true), ("false", false), ("on", true), ("off", false)]

/-- A word for a truth value in small letters, in capitals, or with one capital in front. -/
def isTruth (text : String) : Bool :=
  truthWords.any fun (w, _) => text == w || text == w.toUpper || text == w.capitalize

def truthOf (text : String) : Except YamlError Bool :=
  let word := lowercase text
  match truthWords.lookup word with
  | some b => .ok b
  | none => .error (.notTruth word)

def isDigitOrLow (c : Char) : Bool := c.isDigit || c = '_'

/-- A digit and then digits and underscores. -/
def isDigits : List Char → Bool
  | c :: cs => c.isDigit && cs.all isDigitOrLow
  | [] => false

/-- Two digits below sixty, or one. -/
def isSixtieth : List Char → Bool
  | [a] => a.isDigit
  | [a, b] => a.isDigit && a ≤ '5' && b.isDigit
  | _ => false

def colonParts (cs : List Char) : List (List Char) := cs.splitOn ':'

def isSexagesimal (cs : List Char) : Bool :=
  match colonParts cs with
  | first :: rest => isDigits first && !rest.isEmpty && rest.all isSixtieth
  | [] => false

/-- An exponent has a sign. -/
def isExponent : List Char → Bool
  | [] => true
  | e :: sign :: digits =>
    (e = 'e' || e = 'E') && (sign = '+' || sign = '-') && !digits.isEmpty &&
      digits.all Char.isDigit
  | _ => false

def isFloat (text : String) : Bool :=
  let cs := text.toList
  let body := (readSign cs).2
  let word := String.ofList body
  let whole := body.takeWhile (· ≠ '.')
  match body.dropWhile (· ≠ '.') with
  | '.' :: fraction =>
    [".inf", ".Inf", ".INF"].contains word || [".nan", ".NaN", ".NAN"].contains text ||
      (isDigits whole && isExponent (fraction.dropWhile isDigitOrLow)) ||
      (whole.isEmpty && body.length = cs.length && (peekDigit fraction) &&
        isExponent (fraction.dropWhile isDigitOrLow)) ||
      (isSexagesimal whole && fraction.all isDigitOrLow)
  | _ => false
where
  peekDigit : List Char → Bool
    | c :: _ => c.isDigit
    | [] => false

def isInteger (text : String) : Bool :=
  match (readSign text.toList).2 with
  | ['0'] => true
  | '0' :: 'b' :: cs => !cs.isEmpty && cs.all fun c => c = '0' || c = '1' || c = '_'
  | '0' :: 'x' :: cs => !cs.isEmpty && cs.all fun c => (Json.hexValue? c).isSome || c = '_'
  | '0' :: cs => cs.all fun c => ('0' ≤ c && c ≤ '7') || c = '_'
  | cs => isDigits cs || isSexagesimal cs

def natOfDigits (base : Nat) (cs : List Char) : Except YamlError Nat :=
  if base = 10 && maxIntegerDigits < cs.length && cs.all Char.isDigit then
    .error (.integerTooLong cs.length)
  else
    match natOfRadix? base cs with
    | some n => .ok n
    | none => .error (.notInteger (String.ofList cs) base)

/-- Parts of a number in base sixty, the greatest first. -/
def sumOfSixtieths (parts : List Nat) : Nat := parts.foldl (fun n p => 60 * n + p) 0

/-- The sign and the rest of a number, without underscores. -/
def signAndBody (text : String) : Except YamlError (Bool × List Char) :=
  match text.toList.filter (· ≠ '_') with
  | [] => .error .emptyNumber
  | cs => .ok (readSign cs)

def integerOf (text : String) : Except YamlError Int := do
  let (negative, cs) ← signAndBody text
  let n ← match cs with
    | ['0'] => .ok 0
    | '0' :: 'b' :: cs => natOfDigits 2 cs
    | '0' :: 'x' :: cs => natOfDigits 16 cs
    | '0' :: _ => natOfDigits 8 cs
    | [] => .error .emptyNumber
    | cs =>
      if cs.contains ':' then sumOfSixtieths <$> (colonParts cs).mapM (natOfDigits 10)
      else natOfDigits 10 cs
  return signed negative n

def floatOfChars (cs : List Char) : Except YamlError Binary64 :=
  match readFloat? (String.ofList cs) with
  | some x => .ok x
  | none => .error (.notFloat (String.ofList cs))

/-- The sum of parts in base sixty, the smallest first, rounded at every step. -/
def sumOfParts (parts : List Binary64) : Binary64 :=
  (parts.foldl (fun (total, base) x => (total.add (x.mul (.ofInt base)), 60 * base))
    (Binary64.zero, (1 : Int))).1

def floatOf (text : String) : Except YamlError Binary64 := do
  let (negative, cs) ← signAndBody (lowercase text)
  let x ←
    if cs = ".inf".toList then .ok (.infinite false)
    else if cs = ".nan".toList then .ok .nan
    else if cs.contains ':' then
      (fun parts => sumOfParts parts.reverse) <$> (colonParts cs).mapM floatOfChars
    else floatOfChars cs
  return if negative then x.neg else x

/-- A number of so many digits at the head, with how many there were. -/
def digitsBetween? (least most : Nat) (cs : List Char) : Option (Nat × Nat × List Char) :=
  let ds := (cs.take most).takeWhile Char.isDigit
  if ds.length < least then none
  else some (Json.natOfDigits ds, ds.length, cs.drop ds.length)

def skipChar? (c : Char) : List Char → Option (List Char)
  | x :: cs => if x = c then some cs else none
  | [] => none

def offset? (cs : List Char) : Option (Option Int) :=
  match cs.dropWhile fun c => c = ' ' || c = '\t' with
  | [] => if cs.isEmpty then some none else none
  | ['Z'] => some (some 0)
  | sign :: cs =>
    if sign = '+' || sign = '-' then do
      let (hours, _, cs) ← digitsBetween? 1 2 cs
      let minutes ←
        if cs.isEmpty then some 0
        else do
          let (minutes, _, cs) ← digitsBetween? 2 2 (← skipChar? ':' cs)
          if cs.isEmpty then some minutes else none
      return some (signed (sign = '-') (60 * hours + minutes))
    else none

def microseconds (digits : List Char) : Nat :=
  Json.natOfDigits ((digits ++ List.replicate 6 '0').take 6)

def clock? (cs : List Char) : Option ((Nat × Nat × Nat × Nat) × Option Int) := do
  let cs ← match cs with
    | 'T' :: cs | 't' :: cs => some cs
    | c :: _ =>
      if c = ' ' || c = '\t' then some (cs.dropWhile fun c => c = ' ' || c = '\t') else none
    | [] => none
  let (hour, _, cs) ← digitsBetween? 1 2 cs
  let (minute, _, cs) ← digitsBetween? 2 2 (← skipChar? ':' cs)
  let (second, _, cs) ← digitsBetween? 2 2 (← skipChar? ':' cs)
  let (fraction, cs) := match cs with
    | '.' :: cs => (cs.takeWhile Char.isDigit, cs.dropWhile Char.isDigit)
    | cs => ([], cs)
  let offset ← offset? cs
  return ((hour, minute, second, microseconds fraction), offset)

/-- An instant, and whether its month and its day have two digits. -/
def instant? (text : String) : Option (Instant × Bool) := do
  let (year, _, cs) ← digitsBetween? 4 4 text.toList
  let (month, m, cs) ← digitsBetween? 1 2 (← skipChar? '-' cs)
  let (day, d, cs) ← digitsBetween? 1 2 (← skipChar? '-' cs)
  if cs.isEmpty then return ({ year, month, day }, m = 2 && d = 2)
  else
    let (time, offsetMinutes) ← clock? cs
    return ({ year, month, day, time := some time, offsetMinutes }, m = 2 && d = 2)

/-- A date alone has two digits for the month and two for the day. -/
def isInstant (text : String) : Bool :=
  match instant? text with
  | some (i, full) => i.time.isSome || full
  | none => false

def isLeapYear (year : Nat) : Bool := year % 4 = 0 && (year % 100 ≠ 0 || year % 400 = 0)

def daysIn (year month : Nat) : Nat :=
  if month = 2 then (if isLeapYear year then 29 else 28)
  else if month = 4 || month = 6 || month = 9 || month = 11 then 30
  else 31

/-- Why there is no such instant, if there is none. -/
def calendarRefusal? (i : Instant) : Option String :=
  let (hour, minute, second, _) := i.time.getD (0, 0, 0, 0)
  if 1440 ≤ (i.offsetMinutes.getD 0).natAbs then
    some ("offset must be a timedelta strictly between -timedelta(hours=24) and " ++
      "timedelta(hours=24), not " ++ Instant.durationInspect (i.offsetMinutes.getD 0) ++ ".")
  else if i.year = 0 then some "year 0 is out of range"
  else if i.month = 0 || 12 < i.month then some "month must be in 1..12"
  else if i.day = 0 || daysIn i.year i.month < i.day then some "day is out of range for month"
  else if 23 < hour then some "hour must be in 0..23"
  else if 59 < minute then some "minute must be in 0..59"
  else if 59 < second then some "second must be in 0..59"
  else none

def instantOf (text : String) : Except YamlError Instant :=
  match instant? text with
  | some (i, _) =>
    match calendarRefusal? i with
    | some reason => .error (.notInCalendar reason)
    | none => .ok i
  | none => .error .notInstant

/-- What a scalar stands for. Two plain texts have a meaning as keys only. -/
inductive Meaning where
  | scalar (s : ContractInference.Scalar)
  /-- The entries of other mappings are to be taken over. -/
  | merge
  /-- The text `=`. -/
  | equals
deriving DecidableEq, Repr

def isNothing (text : String) : Bool := ["", "~", "null", "Null", "NULL"].contains text

/-- The kinds of scalars that can be asked for by a tag. -/
def meaningAs (kind text : String) : Except YamlError Meaning :=
  match kind with
  | "null" => .ok (.scalar .null)
  | "bool" => (fun b => .scalar (.bool b)) <$> truthOf text
  | "int" => (fun n => .scalar (.int n)) <$> integerOf text
  | "float" => (fun x => .scalar (.float x)) <$> floatOf text
  | "timestamp" => (fun i => .scalar (.instant i)) <$> instantOf text
  | "str" => .ok (.scalar (.text text))
  | "merge" => .ok .merge
  | "value" => .ok .equals
  | "binary" => .error .notPlain
  | _ => .error .malformed

/-- The kind of scalar whose form a plain text has. -/
def plainKind (text : String) : String :=
  if isTruth text then "bool"
  else if isFloat text then "float"
  else if isInteger text then "int"
  else if text == "<<" then "merge"
  else if isNothing text then "null"
  else if isInstant text then "timestamp"
  else if text == "=" then "value"
  else "str"

end ContractInference.Yaml
