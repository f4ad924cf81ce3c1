import ContractInference.Datum.Basic
import ContractInference.Number.Shortest
import ContractInference.Text.Printable

/-!
# Display of data

The text that messages and console lines show for a value: constants are capitalised words,
text inside a collection is quoted, and a quoted text uses single quotes unless it holds one
and no double quote.
-/

namespace ContractInference

def hexDigits (width n : Nat) : List Char :=
  let ds := Nat.toDigits 16 n
  List.replicate (width - ds.length) '0' ++ ds

/-- A character inside quotes `quote`. -/
def escapeQuoted (quote c : Char) : List Char :=
  if c = quote || c = '\\' then ['\\', c]
  else if c = '\n' then ['\\', 'n']
  else if c = '\r' then ['\\', 'r']
  else if c = '\t' then ['\\', 't']
  else if isPrintable c then [c]
  else if c.toNat < 0x100 then '\\' :: 'x' :: hexDigits 2 c.toNat
  else if c.toNat < 0x10000 then '\\' :: 'u' :: hexDigits 4 c.toNat
  else '\\' :: 'U' :: hexDigits 8 c.toNat

def quoted (s : String) : String :=
  let cs := s.toList
  let quote := if cs.contains '\'' && !cs.contains '"' then '"' else '\''
  String.ofList (quote :: cs.flatMap (escapeQuoted quote) ++ [quote])

def paddedDigits (width n : Nat) : String :=
  let ds := Nat.toDigits 10 n
  String.ofList (List.replicate (width - ds.length) '0' ++ ds)

namespace Instant

def offsetText (minutes : Int) : String :=
  (if minutes < 0 then "-" else "+") ++ paddedDigits 2 (minutes.natAbs / 60) ++ ":" ++
    paddedDigits 2 (minutes.natAbs % 60)

/-- Calendar notation: `2001-12-14`, `2001-12-14 21:59:43.100000+00:00`. -/
def text (i : Instant) : String :=
  let date := paddedDigits 4 i.year ++ "-" ++ paddedDigits 2 i.month ++ "-" ++
    paddedDigits 2 i.day
  match i.time with
  | none => date
  | some (h, m, s, us) =>
    date ++ " " ++ paddedDigits 2 h ++ ":" ++ paddedDigits 2 m ++ ":" ++ paddedDigits 2 s ++
      (if us = 0 then "" else "." ++ paddedDigits 6 us) ++
      (match i.offsetMinutes with
        | some o => offsetText o
        | none => "")

def durationInspect (minutes : Int) : String :=
  let days := Int.fdiv minutes 1440
  let seconds := Int.fmod minutes 1440 * 60
  let parts := (if days = 0 then [] else ["days=" ++ toString days]) ++
    (if seconds = 0 then [] else ["seconds=" ++ toString seconds])
  "datetime.timedelta(" ++ ", ".intercalate parts ++ ")"

def offsetInspect (minutes : Int) : String :=
  if minutes = 0 then "datetime.timezone.utc"
  else "datetime.timezone(" ++ durationInspect minutes ++ ")"

/-- Notation inside a collection, as a constructor with its arguments. -/
def inspect (i : Instant) : String :=
  let day := [toString i.year, toString i.month, toString i.day]
  match i.time with
  | none => "datetime.date(" ++ ", ".intercalate day ++ ")"
  | some (h, m, s, us) =>
    let clock := if us = 0 then (if s = 0 then [h, m] else [h, m, s]) else [h, m, s, us]
    let zone := match i.offsetMinutes with
      | some o => ["tzinfo=" ++ offsetInspect o]
      | none => []
    "datetime.datetime(" ++ ", ".intercalate (day ++ clock.map toString ++ zone) ++ ")"

end Instant

namespace Scalar

def inspect : Scalar → String
  | .null => "None"
  | .bool b => if b then "True" else "False"
  | .int n => toString n
  | .float x => Binary64.Layout.plain.text x
  | .text s => quoted s
  | .instant i => i.inspect

/-- Notation on its own: text is bare. -/
def display : Scalar → String
  | .text s => s
  | .instant i => i.text
  | s => s.inspect

end Scalar

namespace Datum

mutual

def inspect : Datum → String
  | .scalar s => s.inspect
  | .list items => "[" ++ ", ".intercalate (inspectItems items) ++ "]"
  | .map entries => "\x7b" ++ ", ".intercalate (inspectEntries entries) ++ "\x7d"

def inspectItems : List Datum → List String
  | [] => []
  | d :: ds => d.inspect :: inspectItems ds

def inspectEntries : List (Scalar × Datum) → List String
  | [] => []
  | (k, v) :: rest => (k.inspect ++ ": " ++ v.inspect) :: inspectEntries rest

end

def display : Datum → String
  | .scalar s => s.display
  | d => d.inspect

end Datum

end ContractInference
