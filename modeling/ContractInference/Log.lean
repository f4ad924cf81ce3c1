import ContractInference.Datum.Display
import ContractInference.Json.Writer
import ContractInference.Settings.Basic
import ContractInference.Table

/-!
# The log

A message goes to every output whose level it reaches, in the format of the output. Messages of
one scan carry its identifier.
-/

namespace ContractInference

namespace LogLevel

def weight : LogLevel → Nat
  | .debug => 10
  | .info => 20
  | .warning => 30
  | .error => 40
  | .critical => 50

def label : LogLevel → String
  | .debug => "debug"
  | .info => "info"
  | .warning => "warning"
  | .error => "error"
  | .critical => "critical"

def ofLabel? (s : String) : Option LogLevel :=
  [debug, info, warning, error, critical].find? (·.label == s)

end LogLevel

/-- The identifier to use: the given one, or a fresh one in place of an empty text. -/
def chooseScanId (fresh given : String) : String := if given.isEmpty then fresh else given

structure LogMessage where
  level : LogLevel := .info
  event : String
  /-- The name of the part that speaks. -/
  speaker : String := ""
  fields : List (String × Datum) := []

namespace LogMessage

/-- All that is written of a message. What the log itself says replaces fields of the same
name. -/
def entries (m : LogMessage) (time : String) (scanId : Option String) : Table String Datum :=
  let spoken := if m.speaker.isEmpty then [] else [("logger", Datum.text m.speaker)]
  Table.ofList (spoken ++ m.fields ++
    [("event", .text m.event), ("level", .text m.level.label), ("timestamp", .text time)] ++
    (scanId.map fun id => ("scan_id", Datum.text id)).toList)

end LogMessage

namespace Log

def isBare (s : String) : Bool :=
  !s.isEmpty && s.toList.all fun c => !" \t=\r\n\"'".toList.contains c

def consoleValue : Datum → String
  | .scalar (.text s) => if isBare s then s else quoted s
  | d => d.inspect

/-- The entries that stand first in a console line, without their names. -/
def consoleColumns : List (String × (Datum → String)) :=
  let bracketed (d : Datum) : String := "[" ++ d.display ++ "]"
  [("timestamp", Datum.display), ("level", bracketed), ("event", Datum.display),
    ("logger", bracketed), ("logger_name", bracketed)]

/-- The line for a terminal. The entries without a column follow in the order of their names. -/
def consoleLine (entries : Table String Datum) : String :=
  let columns := consoleColumns.filterMap fun (key, shown) => (Table.get? entries key).map shown
  let others := (entries.filter fun (key, _) => (consoleColumns.lookup key).isNone).mergeSort
    fun a b => a.1 ≤ b.1
  let parts := columns ++ others.map fun (key, d) => key ++ "=" ++ consoleValue d
  let line := " ".intercalate (parts.filter (!·.isEmpty))
  String.ofList (line.toList.reverse.dropWhile (· == ' ')).reverse

def line : LogFormat → Table String Datum → String
  | .json, entries => Json.writeDatum (.record entries)
  | .console, entries => consoleLine entries

def outputLevel (s : LoggingSettings) (o : LogOutput) : LogLevel := o.level.getD s.level

/-- A message has to reach the level of the whole log and that of the output. -/
def accepts (s : LoggingSettings) (o : LogOutput) (level : LogLevel) : Bool :=
  s.level.weight ≤ level.weight && (outputLevel s o).weight ≤ level.weight

def deliveries (s : LoggingSettings) (level : LogLevel) (entries : Table String Datum) :
    List (String × String) :=
  (s.outputs.filter fun o => accepts s o level).map fun o =>
    (o.destination, line o.format entries ++ "\n")

def isStream (destination : String) : Bool := destination == "stderr" || destination == "stdout"

def write (texts : Table String String) (given : List (String × String)) : Table String String :=
  given.foldl (fun t (destination, s) =>
    Table.put t destination ((Table.get? t destination).getD "" ++ s)) texts

/-- The log of a program that writes all its messages to one output on the error stream. -/
def simpleSettings (level : Datum) (asJson : Bool) : Datum :=
  .record [("level", level),
    ("outputs", .list [.record [("format", .text (if asJson then "json" else "console"))]])]

end Log

end ContractInference
