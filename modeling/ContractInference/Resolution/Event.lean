import ContractInference.Failure
import ContractInference.Log

/-!
# Events

What a scan reports about its own work.
-/

namespace ContractInference

inductive Event where
  | parseFailed (path : String) (fault : ParseFault)
  | unresolved (name modulePath fromFile : String)
  | cycle (path name fromFile : String)
  | cacheHit (path : String)
  | readFailed (path reason : String)
  | cacheSkipped (path : String)
  | documentRefused (path : String)
  | documentWithoutTypes (path : String)
  | scanComplete (files filesParsed cacheHits parseFailures : Nat)
deriving Repr

namespace Event

def name : Event → String
  | .parseFailed .. => "schema_parse_failed"
  | .unresolved .. => "import_unresolved"
  | .cycle .. => "resolution_cycle"
  | .cacheHit _ => "schema_cache_hit"
  | .readFailed .. => "schema_read_failed"
  | .cacheSkipped _ => "schema_cache_skipped"
  | .documentRefused _ => "sdl_parse_failed"
  | .documentWithoutTypes _ => "sdl_without_types"
  | .scanComplete .. => "scan_many_complete"

def level : Event → LogLevel
  | .scanComplete .. => .info
  | _ => .debug

def fields : Event → List (String × Datum)
  | .parseFailed path fault =>
    [("path", .text path), ("error", .text fault.fault.code.name),
      ("reason", .text fault.fault.message)]
  | .unresolved name modulePath fromFile =>
    [("name", .text name), ("module", .text modulePath), ("from_file", .text fromFile)]
  | .cycle path name fromFile =>
    [("path", .text path), ("name", .text name), ("from_file", .text fromFile)]
  | .cacheHit path => [("path", .text path)]
  | .readFailed path reason => [("path", .text path), ("error", .text reason)]
  | .cacheSkipped path => [("path", .text path), ("reason", .text "cycle")]
  | .documentRefused path => [("path", .text path)]
  | .documentWithoutTypes path => [("path", .text path)]
  | .scanComplete files filesParsed cacheHits parseFailures =>
    [("files", .nat files), ("files_parsed", .nat filesParsed), ("cache_hits", .nat cacheHits),
      ("parse_failures", .nat parseFailures)]

def speaker : Event → String
  | .scanComplete .. => "scan"
  | _ => ""

def message (e : Event) : LogMessage :=
  { level := e.level, event := e.name, speaker := e.speaker, fields := e.fields }

end Event

end ContractInference
