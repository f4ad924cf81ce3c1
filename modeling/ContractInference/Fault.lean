import ContractInference.Datum.Display

/-!
# Faults

The reasons for which a file or a configuration is refused, with the numbered codes and the
texts under which they are reported.
-/

namespace ContractInference

inductive FaultCode where
  | configParse
  | configValue
  | configMissing
  | languageUnsupported
  | grammarUnavailable
  | syntaxErrors
deriving DecidableEq, Repr

namespace FaultCode

def all : List FaultCode :=
  [.configParse, .configValue, .configMissing, .languageUnsupported, .grammarUnavailable,
    .syntaxErrors]

def number : FaultCode → Nat
  | .configParse => 2001
  | .configValue => 2002
  | .configMissing => 2004
  | .languageUnsupported => 3001
  | .grammarUnavailable => 3002
  | .syntaxErrors => 3003

def name : FaultCode → String
  | .configParse => "CONFIG_PARSE_ERROR"
  | .configValue => "CONFIG_INVALID_VALUE"
  | .configMissing => "CONFIG_FILE_NOT_FOUND"
  | .languageUnsupported => "PARSE_UNSUPPORTED_LANGUAGE"
  | .grammarUnavailable => "PARSE_GRAMMAR_UNAVAILABLE"
  | .syntaxErrors => "PARSE_SYNTAX_ERROR"

def ofNumber? (n : Int) : Option FaultCode := all.find? fun c => (c.number : Int) == n

end FaultCode

structure Fault where
  code : FaultCode
  message : String
  retryable : Bool := false
  details : Datum := .map []
deriving Repr

namespace Fault

def describe (f : Fault) : String :=
  s!"[{f.code.number}] {f.code.name}: {f.message}"

def report (f : Fault) : Datum :=
  .record [("code", .nat f.code.number), ("error", .text f.code.name), ("message", .text f.message),
    ("retryable", .bool f.retryable), ("details", f.details)]

end Fault

inductive ConfigFault where
  | unparsable (path reason : String)
  | invalidValue (field : String) (value : Datum) (reason : String)
  | fileMissing (path : String)
deriving Repr

def ConfigFault.fault : ConfigFault → Fault
  | .unparsable path reason =>
    { code := .configParse
      message := s!"Failed to parse config at {path}: {reason}"
      details := .record [("path", .text path), ("reason", .text reason)] }
  | .invalidValue field value reason =>
    { code := .configValue
      message := s!"Invalid value for '{field}': {reason}"
      details := .record
        [("field", .text field), ("value", .text value.display), ("reason", .text reason)] }
  | .fileMissing path =>
    { code := .configMissing
      message := s!"Config file not found: {path}"
      details := .record [("path", .text path)] }

inductive ParseFault where
  | languageUnsupported (path : String)
  | grammarUnavailable (language : String)
  | syntaxErrors (path : String) (errors total : Int)
deriving Repr

def ParseFault.fault : ParseFault → Fault
  | .languageUnsupported path =>
    { code := .languageUnsupported
      message := s!"Unsupported file extension: {path}"
      details := .record [("path", .text path)] }
  | .grammarUnavailable language =>
    { code := .grammarUnavailable
      message := s!"Language not available: {language}"
      details := .record [("language", .text language)] }
  | .syntaxErrors path errors total =>
    { code := .syntaxErrors
      message := s!"Syntax errors in {path}: {errors} of {total} nodes"
      details := .record
        [("path", .text path), ("error_count", .int errors), ("total_nodes", .int total)] }

end ContractInference
