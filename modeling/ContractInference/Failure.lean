import ContractInference.Fault
import ContractInference.Json.Reader
import ContractInference.Text.Lossy

/-!
# Failures

What stops a scan or a search before it has an answer. A file that does not parse is not among
them: it is a file without schemas.
-/

namespace ContractInference

inductive TemplateError where
  | unknownKey (key : String)
  | unknownIndex (index : Nat)
  | malformed (reason : String)
  | noMember (kind member : String)
  | notIndexable (kind : String)
  | notPosition (kind : String)
  | outOfRange (kind : String)
  | noLayout (kind : String)
  | noAncestor (index : Nat)
deriving DecidableEq, Repr

inductive Failure where
  /-- An integer has too many digits to be written out. -/
  | integerTooLong
  | fileMissing (path : String)
  | fileDenied (path : String)
  | template (error : TemplateError)
  | parse (fault : ParseFault)
  /-- The bytes of a file are not text. -/
  | notText (fault : Lossy.Utf8Fault)
  /-- A chain of files is longer than the files are many. -/
  | depthExceeded
deriving Repr

def TemplateError.message : TemplateError → String
  | .unknownKey key => quoted key
  | .unknownIndex index => s!"Replacement index {index} out of range for positional args tuple"
  | .malformed reason => reason
  | .noMember kind member => s!"'{kind}' object has no attribute '{member}'"
  | .notIndexable kind => s!"'{kind}' object is not subscriptable"
  | .notPosition "str" => "string indices must be integers, not 'str'"
  | .notPosition kind => kind ++ " indices must be integers or slices, not str"
  | .outOfRange "str" => "string index out of range"
  | .outOfRange kind => kind ++ " index out of range"
  | .noAncestor index => toString index
  | .noLayout kind => s!"unsupported format string passed to {kind}.__format__"

namespace Lossy

def Utf8Reason.text : Utf8Reason → String
  | .badStart => "invalid start byte"
  | .badContinuation => "invalid continuation byte"
  | .incomplete => "unexpected end of data"

def Utf8Fault.message (f : Utf8Fault) : String :=
  let place :=
    if f.stop = f.start + 1 then
      "byte 0x" ++ String.ofList (hexDigits 2 f.first.toNat) ++ s!" in position {f.start}"
    else s!"bytes in position {f.start}-{f.stop - 1}"
  "'utf-8' codec can't decode " ++ place ++ ": " ++ f.reason.text

end Lossy

def Failure.message : Failure → String
  | .integerTooLong =>
    s!"Exceeds the limit ({maxIntegerDigits} digits) for integer string conversion; " ++
      "use sys.set_int_max_str_digits() to increase the limit"
  | .fileMissing path => "[Errno 2] No such file or directory: " ++ quoted path
  | .fileDenied path => "[Errno 13] Permission denied: " ++ quoted path
  | .template error => error.message
  | .parse fault => fault.fault.describe
  | .notText fault => fault.message
  | .depthExceeded => "maximum depth of files exceeded"

end ContractInference
