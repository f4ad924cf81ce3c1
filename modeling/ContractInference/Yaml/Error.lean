import ContractInference.Datum.Display

/-!
# Texts that are not data

Why a YAML text gives no data. A text can have the form of a document and still hold a scalar
that stands for nothing.
-/

namespace ContractInference

inductive YamlError where
  /-- The text is not one document, or a tag or a key in it has no meaning. -/
  | malformed
  /-- An escape beyond the last code point. -/
  | codePointTooLarge
  /-- A word that is marked as a truth value and is none. -/
  | notTruth (word : String)
  /-- Text that is marked as a number and is empty. -/
  | emptyNumber
  | notInteger (digits : String) (base : Nat)
  | integerTooLong (digits : Nat)
  | notFloat (text : String)
  /-- Text that is marked as an instant and is none. -/
  | notInstant
  /-- A date or time that no calendar has. -/
  | notInCalendar (reason : String)
  /-- The text is nested too deep to be read. -/
  | tooDeep
  /-- The text is a document, but not of a tree of scalars, lists and mappings: an alias stands
  inside the node that it stands for, or a tag asks for data of another kind. -/
  | notPlain
deriving DecidableEq, Repr

def YamlError.message : YamlError → String
  | .malformed => "the text is not a YAML document"
  | .codePointTooLarge => "chr() arg not in range(0x110000)"
  | .notTruth word => quoted word
  | .emptyNumber => "string index out of range"
  | .notInteger digits base =>
    "invalid literal for int() with base " ++ toString base ++ ": " ++ quoted digits
  | .integerTooLong digits =>
    "Exceeds the limit (4300 digits) for integer string conversion: value has " ++
      toString digits ++ " digits; use sys.set_int_max_str_digits() to increase the limit"
  | .notFloat text => "could not convert string to float: " ++ quoted text
  | .notInstant => "'NoneType' object has no attribute 'groupdict'"
  | .notInCalendar reason => reason
  | .tooDeep => "maximum recursion depth exceeded"
  | .notPlain => "the document is not a tree of scalars, lists and mappings"

end ContractInference
