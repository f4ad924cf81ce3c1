import ContractInference.Datum.Basic
import ContractInference.Json.Quoted
import ContractInference.Number.Shortest

/-!
# Writing JSON

One line, a space after every comma and colon, keys in the order of the mapping, and no
character outside ASCII.
-/

namespace ContractInference.Json

def writeString (s : String) : String := (writeAscii (Text.ofString s)).toString

def writeFloat (x : Binary64) : String := Binary64.Layout.interchange.text x

def writeScalar : Scalar → String
  | .null => "null"
  | .bool b => if b then "true" else "false"
  | .int n => toString n
  | .float x => writeFloat x
  | .text s => writeString s
  | .instant _ => "null"

/-- A key is always quoted: other scalars are written first and then quoted. -/
def writeKey : Scalar → String
  | .text s => writeString s
  | s => "\"" ++ writeScalar s ++ "\""

mutual

def writeDatum : Datum → String
  | .scalar s => writeScalar s
  | .list items => "[" ++ ", ".intercalate (writeItems items) ++ "]"
  | .map entries => "\x7b" ++ ", ".intercalate (writeEntries entries) ++ "\x7d"

def writeItems : List Datum → List String
  | [] => []
  | d :: ds => writeDatum d :: writeItems ds

def writeEntries : List (Scalar × Datum) → List String
  | [] => []
  | (k, v) :: rest => (writeKey k ++ ": " ++ writeDatum v) :: writeEntries rest

end

end ContractInference.Json
