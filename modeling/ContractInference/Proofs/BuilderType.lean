import ContractInference.Builder
import ContractInference.Language
import ContractInference.Proofs.Written

/-!
# Builder types

The types that can be written with a builder: the tree of the expression that a type is written as,
and the field that it stands for. Reading the tree gives the field.
-/

namespace ContractInference

open Written

inductive Primitive where
  | string
  | number
  | boolean
  | date
  | bigint
  | undefined
  | null
  | any
  | unknown
  | never
  | void
deriving DecidableEq

namespace Primitive

def name : Primitive → String
  | string => "string"
  | number => "number"
  | boolean => "boolean"
  | date => "date"
  | bigint => "bigint"
  | undefined => "undefined"
  | null => "null"
  | any => "any"
  | unknown => "unknown"
  | never => "never"
  | void => "void"

def label : Primitive → String
  | date => "Date"
  | p => p.name

end Primitive

/-- An integer that a double holds exactly, or a string. -/
inductive Constant where
  | integer (n : Int) (bound : n.natAbs < 2 ^ 53)
  | string (s : String)

namespace Constant

def tree : Constant → Node
  | integer n _ => Written.integer n
  | string s => Written.string s

/-- The constant as it appears in an entry. -/
def shown : Constant → Text
  | integer n _ => toString n
  | string s => s

def json : Constant → Text
  | integer n _ => toString n
  | string s => Json.write s

end Constant

inductive DefaultValue where
  | constant (c : Constant)
  | bool (b : Bool)
  | null

namespace DefaultValue

def tree : DefaultValue → Node
  | constant c => c.tree
  | bool true => leaf "true" "true"
  | bool false => leaf "false" "false"
  | null => leaf "null" "null"

def json : DefaultValue → Text
  | constant c => c.json
  | bool true => "true"
  | bool false => "false"
  | null => "null"

end DefaultValue

/-- The methods that mean something in a chain. -/
def interpretedMethods (b : BuilderSettings) : List String :=
  b.constraintMethods ++ b.optionalMarkers ++ ["default", "array", "extend"]

/-- A call that is chained on a builder's type. -/
inductive BuilderCall where
  /-- A constraint, with a constant or without, and with a message or without. -/
  | constraint (method : {m // m ∈ ({} : BuilderSettings).constraintMethods})
    (argument : Option (Constant × Option String))
  | default (value : DefaultValue)
  | marker (method : {m // m ∈ ({} : BuilderSettings).optionalMarkers})
  | array
  | other (method : {m // m ∉ interpretedMethods {}}) (arguments : List Node)

namespace BuilderCall

def name : BuilderCall → String
  | constraint method _ => method
  | default _ => "default"
  | marker method => method
  | array => "array"
  | other method _ => method

def arguments : BuilderCall → List Node
  | constraint _ none => []
  | constraint _ (some (c, message)) => c.tree :: (message.map fun m => Written.string m).toList
  | default value => [value.tree]
  | marker _ => []
  | array => []
  | other _ arguments => arguments

/-- What the call says about a value. -/
def validation? : BuilderCall → Option Text
  | constraint method none => some method.1
  | constraint method (some (c, none)) => some (method.1 ++ ": " ++ c.shown)
  | constraint method (some (c, some message)) =>
    some (method.1 ++ ": " ++ c.shown ++ ", \"" ++ message ++ "\"")
  | default value => some ("default: " ++ value.json)
  | marker _ | array | other _ _ => none

def default? : BuilderCall → Option Text
  | default value => some value.json
  | _ => none

def isMarker : BuilderCall → Bool
  | marker _ => true
  | _ => false

def isArray : BuilderCall → Bool
  | array => true
  | _ => false

end BuilderCall

inductive BuilderKey where
  | identifier (name : String)
  | quoted (name : String)

namespace BuilderKey

def name : BuilderKey → String
  | identifier name => name
  | quoted name => name

def tree : BuilderKey → Node
  | identifier name => leaf "property_identifier" name (some "key")
  | quoted name => Written.string name (some "key")

end BuilderKey

/-- A type with the calls that follow it, the last one first. -/
inductive BuilderType where
  | primitive (p : Primitive) (calls : List BuilderCall)
  | enum (members : List String) (calls : List BuilderCall)
  | array (item : BuilderType) (calls : List BuilderCall)
  | object (keys : List BuilderKey) (distinct : (keys.map BuilderKey.name).Nodup)
    (value : Fin keys.length → BuilderType) (calls : List BuilderCall)

namespace BuilderType

def calls : BuilderType → List BuilderCall
  | primitive _ calls | enum _ calls | array _ calls | object _ _ _ calls => calls

/-- Calls chained on an expression, the last one first. -/
def chained (base : Option String → Node) (field : Option String) : List BuilderCall → Node
  | [] => base field
  | c :: cs => call field (chained base (some "object") cs) c.name c.arguments

def property (key : BuilderKey) (value : Node) : Node :=
  branch "pair" none [key.tree, token ":", value]

def tree : BuilderType → Option String → Node
  | primitive p cs, field => chained (constructed p.name []) field cs
  | enum members cs, field =>
    chained (constructed "enum"
      [enclosed "array" none "[" (members.map fun m => Written.string m) "]"]) field cs
  | array item cs, field => chained (constructed "array" [item.tree none]) field cs
  | object keys _ value cs, field =>
    chained (constructed "object" [enclosed "object" none "\x7b"
      ((List.finRange keys.length).map fun i =>
        property (keys.get i) ((value i).tree (some "value"))) "\x7d"]) field cs

-- The parser builds this tree from the text that the tree covers, below the nodes of the program
-- and the statement.
example :
    let sample := object [.identifier "a"] (by decide) (fun _ => enum ["\n"]
      [.constraint ⟨"min", by decide⟩ (some (.integer (-3) (by decide), none))]) []
    ((Grammar.parse Language.typescript.dialect (sample.tree none).text).nodes.drop 2).map
        (fun n => (n.label, n.children.length)) =
      (sample.tree none).nodes.map fun n => (n.label, n.children.length) := by
  decide +kernel

/-- A union is put in parentheses. -/
def grouped (label : Text) : Text :=
  if (" | " : Text).points <:+: label.points then "(" ++ label ++ ")" else label

/-- One pair of brackets for each call that makes an array. -/
def bracketed (cs : List BuilderCall) (label : Text) : Text :=
  if cs.any BuilderCall.isArray then
    grouped label ++ Text.concat (List.replicate (cs.countP BuilderCall.isArray) "[]")
  else label

/-- The quoted members with bars between them. -/
def unionLabel (members : List String) : Text :=
  if members.isEmpty then "enum"
  else Text.join " | " (members.map fun m => "\"" ++ Text.ofString m ++ "\"")

def label : BuilderType → Text
  | primitive p cs => bracketed cs p.label
  | enum members cs => bracketed cs (unionLabel members)
  | array item cs => bracketed cs (grouped item.label ++ "[]")
  | object _ _ _ cs => bracketed cs "object"

/-- The field with the given fields below it. Of several entries with one text the outermost is
kept, and of several defaults the outermost counts. -/
def fieldWith (b : BuilderType) (name : Text) (nested : Option (List Field)) : Field :=
  { name, label := b.label, isOptional := b.calls.any BuilderCall.isMarker,
    validations := (b.calls.filterMap BuilderCall.validation?).eraseDups,
    default? := b.calls.findSome? BuilderCall.default?, nested }

/-- The fields of an object that is not made an array. -/
def nested : BuilderType → Option (List Field)
  | primitive _ _ | enum _ _ | array _ _ => none
  | object keys _ value cs =>
    if cs.any BuilderCall.isArray || keys.isEmpty then none
    else some ((List.finRange keys.length).map fun i =>
      (value i).fieldWith (keys.get i).name (nested (value i)))

def field (b : BuilderType) (name : Text) : Field := b.fieldWith name b.nested

end BuilderType

end ContractInference
