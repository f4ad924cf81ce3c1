import ContractInference.Datum.Merge
import ContractInference.Json.Reader
import ContractInference.Text.Lowercase

/-!
# Settings in the environment

A variable names a section, or a section and a key in it, with double underscores between the
names. Letters may be large or small. Values of lists and mappings are written in JSON.
-/

namespace ContractInference

/-- The form of a setting, as far as its variables need it. -/
inductive Shape where
  | plain
  | list (item : Shape)
  | table (value : Shape)
  | record (fields : List (String × Shape))
deriving Repr

/-- The part of a shape that a name leads to. The value of a table is the only part that need
not be JSON. -/
structure Part where
  shape : Shape
  lenient : Bool

namespace Shape

def isPlain : Shape → Bool
  | .plain => true
  | _ => false

def field? (fields : List (String × Shape)) (name : String) : Option (String × Shape) :=
  fields.find? fun (f, _) => lowercase f == lowercase name

/-- A name looks through a list at its items. -/
def part? (name : String) : Shape → Option Part
  | .plain => none
  | .list item => item.part? name
  | .table value => some ((value.part? name).getD ⟨value, true⟩)
  | .record fields => (field? fields name).map fun (_, s) => ⟨s, false⟩

end Shape

def texts : Shape := .list .plain

def sectionShapes : List (String × Shape) :=
  [("logging", .record [("level", .plain), ("outputs", .list (.record
      [("format", .plain), ("destination", .plain), ("level", .plain)]))]),
    ("parsing", .record [("max_error_ratio", .plain)]),
    ("builder", .record [("root_name", .plain), ("schema_constructors", texts),
      ("optional_markers", texts), ("constraint_methods", texts), ("validation_calls", texts)]),
    ("declarations", .record [("max_type_length", .plain)]),
    ("resolver", .record [("aliases", .table texts), ("extensions", texts),
      ("index_names", texts), ("fallback_candidates", texts)]),
    ("classifier", .record [("query_keywords", texts), ("response_keywords", texts),
      ("request_keywords", texts), ("inbound_hints", texts)]),
    ("engine", .record [("max_workers", .plain)])]

abbrev Environment := List (String × String)

namespace Environment

def start : String := "contractscan__"

/-- The variables under small names; of two names that differ in case only the later counts. -/
def lowered (e : Environment) : Environment :=
  e.foldl (fun acc (name, value) => put acc (lowercase name) value) []
where
  put : Environment → String → String → Environment
    | [], name, value => [(name, value)]
    | (n, v) :: rest, name, value =>
      if n == name then (n, value) :: rest else (n, v) :: put rest name value

def namesIn : List Char → List String
  | cs => (split [] cs).map String.ofList
where
  split (current : List Char) : List Char → List (List Char)
    | '_' :: '_' :: rest => current.reverse :: split [] rest
    | c :: rest => split (c :: current) rest
    | [] => [current.reverse]

/-- Writes a value at the end of a path through nested mappings. Where something other than a
mapping stands in the way nothing is written. -/
def putAt (value : Datum) : List String → List (Scalar × Datum) → List (Scalar × Datum)
  | [], entries => entries
  | [name], entries => Datum.setEntry (.text name) value entries
  | name :: path, entries =>
    match Datum.lookup? (.text name) entries with
    | some (.map inner) => Datum.setEntry (.text name) (.map (putAt value path inner)) entries
    | some _ => entries
    | none => Datum.setEntry (.text name) (.map (putAt value path [])) entries

def partAt (shape : Shape) (path : List String) : Option Part :=
  path.foldl (fun p name => p.bind fun p => p.shape.part? name) (some ⟨shape, false⟩)

/-- The value of a variable for a part of a shape, or nothing if it should be JSON and is not. -/
def decode? (part : Option Part) (value : String) : Option Datum :=
  match part with
  | some p =>
    if p.shape.isPlain || value.isEmpty then some (.text value)
    else
      match Json.parse? value with
      | some d => some d
      | none => if p.lenient then some (.text value) else none
  | none => some (.text value)

def keysOf (e : Environment) (name : String) (shape : Shape) :
    Option (List (Scalar × Datum)) :=
  let head := start ++ name ++ "__"
  (e.filter fun (n, _) => n.startsWith head).foldlM (fun entries (n, value) => do
    let path := namesIn (n.toList.drop head.length)
    return putAt (← decode? (partAt shape path) value) path entries) []

def ownNames (shape : Shape) (entries : List (Scalar × Datum)) : List (Scalar × Datum) :=
  match shape with
  | .record fields => Datum.ofEntries (entries.map fun (k, d) =>
    match k with
    | .text name => (.text (((Shape.field? fields name).map (·.1)).getD name), d)
    | _ => (k, d))
  | _ => entries

/-- What the variables say about a section: the variable of the section, and those of its keys
over it. -/
def sectionOf (e : Environment) (name : String) (shape : Shape) : Option (Option Datum) := do
  match e.lookup (start ++ name) with
  | some value =>
    match ← Json.parse? value with
    | .map entries =>
      let keys ← e.keysOf name shape
      return some (.map (ownNames shape (Datum.mergeEntries entries keys)))
    | .null => return none
    | d => return some d
  | none =>
    let keys ← e.keysOf name shape
    return if keys.isEmpty then none else some (.map (ownNames shape keys))

/-- The sections that the variables speak of, or the first one with a value that is not JSON. -/
def settings (e : Environment) : Except String (List (Scalar × Datum)) :=
  let e := e.lowered
  sectionShapes.foldlM (fun entries (name, shape) =>
    match e.sectionOf name shape with
    | some (some d) => .ok (entries ++ [(.text name, d)])
    | some none => .ok entries
    | none => .error name) []

end Environment

end ContractInference
