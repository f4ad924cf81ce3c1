import ContractInference.Chain
import ContractInference.Literal
import ContractInference.Schema.Basic
import ContractInference.Settings.Basic
import ContractInference.Table

/-!
# Builder chains

Schemas written as calls chained on a builder's name, such as
`z.object(...)` with `z.string().email().max(255)` for a field. A field's type is read from the
constructor and the methods after it, its validations from all calls of the chain.
-/

namespace ContractInference

namespace Tree

theorem size_le_sizeAll {n : Node} {ts : List Node} (h : n ∈ ts) : n.size ≤ sizeAll ts := by
  induction ts with
  | nil => cases h
  | cons t ts ih =>
    simp only [sizeAll]
    cases h with
    | head => omega
    | tail _ h => have := ih h; omega

theorem size_namedChild_lt {n c : Node} (h : c ∈ n.namedChildren) : c.size < n.size := by
  have := size_le_sizeAll (List.mem_filter.1 h).1
  have := sizeAll_children_lt n
  omega

theorem size_callArgument_lt {n a : Node} (h : a ∈ n.callArguments) : a.size < n.size := by
  unfold callArguments at h
  split at h
  · rename_i args hargs
    have := size_namedChild_lt (List.mem_filter.1 h).1
    have := size_child?_lt hargs
    omega
  · cases h

theorem size_call_le {n c : Node} (h : c ∈ n.calls) : c.size ≤ n.size := by
  fun_induction calls n with
  | case1 n hcall m hm ih =>
    cases h with
    | head => exact Nat.le_refl _
    | tail _ h =>
      have := ih h
      have := size_innerCall?_lt hm
      omega
  | case2 n hcall hm => simp_all
  | case3 n hcall => cases h

end Tree

namespace Builder

/-- A message given as a string, or under the key `message` of an object. -/
def message? (n : Node) : Option Text :=
  if n.isKind "string" then some (Literal.decodeString n)
  else if n.isKind "object" then
    n.namedChildren.findSome? fun pair =>
      if pair.isKind "pair" then
        match pair.child? "key", pair.child? "value" with
        | some key, some value =>
          if (key.text == "message" || key.stringValue? == some "message") && value.isKind "string"
          then some (Literal.decodeString value)
          else none
        | _, _ => none
      else none
  else none

/-- What the calls of a chain say about a value. -/
structure Validations where
  entries : List Text := []
  default? : Option Text := none
deriving DecidableEq, Repr

namespace Validations

def add (v : Validations) (entry : Text) : Validations :=
  if v.entries.contains entry then v else { v with entries := v.entries ++ [entry] }

def addDefault (v : Validations) (literal : Text) : Validations :=
  { v.add ("default: " ++ literal) with default? := v.default?.or (some literal) }

end Validations

/-- The entry of a constraint with arguments; none if the first one is not a literal. -/
def constraintText? (method : String) (first : Node) (rest : List Node) :
    Except Failure (Option Text) :=
  match Literal.ofNode? first with
  | none => .ok none
  | some value => do
    let shown ← value.display
    let entry := Text.ofString method ++ ": " ++ shown
    match rest.head?.bind message? with
    | some message => return some (entry ++ ", \"" ++ message ++ "\"")
    | none => return some entry

def addCall (b : BuilderSettings) (v : Validations) (call : Node) : Except Failure Validations :=
  match call.calledName? with
  | none => .ok v
  | some method =>
    if b.constraintMethods.contains method then
      match call.callArguments with
      | [] => .ok (v.add method)
      | first :: rest => do
        match ← constraintText? method first rest with
        | some entry => return v.add entry
        | none => return v
    else if method == "default" then
      match call.callArguments with
      | [] => .ok v
      | first :: _ => do
        match ← Literal.jsonOfNode? first with
        | some literal => return v.addDefault literal
        | none => return v
    else .ok v

/-- The validations of a chain, the outermost call first. -/
def validations (b : BuilderSettings) (n : Node) : Except Failure Validations :=
  n.calls.foldlM (addCall b) {}

/-- Labels of the constructors that stand for plain values. -/
def primitiveLabels : List (String × String) :=
  [("string", "string"), ("number", "number"), ("boolean", "boolean"), ("date", "Date"),
    ("bigint", "bigint"), ("undefined", "undefined"), ("null", "null"), ("any", "any"),
    ("unknown", "unknown"), ("never", "never"), ("void", "void")]

/-- Names that may stand between the root and a constructor. -/
def namespaceNames : List String := ["coerce"]

/-- The constructor among the names after the root, and the names after it. -/
def kindOf : List String → String × List String
  | [] => ("", [])
  | [m] => (m, [])
  | m :: rest => if namespaceNames.contains m then kindOf rest else (m, rest)

/-- The object at which a chain of members starts. -/
def memberBase (n : Node) : Option Node :=
  if n.isMember then
    match _h : n.child? "object" with
    | some o => memberBase o
    | none => none
  else some n
termination_by n.size
decreasing_by exact Tree.size_child?_lt _h

def startsAt (root : String) (call : Node) : Bool :=
  match call.child? "function" with
  | some f =>
    f.isMember &&
      match memberBase f with
      | some o => o.isKind "identifier" && o.text == root
      | none => false
  | none => false

/-- The innermost call that starts at the builder's name. -/
def constructorCall? (b : BuilderSettings) (n : Node) : Option Node :=
  n.calls.reverse.find? (startsAt b.rootName)

theorem size_constructorCall?_le {b : BuilderSettings} {n c : Node}
    (h : constructorCall? b n = some c) : c.size ≤ n.size :=
  Tree.size_call_le (List.mem_reverse.1 (List.mem_of_find?_eq_some h))

def enumUnion (ctor : Node) : Text :=
  match ctor.callArguments.head? with
  | some first =>
    if first.isKind "array" then
      Text.join " | " ((first.namedChildren.filter (·.isKind "string")).map fun n =>
        "\"" ++ Literal.decodeString n ++ "\"")
    else .empty
  | none => .empty

def enumLabel (ctor : Node) : Text :=
  let union := enumUnion ctor
  if union.points.isEmpty then "enum" else union

def propertyKey? (key : Node) : Option Text :=
  if key.isKind "property_identifier" || key.isKind "number" then some (Text.ofString key.text)
  else if key.isKind "string" then some (Literal.decodeString key)
  else none

/-- The key of a property and the call that is its value. -/
def property? (n : Node) : Option (Text × Node) :=
  if n.isKind "pair" then
    match (n.child? "key").bind propertyKey?, n.child? "value" with
    | some key, some value => if value.isCall then some (key, value) else none
    | _, _ => none
  else none

theorem size_property?_lt {n v : Node} {k : Text} (h : property? n = some (k, v)) :
    v.size < n.size := by
  unfold property? at h
  split at h
  · split at h
    · rename_i hv
      split at h
      · cases h; exact Tree.size_child?_lt hv
      · cases h
    · cases h
  · cases h

def argumentProperties (call : Node) : List (Text × Node) :=
  match call.callArguments.head? with
  | some first => if first.isKind "object" then first.namedChildren.filterMap property? else []
  | none => []

theorem size_argumentProperty_lt {call v : Node} {k : Text}
    (h : (k, v) ∈ argumentProperties call) : v.size < call.size := by
  unfold argumentProperties at h
  split at h
  · rename_i first hfirst
    split at h
    · obtain ⟨p, hp, hkv⟩ := List.mem_filterMap.1 h
      have := size_property?_lt hkv
      have := Tree.size_namedChild_lt hp
      have := Tree.size_callArgument_lt (List.mem_of_head? hfirst)
      omega
    · cases h
  · cases h

/-- The properties of an object chain: those of its constructor, then those of the calls that
extend it, from the inside out. -/
def properties (b : BuilderSettings) (n : Node) : List (Text × Node) :=
  match constructorCall? b n with
  | some ctor =>
    argumentProperties ctor ++
      (n.calls.reverse.filter (·.calledName? == some "extend")).flatMap argumentProperties
  | none => []

theorem size_property_lt {b : BuilderSettings} {n v : Node} {k : Text}
    (h : (k, v) ∈ properties b n) : v.size < n.size := by
  unfold properties at h
  split at h
  · rename_i ctor hctor
    rcases List.mem_append.1 h with h | h
    · have := size_argumentProperty_lt h
      have := size_constructorCall?_le hctor
      omega
    · obtain ⟨c, hc, hkv⟩ := List.mem_flatMap.1 h
      have := size_argumentProperty_lt hkv
      have := Tree.size_call_le (List.mem_reverse.1 (List.mem_filter.1 hc).1)
      omega
  · cases h

/-- The label of a field, and the fields below it. -/
structure Shape where
  label : Text
  nested : Option (List Field) := none
deriving Repr

/-- A label in front of brackets; a union is put in parentheses. -/
def wrapItem (label : Text) : Text :=
  if label.contains " | " then "(" ++ label ++ ")" else label

/-- One pair of brackets for each array that the shape is wrapped in. -/
def Shape.wrap (s : Shape) (suffix : List String) : Shape :=
  match suffix.filter (· == "array") with
  | [] => s
  | wraps => { label := wrapItem s.label ++ Text.concat (wraps.map fun _ => "[]") }

/-- The item of an array: a call that is read further, or a label. -/
inductive Item where
  | call (n : Node)
  | label (t : Text)

def itemOf (ctor : Node) : Item :=
  match ctor.callArguments.head? with
  | some item =>
    if item.isKind "identifier" then .label item.text
    else if item.isCall then .call item
    else .label "unknown"
  | none => .label "unknown"

theorem size_itemOf_lt {ctor n : Node} (h : itemOf ctor = .call n) : n.size < ctor.size := by
  unfold itemOf at h
  split at h
  · rename_i item hitem
    split at h
    · cases h
    · split at h
      · cases h; exact Tree.size_callArgument_lt (List.mem_of_head? hitem)
      · cases h
  · cases h

def fieldOf (b : BuilderSettings) (name : Text) (n : Node) (v : Validations) (s : Shape) : Field :=
  { name, label := s.label, isOptional := n.chain.hasMethod b.optionalMarkers,
    validations := v.entries, default? := v.default?, nested := s.nested }

/-- The fields under their keys, of which the last one counts. -/
def mergeFields (fields : List Field) : List Field :=
  (Table.ofList (fields.map fun f => (f.name, f))).values

def shape (b : BuilderSettings) (n : Node) : Except Failure Shape :=
  let c := n.chain
  if c.isRootedAt b.rootName then
    let (kind, suffix) := kindOf c.methods
    match kind, _hc : constructorCall? b n with
    | "enum", some ctor => .ok (Shape.wrap { label := enumLabel ctor } suffix)
    | "array", some ctor =>
      match _hi : itemOf ctor with
      | .label t => .ok (Shape.wrap { label := t ++ "[]" } suffix)
      | .call item => do
        let inner ← shape b item
        return Shape.wrap { label := wrapItem inner.label ++ "[]" } suffix
    | "object", _ => do
      let fields ← (properties b n).attach.mapM fun ⟨(key, value), _h⟩ => do
        let v ← validations b value
        return fieldOf b key value v (← shape b value)
      let nested := match mergeFields fields with
        | [] => none
        | fs => some fs
      return Shape.wrap { label := "object", nested } suffix
    | kind, _ => .ok (Shape.wrap { label := (primitiveLabels.lookup kind).getD kind } suffix)
  else
    match c.root with
    | some root => .ok (Shape.wrap { label := root } c.methods)
    | none => .ok (Shape.wrap { label := "unknown" } c.methods)
termination_by n.size
decreasing_by
  · have := size_itemOf_lt _hi
    have := size_constructorCall?_le _hc
    omega
  · exact size_property_lt _h

/-- The field of a property; only a call describes one. -/
def field? (b : BuilderSettings) (name : Text) (n : Node) : Except Failure (Option Field) :=
  if n.isCall then do
    let v ← validations b n
    return some (fieldOf b name n v (← shape b n))
  else .ok none

def objectFields (b : BuilderSettings) (n : Node) : Except Failure (List Field) := do
  let fields ← (properties b n).mapM fun (key, value) => do
    let v ← validations b value
    return fieldOf b key value v (← shape b value)
  return mergeFields fields

def itemLabel (b : BuilderSettings) (ctor : Node) : Except Failure Text :=
  match itemOf ctor with
  | .label t => .ok t
  | .call item => do
    return wrapItem (← shape b item).label

def isBuilderCall (b : BuilderSettings) (n : Node) : Bool :=
  n.isCall && n.chain.isRootedAt b.rootName

/-- The schema of a chain with one of the schema constructors. Enumerations and arrays have one
field that stands for all of them. -/
def schema? (b : BuilderSettings) (n : Node) (name : Option String) :
    Except Failure (Option Schema) :=
  if isBuilderCall b n then
    match n.chain.constructor?, constructorCall? b n with
    | some kind, some ctor =>
      if b.schemaConstructors.contains kind then do
        let fields ←
          if kind == "object" then objectFields b n
          else if kind == "enum" then pure [{ name := "value", label := enumLabel ctor }]
          else do
            let item ← itemLabel b ctor
            pure [{ name := "items", label := item ++ "[]" }]
        return some
          { source := .builder, fields, name,
            isRequired := !n.chain.hasMethod b.optionalMarkers }
      else .ok none
    | _, _ => .ok none
  else .ok none

end Builder

end ContractInference
