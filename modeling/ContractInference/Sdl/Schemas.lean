import ContractInference.Schema.Map
import ContractInference.Sdl.Reading

/-!
# Schemas of documents

Object, input and enumeration types are schemas. The types of operations are not: they describe
what can be asked, not data.
-/

namespace ContractInference.Sdl

def defaultRoots : List String := ["Query", "Mutation", "Subscription"]

def scalarLabels : List (String × String) :=
  [("String", "string"), ("Int", "number"), ("Float", "number"), ("Boolean", "boolean"),
    ("ID", "string")]

namespace TypeRef

/-- The named type under its label, with a pair of brackets for each list. -/
def label : TypeRef → String
  | .named name => (scalarLabels.lookup name).getD name
  | .list item => item.label ++ "[]"
  | .nonNull inner => inner.label

/-- Only a mark on the outside makes a value required. -/
def isOptional : TypeRef → Bool
  | .nonNull _ => false
  | _ => true

end TypeRef

def fieldOf (f : FieldDefinition) : Field :=
  { name := f.name, label := f.type.label, isOptional := f.type.isOptional,
    validations := if f.arguments.isEmpty then [] else [s!"args: {f.arguments.length}"] }

def inputFieldOf (f : InputValue) : Field :=
  { name := f.name, label := f.type.label, isOptional := f.type.isOptional }

/-- The name and the fields of a definition that describes data. -/
def Definition.fields? : Definition → Option (String × List Field)
  | .object name fields => some (name, fields.map fieldOf)
  | .input name fields => some (name, fields.map inputFieldOf)
  | .enum name values => some (name, values.map fun (v : String) => { name := v, label := "enum" })
  | _ => none

/-- The types of operations: the usual ones, and those that any schema block names. -/
def rootTypes (d : Document) : List String :=
  defaultRoots ++ d.flatMap fun
    | .schema operations => operations
    | _ => []

/-- The schemas of a document; the last definition of a name counts. -/
def schemas (d : Document) : Table String Schema :=
  let roots := rootTypes d
  Table.ofList (d.filterMap fun definition =>
    match definition.fields? with
    | some (name, fields) =>
      if roots.contains name then none
      else some (name, { source := .definition, fields, name })
    | none => none)

/-- The schemas of a text, none if it is not a document. -/
def schemaMap (path text : String) : SchemaMap :=
  match parseDocument? text with
  | some d => { path, schemas := schemas d }
  | none => { path }

end ContractInference.Sdl
