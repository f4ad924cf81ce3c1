import ContractInference.Schema.Report

/-!
# Schemas

A schema lists the fields of a data contract. Where it was found does not change its form:
builder chains, type declarations and schema definition documents all give the same records.
-/

namespace ContractInference

/-- A field of a schema. Only a field labelled as an object has fields of its own. -/
structure Field where
  name : Text
  label : Text
  isOptional : Bool := false
  validations : List Text := []
  /-- JSON text of the default value. -/
  default? : Option Text := none
  nested : Option (List Field) := none
deriving Repr, Inhabited

inductive SchemaSource where
  | builder
  | declaration
  | definition
deriving DecidableEq, Repr, Inhabited

def SchemaSource.name : SchemaSource → String
  | .builder => "builder"
  | .declaration => "declaration"
  | .definition => "sdl"

structure Schema where
  source : SchemaSource
  fields : List Field
  name : Option String := none
  isRequired : Bool := true
  /-- The interfaces that a declaration extends. -/
  parents : List String := []
deriving Repr, Inhabited

namespace Field

mutual

/-- What is empty or absent is left out. -/
def report : Field → Report
  | { name, label, isOptional, validations, default?, nested } =>
    .record ([("name", .text name), ("type", .text label), ("is_optional", .flag isOptional)] ++
      (if validations.isEmpty then [] else [("validations", .list (validations.map .text))]) ++
      (match default? with
        | some d => [("default", .text d)]
        | none => []) ++
      (match nested with
        | some (f :: fs) => [("nested", .list (reportAll (f :: fs)))]
        | _ => []))

def reportAll : List Field → List Report
  | [] => []
  | f :: fs => report f :: reportAll fs

end

end Field

namespace Schema

def fieldNames (s : Schema) : List Text := s.fields.map (·.name)

def field? (s : Schema) (name : Text) : Option Field := s.fields.find? (·.name = name)

def report (s : Schema) : Report :=
  .record ([("source", .string s.source.name), ("fields", .list (Field.reportAll s.fields)),
      ("is_required", .flag s.isRequired)] ++
    (match s.name with
      | some n => [("name", .string n)]
      | none => []) ++
    (if s.parents.isEmpty then [] else [("extends", .list (s.parents.map .string))]))

end Schema

end ContractInference
