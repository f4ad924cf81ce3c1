/-!
# Schema documents

The definitions of a document as far as schemas are read from them.
-/

namespace ContractInference.Sdl

inductive TypeRef where
  | named (name : String)
  | list (item : TypeRef)
  | nonNull (inner : TypeRef)
deriving DecidableEq, Repr

structure InputValue where
  name : String
  type : TypeRef
deriving DecidableEq, Repr

structure FieldDefinition where
  name : String
  arguments : List InputValue
  type : TypeRef
deriving DecidableEq, Repr

inductive Definition where
  | object (name : String) (fields : List FieldDefinition)
  | input (name : String) (fields : List InputValue)
  | enum (name : String) (values : List String)
  /-- The types of the operations. -/
  | schema (operations : List String)
  /-- A definition that describes no data. -/
  | other
deriving DecidableEq, Repr

abbrev Document := List Definition

end ContractInference.Sdl
