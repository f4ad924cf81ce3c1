import ContractInference.Schema.Basic
import ContractInference.Table

/-!
# Schema maps

The schemas that a file declares or takes over from others, with the names it forwards.
-/

namespace ContractInference

structure ImportBinding where
  localName : String
  modulePath : String
  isDefault : Bool := false
  /-- The name in the module, if it is known. -/
  imported : Option String := none
  isTypeOnly : Bool := false
deriving DecidableEq, Repr

def nonempty? : Option String → Option String
  | some s => if s.isEmpty then none else some s
  | none => none

def ImportBinding.exportedName (b : ImportBinding) : String :=
  if b.isDefault then "default" else (nonempty? b.imported).getD b.localName

/-- A name that a file offers on behalf of another module; without a name, all of that module's
names but its default. -/
structure ReExport where
  modulePath : String
  exported : Option String := none
  sourceName : Option String := none
deriving DecidableEq, Repr

/-- The name to look for in the other module, if the wanted one is forwarded. -/
def ReExport.forwards (r : ReExport) (name : String) : Option String :=
  match r.exported with
  | none => if name == "default" then none else some name
  | some e => if e == name then some ((nonempty? r.sourceName).getD name) else none

structure SchemaMap where
  path : String
  schemas : Table String Schema := []
  reexports : List ReExport := []
  defaultExport : Option String := none
  /-- Names on which a validation method is called. -/
  validated : List String := []
deriving Repr, Inhabited

namespace SchemaMap

def get? (m : SchemaMap) (name : String) : Option Schema :=
  match m.defaultExport with
  | some d => if name == "default" then Table.get? m.schemas d else Table.get? m.schemas name
  | none => Table.get? m.schemas name

def names (m : SchemaMap) : List String := Table.keys m.schemas

def isEmpty (m : SchemaMap) : Bool := List.isEmpty m.schemas

end SchemaMap

structure ContractBinding where
  request : Option Schema := none
  response : Option Schema := none
  query : Option Schema := none
deriving Repr

namespace ContractBinding

def isEmpty (b : ContractBinding) : Bool :=
  b.request.isNone && b.response.isNone && b.query.isNone

def report (b : ContractBinding) : Report :=
  .record ((b.request.map fun s => ("request", s.report)).toList ++
    (b.response.map fun s => ("response", s.report)).toList ++
    (b.query.map fun s => ("query", s.report)).toList)

end ContractBinding

end ContractInference
