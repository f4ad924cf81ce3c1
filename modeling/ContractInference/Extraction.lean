import ContractInference.Builder
import ContractInference.Declaration
import ContractInference.Links
import ContractInference.SourceTree

/-!
# Extraction

What a file says by itself: the schemas that it declares, the names that it validates, and its
links to other modules.
-/

namespace ContractInference

structure Extraction where
  schemas : Table String Schema := []
  validated : List String := []
  bindings : List ImportBinding := []
  reexports : List ReExport := []
  defaultExport : Option String := none
deriving Repr

namespace Extraction

def validatedName? (b : BuilderSettings) (call : Node) : Option String :=
  let c := call.chain
  match c.root, c.last? with
  | some root, some last =>
    if !c.methods.isEmpty && b.validationCalls.contains last then some root else none
  | _, _ => none

def declaredSchema? (b : BuilderSettings) (n : Node) : Except Failure (Option (String × Schema)) :=
  match n.child? "name", n.child? "value" with
  | some name, some value =>
    if name.isKind "identifier" then do
      return (← Builder.schema? b value (some name.text)).map (name.text, ·)
    else .ok none
  | _, _ => .ok none

/-- Takes one node of a tree into account. A builder schema replaces what its name stood for; a
declaration does not. -/
def visit (s : Settings) (typed : Bool) (e : Extraction) (n : Node) : Except Failure Extraction :=
  if n.isKind "variable_declarator" then do
    match ← declaredSchema? s.builder n with
    | some (name, schema) => return { e with schemas := Table.put e.schemas name schema }
    | none => return e
  else if typed && Declaration.kinds.contains n.kind then
    match Declaration.schema? s.declarations n with
    | some (name, schema) => .ok { e with schemas := Table.putNew e.schemas name schema }
    | none => .ok e
  else if n.isCall then
    match validatedName? s.builder n with
    | some name =>
      .ok (if e.validated.contains name then e else { e with validated := e.validated ++ [name] })
    | none => .ok e
  else .ok e

def declared (s : Settings) (tree : SourceTree) : Except Failure Extraction :=
  tree.root.nodes.foldlM (visit s tree.language.hasTypeDeclarations) {}

/-- A default export that is an expression of its own is a schema named `default`. -/
def withDefault (s : Settings) (value : Option Node) (e : Extraction) : Except Failure Extraction :=
  match value with
  | some n => do
    match ← Builder.schema? s.builder n (some "default") with
    | some schema =>
      return { e with
        schemas := Table.put e.schemas "default" schema, defaultExport := some "default" }
    | none => return e
  | none => .ok e

def ofTree (s : Settings) (tree : SourceTree) : Except Failure Extraction := do
  let e ← declared s tree
  let bindings := Links.imports tree.root
  let exports := Links.exports tree.root bindings
  withDefault s exports.defaultValue
    { e with bindings, reexports := exports.reexports, defaultExport := exports.defaultExport }

def toMap (e : Extraction) (path : String) (schemas : Table String Schema) : SchemaMap :=
  { path, schemas, reexports := e.reexports, defaultExport := e.defaultExport,
    validated := e.validated }

end Extraction

end ContractInference
