import ContractInference.Schema.Map
import ContractInference.Syntax.Node

/-!
# Links between modules

The names that a program imports and the names that it forwards, read from its statements.
-/

namespace ContractInference.Links

def namedImport (source : String) (typeOnly : Bool) (spec : Node) : Option ImportBinding :=
  let name := spec.childText "name"
  if !spec.isKind "import_specifier" || name.isEmpty then none
  else
    some
      { localName := (nonempty? (some (spec.childText "alias"))).getD name
        modulePath := source
        isDefault := name == "default"
        imported := some name
        isTypeOnly := typeOnly || spec.hasChildKind "type" }

def clauseImports (source : String) (typeOnly : Bool) (part : Node) : List ImportBinding :=
  if part.isKind "identifier" then
    [{ localName := part.text, modulePath := source, isDefault := true, imported := some "default",
       isTypeOnly := typeOnly }]
  else if part.isKind "named_imports" then
    part.children.filterMap (namedImport source typeOnly)
  else []

/-- The bindings of an import statement. A module bound as a whole binds no schema. -/
def statementImports (n : Node) : List ImportBinding :=
  match (n.child? "source").bind Tree.stringValue? with
  | some source =>
    let typeOnly := n.hasChildKind "type"
    (n.children.filter (·.isKind "import_clause")).flatMap fun clause =>
      clause.children.flatMap (clauseImports source typeOnly)
  | none => []

def patternImport (source : String) (property : Node) : Option ImportBinding :=
  if property.isKind "shorthand_property_identifier_pattern" then
    some { localName := property.text, modulePath := source, imported := some property.text }
  else if property.isKind "pair_pattern" then
    let key := property.childText "key"
    match property.child? "value" with
    | some target =>
      if !key.isEmpty && target.isKind "identifier" then
        some { localName := target.text, modulePath := source, imported := some key }
      else none
    | none => none
  else none

def requiredModule? (value : Node) : Option String :=
  if value.isKind "call_expression" && value.childText "function" == "require" then
    match value.child? "arguments" with
    | some args => (args.namedChildren.find? (·.isKind "string")).bind Tree.stringValue?
    | none => none
  else none

def declaratorImports (declarator : Node) : List ImportBinding :=
  if declarator.isKind "variable_declarator" then
    match (declarator.child? "value").bind requiredModule?, declarator.child? "name" with
    | some source, some pattern =>
      if pattern.isKind "object_pattern" then
        pattern.namedChildren.filterMap (patternImport source)
      else []
    | _, _ => []
  else []

def imports (program : Node) : List ImportBinding :=
  program.children.flatMap fun n =>
    if n.isKind "import_statement" then statementImports n
    else if n.isKind "lexical_declaration" || n.isKind "variable_declaration" then
      n.namedChildren.flatMap declaratorImports
    else []

structure Exports where
  reexports : List ReExport := []
  /-- The local name that is the default. -/
  defaultExport : Option String := none
  /-- The expression that is the default. -/
  defaultValue : Option Node := none
deriving Repr

def exportSpecifiers (n : Node) : List (String × Option String) :=
  (n.children.filter (·.isKind "export_clause")).flatMap fun clause =>
    clause.children.filterMap fun spec =>
      let name := spec.childText "name"
      if spec.isKind "export_specifier" && !name.isEmpty then
        some (name, nonempty? (some (spec.childText "alias")))
      else none

/-- The binding of a local name; the last import of a name counts. -/
def bindingOf? (bindings : List ImportBinding) (name : String) : Option ImportBinding :=
  bindings.reverse.find? (·.localName == name)

/-- An export of an imported name forwards to the module that it came from. -/
def forwardImported (bindings : List ImportBinding) (name exported : String) : Option ReExport :=
  (bindingOf? bindings name).map fun b =>
    { modulePath := b.modulePath, exported := some exported, sourceName := some b.exportedName }

def forwardsFrom (source : String) (n : Node) : List ReExport :=
  (if n.hasChildKind "*" && !n.hasChildKind "namespace_export" then
      [{ modulePath := source : ReExport }]
    else []) ++
  (exportSpecifiers n).map fun (name, alias?) =>
    { modulePath := source, exported := some (alias?.getD name), sourceName := some name }

def addDefaultExport (bindings : List ImportBinding) (e : Exports) (value : Node) : Exports :=
  if value.isKind "identifier" then
    match forwardImported bindings value.text "default" with
    | some r => { e with reexports := e.reexports ++ [r] }
    | none => { e with defaultExport := some value.text }
  else { e with defaultValue := some value }

def addExport (bindings : List ImportBinding) (e : Exports) (n : Node) : Exports :=
  if n.isKind "export_statement" then
    match (n.child? "source").bind Tree.stringValue? with
    | some source => { e with reexports := e.reexports ++ forwardsFrom source n }
    | none =>
      if n.hasChildKind "default" then
        match n.child? "value" with
        | some value => addDefaultExport bindings e value
        | none => e
      else
        { e with
          reexports := e.reexports ++ (exportSpecifiers n).filterMap fun (name, alias?) =>
            forwardImported bindings name (alias?.getD name) }
  else e

def exports (program : Node) (bindings : List ImportBinding) : Exports :=
  program.children.foldl (addExport bindings) {}

end ContractInference.Links
