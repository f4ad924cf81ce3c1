import ContractInference.Schema.Basic
import ContractInference.Settings.Basic
import ContractInference.Syntax.Node
import ContractInference.Text.Blank

/-!
# Type declarations

Schemas declared as interfaces, type aliases of object types, and enumerations. The type of a
member is kept as text, with its blanks collapsed and cut to a length.
-/

namespace ContractInference

namespace Declaration

def kinds : List String := ["interface_declaration", "type_alias_declaration", "enum_declaration"]

/-- The first `length` items; a negative length drops as many items from the end. -/
def cut {α : Type} (length : Int) (items : List α) : List α :=
  if 0 ≤ length then items.take length.toNat else items.take (items.length - length.natAbs)

/-- The words of a type's text, joined by single spaces and cut; without words, `any`. -/
def typeLabel (maxLength : Int) (text : String) : String :=
  match collapseBlanks text.toList with
  | [] => "any"
  | cs => String.ofList (cut maxLength cs)

def memberLabel (maxLength : Int) (typed : Option Node) : String :=
  match typed with
  | some a => typeLabel maxLength ((a.namedChildren.head?.map (·.text)).getD "")
  | none => "any"

def memberName? (n : Node) : Option String :=
  if n.isKind "property_identifier" || n.isKind "identifier" || n.isKind "number" then some n.text
  else if n.isKind "string" then
    let cs := n.text.toList
    if 2 ≤ cs.length then some (String.ofList (cs.drop 1).dropLast) else none
  else none

def objectMember? (maxLength : Int) (member : Node) : Option Field :=
  if member.isKind "property_signature" then
    ((member.child? "name").bind memberName?).map fun name =>
      { name, label := memberLabel maxLength (member.child? "type"),
        isOptional := member.hasChildKind "?" }
  else none

def objectMembers (maxLength : Int) (body : Option Node) : List Field :=
  match body with
  | some b => b.namedChildren.filterMap (objectMember? maxLength)
  | none => []

def enumMember? (member : Node) : Option Field :=
  let target := if member.isKind "enum_assignment" then member.child? "name" else some member
  (target.bind memberName?).map fun name => { name, label := "enum" }

def enumMembers (body : Option Node) : List Field :=
  match body with
  | some b => b.namedChildren.filterMap enumMember?
  | none => []

def heritage (n : Node) : List String :=
  match n.children.find? (·.isKind "extends_type_clause") with
  | some clause => clause.namedChildren.map fun t => String.ofList (collapseBlanks t.text.toList)
  | none => []

/-- The name and the schema of a declaration. An alias of anything but an object type has none. -/
def schema? (d : DeclarationSettings) (n : Node) : Option (String × Schema) :=
  let name := n.childText "name"
  if !kinds.contains n.kind || name.isEmpty then none
  else if n.isKind "enum_declaration" then
    some (name, { source := .declaration, fields := enumMembers (n.child? "body"), name })
  else if n.isKind "interface_declaration" then
    some (name, { source := .declaration, fields := objectMembers d.maxTypeLength (n.child? "body"),
                  name, parents := heritage n })
  else
    match n.child? "value" with
    | some value =>
      if value.isKind "interface_body" || value.isKind "object_type" then
        some (name,
          { source := .declaration, fields := objectMembers d.maxTypeLength (some value), name })
      else none
    | none => none

end Declaration

end ContractInference
