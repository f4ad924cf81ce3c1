import ContractInference.Syntax.Tree

/-!
# Syntax nodes

A node of a syntax tree has a kind, the source text it covers, and the field it fills in its
parent. Punctuation and keywords are nodes too, but not named ones.
-/

namespace ContractInference

structure Tag where
  kind : String
  text : String
  field : Option String := none
  named : Bool := true
  /-- The parser supplied the node where the source had none. -/
  missing : Bool := false
deriving DecidableEq, Repr, Inhabited

/-- A node that marks a place where the source does not follow the grammar. -/
def Tag.isError (t : Tag) : Bool := t.kind == "ERROR" || t.missing

/-- How many nodes a tree has, and how many of them mark errors. -/
structure Census where
  errors : Nat := 0
  total : Nat := 0
deriving DecidableEq, Repr

def Census.count (c : Census) (t : Tag) : Census :=
  { errors := if t.isError then c.errors + 1 else c.errors, total := c.total + 1 }

abbrev Node := Tree Tag

namespace Tree

def kind (n : Node) : String := n.label.kind

def text (n : Node) : String := n.label.text

def isKind (n : Node) (kind : String) : Bool := n.kind == kind

def namedChildren (n : Node) : List Node := n.children.filter (·.label.named)

def child? (n : Node) (field : String) : Option Node :=
  n.children.find? (·.label.field == some field)

def childText (n : Node) (field : String) : String :=
  match n.child? field with
  | some c => c.text
  | none => ""

def hasChildKind (n : Node) (kind : String) : Bool := n.children.any (·.isKind kind)

def census (n : Node) : Census := Tree.foldFromRight Census.count {} [n]

/-- The text of a quoted node without its quotes; none for other kinds. -/
def stringValue? (n : Node) : Option String :=
  if n.isKind "string" then
    let cs := n.text.toList
    match cs.head?, cs.getLast? with
    | some first, some last =>
      if 2 ≤ cs.length && (first = '\'' || first = '"') && first = last then
        some (String.ofList (cs.drop 1).dropLast)
      else some n.text
    | _, _ => some n.text
  else none

end Tree

end ContractInference
