import ContractInference.Syntax.Node

/-!
# Call chains

A chain such as `z.string().min(3)` is a root name and the names of the members that follow it.
Only names, members and calls are followed; anything else cuts the chain off.
-/

namespace ContractInference

structure Chain where
  root : Option String
  /-- Names from the root outwards. -/
  methods : List String
deriving DecidableEq, Repr

namespace Chain

def parts (c : Chain) : List String := c.root.toList ++ c.methods

def constructor? (c : Chain) : Option String :=
  match c.root with
  | some _ => c.methods.head?
  | none => none

def last? (c : Chain) : Option String := c.parts.getLast?

def hasMethod (c : Chain) (names : List String) : Bool := names.any (c.methods.contains ·)

def isRootedAt (c : Chain) (name : String) : Bool := c.root == some name && 2 ≤ c.parts.length

end Chain

namespace Tree

theorem size_child?_lt {n c : Node} {field : String} (h : n.child? field = some c) :
    c.size < n.size := by
  have mem : c ∈ n.children := List.mem_of_find?_eq_some h
  have le {ts : List Node} (m : c ∈ ts) : c.size ≤ sizeAll ts := by
    induction ts with
    | nil => cases m
    | cons t ts ih =>
      simp only [sizeAll]
      cases m with
      | head => omega
      | tail _ m => have := ih m; omega
  have := le mem
  have := sizeAll_children_lt n
  omega

def isCall (n : Node) : Bool := n.isKind "call_expression"

def isMember (n : Node) : Bool := n.isKind "member_expression"

def memberName? (n : Node) : Option String :=
  match n.child? "property" with
  | some p =>
    if p.isKind "property_identifier" || p.isKind "identifier" then some p.text else none
  | none => none

/-- Follows a callee inwards; the names met last come first. -/
def followCallee (n : Node) (methods : List String) : Chain :=
  if n.isMember then
    let methods := (n.memberName?).toList ++ methods
    match _h : n.child? "object" with
    | some o => followCallee o methods
    | none => ⟨none, methods⟩
  else if n.isCall then
    match _h : n.child? "function" with
    | some f => followCallee f methods
    | none => ⟨none, methods⟩
  else if n.isKind "identifier" then ⟨some n.text, methods⟩
  else ⟨none, methods⟩
termination_by n.size
decreasing_by
  · exact size_child?_lt _h
  · exact size_child?_lt _h

/-- The chain of a call; a node of another kind has an empty one. -/
def chain (n : Node) : Chain :=
  if n.isCall then
    match n.child? "function" with
    | some f => followCallee f []
    | none => ⟨none, []⟩
  else ⟨none, []⟩

def calledName? (n : Node) : Option String :=
  match n.child? "function" with
  | some f => if f.isMember then f.memberName? else none
  | none => none

/-- What a call was chained on: the object of the member it calls, or the callee itself. -/
def callTarget? (n : Node) : Option Node :=
  match n.child? "function" with
  | some f => if f.isMember then f.child? "object" else if f.isCall then some f else none
  | none => none

theorem size_callTarget?_lt {n t : Node} (h : n.callTarget? = some t) : t.size < n.size := by
  unfold callTarget? at h
  split at h
  · rename_i f hf
    have hlt := size_child?_lt hf
    split at h
    · have := size_child?_lt h
      omega
    · split at h
      · cases h; exact hlt
      · cases h
  · cases h

def innerCall? (n : Node) : Option Node :=
  match n.callTarget? with
  | some t => if t.isCall then some t else none
  | none => none

theorem size_innerCall?_lt {n t : Node} (h : n.innerCall? = some t) : t.size < n.size := by
  unfold innerCall? at h
  split at h
  · rename_i u hu
    split at h
    · cases h; exact size_callTarget?_lt hu
    · cases h
  · cases h

/-- All calls of a chain, the outermost first. -/
def calls (n : Node) : List Node :=
  if n.isCall then
    match _h : n.innerCall? with
    | some c => n :: calls c
    | none => [n]
  else []
termination_by n.size
decreasing_by exact size_innerCall?_lt _h

def callArguments (n : Node) : List Node :=
  match n.child? "arguments" with
  | some a => a.namedChildren.filter (!·.isKind "comment")
  | none => []

end Tree

end ContractInference
