/-!
# Trees

Finitely branching trees with labelled nodes, and their traversal with an explicit stack: the
node on top is visited and its children take its place.
-/

namespace ContractInference

inductive Tree (α : Type) where
  | node (label : α) (children : List (Tree α))
deriving Repr, Inhabited

namespace Tree

variable {α : Type}

def label : Tree α → α
  | .node a _ => a

def children : Tree α → List (Tree α)
  | .node _ ts => ts

mutual

def size : Tree α → Nat
  | .node _ ts => 1 + sizeAll ts

def sizeAll : List (Tree α) → Nat
  | [] => 0
  | t :: ts => t.size + sizeAll ts

end

theorem sizeAll_append (xs ys : List (Tree α)) :
    sizeAll (xs ++ ys) = sizeAll xs + sizeAll ys := by
  induction xs with
  | nil => simp [sizeAll]
  | cons x xs ih => simp [sizeAll, ih, Nat.add_assoc]

theorem sizeAll_children_lt (t : Tree α) : sizeAll t.children < t.size := by
  cases t; simp [children, size]

/-- All nodes below a stack of trees, a node before its children and those from the left. -/
def visit (stack : List (Tree α)) : List (Tree α) :=
  match stack with
  | [] => []
  | t :: rest => t :: visit (t.children ++ rest)
termination_by sizeAll stack
decreasing_by
  have := sizeAll_children_lt t
  simp only [sizeAll_append, sizeAll]
  omega

def nodes (t : Tree α) : List (Tree α) := visit [t]

def findAll (p : α → Bool) (t : Tree α) : List (Tree α) := t.nodes.filter (p ·.label)

/-- Folds over all nodes below a stack; the rightmost child is taken first. -/
def foldFromRight {β : Type} (f : β → α → β) (acc : β) (stack : List (Tree α)) : β :=
  match stack with
  | [] => acc
  | t :: rest => foldFromRight f (f acc t.label) (t.children.reverse ++ rest)
termination_by sizeAll stack
decreasing_by
  have := sizeAll_children_lt t
  have reverse (ts : List (Tree α)) : sizeAll ts.reverse = sizeAll ts := by
    induction ts with
    | nil => rfl
    | cons x xs ih => simp [sizeAll_append, sizeAll, ih]; omega
  simp only [sizeAll_append, sizeAll, reverse]
  omega

end Tree

end ContractInference
