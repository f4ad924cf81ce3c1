import ContractInference.Table

/-!
# Files in flight

The files that are being read, from the one that was asked for to the one read on its behalf,
with how deep in the chain each one lies. Running into one of them is a cycle; the shallowest
file that was run into is remembered.
-/

namespace ContractInference

/-- The smaller of two depths of which either may be missing. -/
def shallower : Option Nat → Option Nat → Option Nat
  | none, b => b
  | a, none => a
  | some a, some b => some (min a b)

structure InFlight where
  depths : Table String Nat := []
  floor : Option Nat := none
deriving DecidableEq, Repr

/-- A file's derivation: its depth, and what had been run into before it began. -/
structure Frame where
  depth : Nat
  outerFloor : Option Nat
deriving DecidableEq, Repr

namespace InFlight

def contains (f : InFlight) (path : String) : Bool := Table.hasKey f.depths path

def size (f : InFlight) : Nat := List.length f.depths

def add (f : InFlight) (path : String) : InFlight :=
  { f with depths := Table.putNew f.depths path f.size }

/-- Takes a file off the chain; an empty chain has run into nothing. -/
def discard (f : InFlight) (path : String) : InFlight :=
  let depths := f.depths.filter (·.1 ≠ path)
  { depths, floor := if depths.isEmpty then none else f.floor }

def noteCycle (f : InFlight) (path : String) : InFlight :=
  { f with floor := shallower f.floor (Table.get? f.depths path) }

/-- Begins the derivation of a file with nothing run into. -/
def enter (f : InFlight) (path : String) : Frame × InFlight :=
  ({ depth := (Table.get? f.depths path).getD f.size, outerFloor := f.floor },
    { f with floor := none })

/-- Ends a derivation. What was run into during it counts for the chain around it too. -/
def exit (f : InFlight) (frame : Frame) : InFlight :=
  { f with floor := shallower frame.outerFloor f.floor }

/-- The derivation ran into a file further up the chain, so that its result lacks that file's
schemas. -/
def cutShort (f : InFlight) (frame : Frame) : Bool :=
  match f.floor with
  | some n => n < frame.depth
  | none => false

theorem contains_add (f : InFlight) (path p : String) :
    (f.add path).contains p = (decide (path = p) || f.contains p) := by
  by_cases h : path = p <;>
    simp [contains, add, Table.hasKey_eq_isSome, Table.get?_putNew, h]

end InFlight

end ContractInference
