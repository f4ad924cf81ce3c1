import ContractInference.Number.Binary64

/-!
# Data

The values of configuration files, environment variables, log fields and reports: scalars,
lists, and mappings that keep the order in which their keys were first written.
-/

namespace ContractInference

/-- A day, with a time and an offset from universal time when it has them. -/
structure Instant where
  year : Nat
  month : Nat
  day : Nat
  /-- Hour, minute, second and microsecond. -/
  time : Option (Nat × Nat × Nat × Nat) := none
  offsetMinutes : Option Int := none
deriving DecidableEq, Repr

inductive Scalar where
  | null
  | bool (b : Bool)
  | int (n : Int)
  | float (x : Binary64)
  | text (s : String)
  | instant (i : Instant)
deriving DecidableEq, Repr, Inhabited

/-- What a key is known by: equal numbers are one key, whatever their kinds. -/
def Scalar.asKey : Scalar → Scalar
  | .bool b => .int (if b then 1 else 0)
  | .float x =>
    match x.toInt? with
    | some n => .int n
    | none => .float x
  | s => s

inductive Datum where
  | scalar (s : Scalar)
  | list (items : List Datum)
  | map (entries : List (Scalar × Datum))
deriving Repr, Inhabited

namespace Datum

@[match_pattern] abbrev null : Datum := .scalar .null

@[match_pattern] abbrev bool (b : Bool) : Datum := .scalar (.bool b)

@[match_pattern] abbrev int (n : Int) : Datum := .scalar (.int n)

@[match_pattern] abbrev float (x : Binary64) : Datum := .scalar (.float x)

@[match_pattern] abbrev text (s : String) : Datum := .scalar (.text s)

def ofOption {α : Type} (f : α → Datum) : Option α → Datum
  | some a => f a
  | none => .null

def nat (n : Nat) : Datum := .int n

def texts (ss : List String) : Datum := .list (ss.map text)

def record (fields : List (String × Datum)) : Datum :=
  .map (fields.map fun (k, v) => (.text k, v))

def isMap : Datum → Bool
  | .map _ => true
  | _ => false

/-- The values that count as absent: null, false, zero and everything empty. -/
def isFalsy : Datum → Bool
  | .scalar .null => true
  | .scalar (.bool b) => !b
  | .scalar (.int n) => n == 0
  | .scalar (.float x) => x.isZero
  | .scalar (.text s) => s.isEmpty
  | .scalar (.instant _) => false
  | .list items => items.isEmpty
  | .map entries => entries.isEmpty

def lookup? (key : Scalar) : List (Scalar × Datum) → Option Datum
  | [] => none
  | (k, v) :: rest => if k.asKey = key.asKey then some v else lookup? key rest

def get? (d : Datum) (key : String) : Option Datum :=
  match d with
  | .map entries => lookup? (.text key) entries
  | _ => none

/-- Sets a key: a key that is there keeps its place and its form. -/
def setEntry (key : Scalar) (value : Datum) : List (Scalar × Datum) → List (Scalar × Datum)
  | [] => [(key, value)]
  | (k, v) :: rest =>
    if k.asKey = key.asKey then (k, value) :: rest else (k, v) :: setEntry key value rest

/-- Entries written one after the other: the last value of a key wins, at its first place. -/
def ofEntries (entries : List (Scalar × Datum)) : List (Scalar × Datum) :=
  entries.foldl (fun acc (k, v) => setEntry k v acc) []

end Datum

end ContractInference
