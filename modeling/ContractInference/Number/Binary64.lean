/-!
# Double-precision numbers

A finite number is kept as sign, significand and binary exponent, so that reading, printing and
comparing are exact arithmetic on integers. Every operation that can round goes through
`ofRatio`, which rounds to nearest with ties to the even significand.
-/

namespace ContractInference

inductive Binary64 where
  | nan
  | infinite (negative : Bool)
  /-- The number `± significand · 2 ^ exponent`. -/
  | finite (negative : Bool) (significand : Nat) (exponent : Int)
deriving DecidableEq, Repr, Inhabited

namespace Binary64

def leastExponent : Int := -1074

def greatestExponent : Int := 971

def leastSignificand : Nat := 0x10000000000000

def zero : Binary64 := .finite false 0 leastExponent

/-- `numerator / denominator` rounded to the nearest integer, ties to even. -/
def roundDiv (numerator denominator : Nat) : Nat :=
  let quotient := numerator / denominator
  let twice := 2 * (numerator % denominator)
  if denominator < twice then quotient + 1
  else if twice = denominator then quotient + quotient % 2
  else quotient

/-- `n · 2 ^ e` as a fraction. -/
def scale (n : Nat) (e : Int) : Nat × Nat :=
  if 0 ≤ e then (n * Nat.pow 2 e.toNat, 1) else (n, Nat.pow 2 (-e).toNat)

/-- The exponent at which `numerator / denominator` has a significand of 53 bits. -/
def exponentOf (numerator denominator : Nat) : Int :=
  let guess : Int := (numerator.log2 : Int) - denominator.log2 - 52
  let (a, b) := scale denominator guess
  if numerator * b < leastSignificand * a then guess - 1 else guess

/-- The nearest number to `± numerator / denominator`. -/
def ofRatio (negative : Bool) (numerator denominator : Nat) : Binary64 :=
  if numerator = 0 then .finite negative 0 leastExponent
  else
    let e := max (exponentOf numerator denominator) leastExponent
    let (a, b) := scale denominator e
    let m := roundDiv (numerator * b) a
    let (m, e) := if m = 2 * leastSignificand then (leastSignificand, e + 1) else (m, e)
    if greatestExponent < e then .infinite negative else .finite negative m e

def ofInt (n : Int) : Binary64 := ofRatio (n < 0) n.natAbs 1

/-- The nearest number to `± digits · 10 ^ exponent`. An exponent far out of range is settled
without the power. -/
def ofDecimal (negative : Bool) (digits : Nat) (exponent : Int) : Binary64 :=
  if digits = 0 then .finite negative 0 leastExponent
  else
    let magnitude : Int := (digits.log2 : Int) * 3 / 10 + exponent
    if 400 < magnitude then .infinite negative
    else if magnitude < -400 then .finite negative 0 leastExponent
    else if 0 ≤ exponent then ofRatio negative (digits * Nat.pow 10 exponent.toNat) 1
    else ofRatio negative digits (Nat.pow 10 (-exponent).toNat)

def neg : Binary64 → Binary64
  | .nan => .nan
  | .infinite s => .infinite (!s)
  | .finite s m e => .finite (!s) m e

def add (x y : Binary64) : Binary64 :=
  match x, y with
  | .finite s m e, .finite t n f =>
    let (a, b) := scale m e
    let (c, d) := scale n f
    let sum : Int := (if s then -(a : Int) else a) * d + (if t then -(c : Int) else c) * b
    ofRatio (sum < 0) sum.natAbs (b * d)
  | .nan, _ | _, .nan => .nan
  | .infinite s, .infinite t => if s = t then .infinite s else .nan
  | .infinite s, _ | _, .infinite s => .infinite s

def mul (x y : Binary64) : Binary64 :=
  match x, y with
  | .finite s m e, .finite t n f =>
    let (a, b) := scale m e
    let (c, d) := scale n f
    ofRatio (s != t) (a * c) (b * d)
  | .nan, _ | _, .nan => .nan
  | .infinite s, .infinite t => .infinite (s != t)
  | .infinite s, .finite t m _ | .finite t m _, .infinite s =>
    if m = 0 then .nan else .infinite (s != t)

def isZero : Binary64 → Bool
  | .finite _ m _ => m == 0
  | _ => false

/-- The value of a finite number as a signed numerator over a denominator. -/
def toRatio? : Binary64 → Option (Int × Nat)
  | .finite s m e =>
    let (a, b) := scale m e
    some (if s then -(a : Int) else a, b)
  | _ => none

def toInt? (x : Binary64) : Option Int :=
  match x.toRatio? with
  | some (a, b) => if a % b = 0 then some (a / b) else none
  | none => none

/-- Order of the numbers; nothing is below or above a NaN. -/
def lt : Binary64 → Binary64 → Bool
  | .nan, _ => false
  | _, .nan => false
  | .infinite s, .infinite t => s && !t
  | .infinite s, .finite .. => s
  | .finite .., .infinite t => !t
  | x@(.finite ..), y@(.finite ..) =>
    match x.toRatio?, y.toRatio? with
    | some (a, b), some (c, d) => a * d < c * b
    | _, _ => false

def le : Binary64 → Binary64 → Bool
  | .nan, _ => false
  | _, .nan => false
  | x, y => !lt y x

end Binary64

end ContractInference
