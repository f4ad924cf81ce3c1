import ContractInference.Number.Binary64

/-!
# Shortest decimal text

The decimal of fewest digits that rounds back to a given double, and the nearest of those. The
reals that round to `m · 2 ^ e` form an interval around it, with its ends if `m` is even; on
each grid of `1, 2, …` significant digits it is enough to look at the two neighbours of the
value.
-/

namespace ContractInference.Binary64

/-- A positive decimal `0.d₁d₂… · 10 ^ point`, written by its digits. -/
structure Decimal where
  digits : Nat
  point : Int
deriving DecidableEq, Repr

/-- The reals that round to a number: both ends and the value itself over `4 · unit`, where the
number is `value / (4 · unit)`. -/
structure Neighbourhood where
  low : Nat
  value : Nat
  high : Nat
  unit : Nat
  closed : Bool

def neighbourhood (m : Nat) (e : Int) : Neighbourhood :=
  let below := if m = leastSignificand && leastExponent < e then 1 else 2
  let (s, unit) := scale 1 e
  { low := (4 * m - below) * s, value := 4 * m * s, high := (4 * m + 2) * s,
    unit := 4 * unit, closed := m % 2 == 0 }

def Neighbourhood.contains (n : Neighbourhood) (numerator denominator : Nat) : Bool :=
  let x := numerator * n.unit
  if n.closed then n.low * denominator ≤ x && x ≤ n.high * denominator
  else n.low * denominator < x && x < n.high * denominator

def digitCount (n : Nat) : Nat := (Nat.toDigits 10 n).length

/-- The least `point` with `numerator / denominator < 10 ^ point`. -/
def decimalPoint (numerator denominator : Nat) : Int :=
  if denominator ≤ numerator then digitCount (numerator / denominator)
  else
    let shift := digitCount (denominator / numerator)
    if numerator * Nat.pow 10 (shift - 1) < denominator then -(shift : Int) + 1
    else -(shift : Int) + 2

/-- The nearest decimal of `count` digits that rounds back, if there is one. -/
def decimalOf? (n : Neighbourhood) (point : Int) (count : Nat) : Option Nat :=
  let shift : Int := count - point
  let (up, down) :=
    if 0 ≤ shift then (Nat.pow 10 shift.toNat, 1) else (1, Nat.pow 10 (-shift).toNat)
  let numerator := n.value * up
  let denominator := n.unit * down
  let lower := numerator / denominator
  let nearest := roundDiv numerator denominator
  let other := if nearest = lower then lower + 1 else lower
  if n.contains (nearest * down) up then some nearest
  else if n.contains (other * down) up then some other
  else none

/-- The first of the digit counts `count, count + 1, …` that gives a decimal. -/
def searchDecimal (n : Neighbourhood) (point : Int) : Nat → Nat → Nat × Nat
  | 0, count => (roundDiv n.value n.unit, count)
  | fuel + 1, count =>
    match decimalOf? n point count with
    | some digits => (digits, count)
    | none => searchDecimal n point fuel (count + 1)

def shortest (m : Nat) (e : Int) : Decimal :=
  let n := neighbourhood m e
  let point := decimalPoint n.value n.unit
  let (digits, count) := searchDecimal n point 17 1
  let point := point + (digitCount digits : Int) - count
  { digits, point }

def significantDigits (digits : Nat) : List Char :=
  match (Nat.toDigits 10 digits).reverse.dropWhile (· == '0') with
  | [] => ['0']
  | cs => cs.reverse

/-- How numbers are laid out: the exponents written positionally and the texts of the values
that have no digits. -/
structure Layout where
  leastPositional : Int
  greatestPositional : Int
  infinity : String
  nan : String

/-- Positional from `0.0001` up to sixteen digits; an exponent has a sign and two digits. -/
def Layout.plain : Layout :=
  { leastPositional := -4, greatestPositional := 15, infinity := "inf", nan := "nan" }

/-- The same digits, with the words that data interchange uses. -/
def Layout.interchange : Layout := { Layout.plain with infinity := "Infinity", nan := "NaN" }

def exponentText (e : Int) : String :=
  let digits := Nat.toDigits 10 e.natAbs
  let digits := if digits.length < 2 then '0' :: digits else digits
  (if e < 0 then "e-" else "e+") ++ String.ofList digits

def Layout.digitsText (layout : Layout) (ds : List Char) (point : Int) : String :=
  let e := point - 1
  if layout.leastPositional ≤ e && e ≤ layout.greatestPositional then
    if point ≤ 0 then
      "0." ++ String.ofList (List.replicate (-point).toNat '0' ++ ds)
    else
      let whole := ds.take point.toNat
      let whole := whole ++ List.replicate (point.toNat - whole.length) '0'
      let rest := ds.drop point.toNat
      String.ofList whole ++ "." ++ String.ofList (if rest.isEmpty then ['0'] else rest)
  else
    match ds with
    | [] => "0"
    | [d] => String.ofList [d] ++ exponentText e
    | d :: rest => String.ofList [d] ++ "." ++ String.ofList rest ++ exponentText e

def Layout.text (layout : Layout) : Binary64 → String
  | .nan => layout.nan
  | .infinite s => (if s then "-" else "") ++ layout.infinity
  | .finite s m e =>
    let sign := if s then "-" else ""
    if m = 0 then sign ++ "0.0"
    else
      let d := shortest m e
      sign ++ layout.digitsText (significantDigits d.digits) d.point

end ContractInference.Binary64
