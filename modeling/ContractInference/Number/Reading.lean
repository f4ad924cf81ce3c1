import ContractInference.Json.Reader
import ContractInference.Text.Blank

/-!
# Reading numbers

Integers with a radix mark and decimal fractions, from text that may have blanks around it and
may use the decimal digits of any script.
-/

namespace ContractInference

/-- The zeros of the scripts; the nine other digits of a script follow its zero. -/
def decimalZeros : List Nat :=
  [0x30, 0x660, 0x6F0, 0x7C0, 0x966, 0x9E6, 0xA66, 0xAE6, 0xB66, 0xBE6, 0xC66, 0xCE6, 0xD66, 0xDE6,
    0xE50, 0xED0, 0xF20, 0x1040, 0x1090, 0x17E0, 0x1810, 0x1946, 0x19D0, 0x1A80, 0x1A90, 0x1B50,
    0x1BB0, 0x1C40, 0x1C50, 0xA620, 0xA8D0, 0xA900, 0xA9D0, 0xA9F0, 0xAA50, 0xABF0, 0xFF10, 0x104A0,
    0x10D30, 0x11066, 0x110F0, 0x11136, 0x111D0, 0x112F0, 0x11450, 0x114D0, 0x11650, 0x116C0,
    0x11730, 0x118E0, 0x11950, 0x11C50, 0x11D50, 0x11DA0, 0x16A60, 0x16AC0, 0x16B50, 0x1D7CE,
    0x1D7D8, 0x1D7E2, 0x1D7EC, 0x1D7F6, 0x1E140, 0x1E2F0, 0x1E950, 0x1FBF0]

/-- A digit of any script as the ASCII digit, a blank beyond ASCII as a space. -/
def plainDigit (c : Char) : Char :=
  if c.toNat < 0x7F then c
  else if isBlank c then ' '
  else
    match decimalZeros.find? fun z => z ≤ c.toNat && c.toNat < z + 10 with
    | some z => Char.ofNat ('0'.toNat + (c.toNat - z))
    | none => '?'

def isPlainSpace (c : Char) : Bool := c = ' ' || ('\t' ≤ c && c ≤ '\r')

def numberChars (s : String) : List Char :=
  let cs := (s.toList.map plainDigit).dropWhile isPlainSpace
  (cs.reverse.dropWhile isPlainSpace).reverse

def readSign : List Char → Bool × List Char
  | '-' :: cs => (true, cs)
  | '+' :: cs => (false, cs)
  | cs => (false, cs)

def signed (negative : Bool) (n : Nat) : Int := if negative then -(n : Int) else n

/-- The value of a digit in radices up to sixteen. -/
def digitValue? (radix : Nat) (c : Char) : Option Nat :=
  (Json.hexValue? c).bind fun v => if v < radix then some v else none

/-- The number that digits spell; there has to be one and they all have to be below the radix. -/
def natOfRadix? (radix : Nat) (cs : List Char) : Option Nat :=
  if cs.isEmpty then none
  else cs.foldlM (fun n c => (digitValue? radix c).map (radix * n + ·)) 0

/-- An integer with an optional radix mark. A decimal number other than zero has no leading
zero, and a decimal number is not too long. -/
def natOfMarked? : List Char → Option Nat
  | '0' :: c :: cs =>
    if c = 'x' || c = 'X' then natOfRadix? 16 cs
    else if c = 'o' || c = 'O' then natOfRadix? 8 cs
    else if c = 'b' || c = 'B' then natOfRadix? 2 cs
    else if maxIntegerDigits < cs.length + 2 then none
    else if (c :: cs).all (· = '0') then some 0
    else none
  | cs => if maxIntegerDigits < cs.length then none else natOfRadix? 10 cs

def readInteger? (s : String) : Option Int :=
  let (negative, cs) := readSign (numberChars s)
  (natOfMarked? cs).map (signed negative)

/-- Digits, a point and digits, an exponent. -/
def decimalOfChars? (negative : Bool) (cs : List Char) : Option Binary64 :=
  let whole := cs.takeWhile Char.isDigit
  let rest := cs.dropWhile Char.isDigit
  let (fraction, rest) := match rest with
    | '.' :: r => (r.takeWhile Char.isDigit, r.dropWhile Char.isDigit)
    | r => ([], r)
  if whole.isEmpty && fraction.isEmpty then none
  else
    let (exponent, rest) := Json.readExponent rest
    if rest.isEmpty then
      some (Binary64.ofDecimal negative (Json.natOfDigits (whole ++ fraction))
        (exponent.getD 0 - fraction.length))
    else none

/-- A decimal fraction, or one of the words for infinity and for no number. -/
def readFloat? (s : String) : Option Binary64 :=
  let (negative, cs) := readSign (numberChars s)
  let word := String.ofList (cs.map Char.toLower)
  if word == "inf" || word == "infinity" then some (.infinite negative)
  else if word == "nan" then some .nan
  else decimalOfChars? negative cs

end ContractInference
