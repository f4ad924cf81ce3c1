/-!
# Reading bytes as text

UTF-8 with a replacement character for each longest run of bytes that starts a character and
does not complete it, or with the first such run as a fault. Line ends of all conventions become
line feeds.
-/

namespace ContractInference

namespace Lossy

def replacement : Char := '�'

/-- How many bytes follow a lead byte, and the range of the first of them. -/
def following? (lead : Nat) : Option (Nat × Nat × Nat) :=
  if 0xC2 ≤ lead && lead ≤ 0xDF then some (1, 0x80, 0xBF)
  else if lead = 0xE0 then some (2, 0xA0, 0xBF)
  else if lead = 0xED then some (2, 0x80, 0x9F)
  else if 0xE1 ≤ lead && lead ≤ 0xEF then some (2, 0x80, 0xBF)
  else if lead = 0xF0 then some (3, 0x90, 0xBF)
  else if 0xF1 ≤ lead && lead ≤ 0xF3 then some (3, 0x80, 0xBF)
  else if lead = 0xF4 then some (3, 0x80, 0x8F)
  else none

def leadBits (lead count : Nat) : Nat := lead % Nat.pow 2 (6 - count)

/-- Decodes bytes; a character that has begun has `need` bytes to come, the next of them in the
given range, and the value so far. -/
def decodeAux : Nat → Nat → Nat → Nat → List UInt8 → List Char
  | 0, _, _, _, [] => []
  | _ + 1, _, _, _, [] => [replacement]
  | 0, _, _, _, b :: bs =>
    if b.toNat < 0x80 then Char.ofNat b.toNat :: decodeAux 0 0 0 0 bs
    else
      match following? b.toNat with
      | some (count, lo, hi) => decodeAux count lo hi (leadBits b.toNat count) bs
      | none => replacement :: decodeAux 0 0 0 0 bs
  | need + 1, lo, hi, value, b :: bs =>
    if lo ≤ b.toNat && b.toNat ≤ hi then
      let value := 64 * value + b.toNat % 64
      if need = 0 then Char.ofNat value :: decodeAux 0 0 0 0 bs
      else decodeAux need 0x80 0xBF value bs
    else if b.toNat < 0x80 then replacement :: Char.ofNat b.toNat :: decodeAux 0 0 0 0 bs
    else
      match following? b.toNat with
      | some (count, lo, hi) => replacement :: decodeAux count lo hi (leadBits b.toNat count) bs
      | none => replacement :: replacement :: decodeAux 0 0 0 0 bs

def decode (bytes : List UInt8) : String := String.ofList (decodeAux 0 0 0 0 bytes)

inductive Utf8Reason where
  | badStart
  | badContinuation
  | incomplete
deriving DecidableEq, Repr

/-- The first bytes that are no character: those from `start` to before `stop`. -/
structure Utf8Fault where
  start : Nat
  stop : Nat
  first : UInt8
  reason : Utf8Reason
deriving DecidableEq, Repr

/-- The fault in the bytes from a position on. A character that has begun at `start` with `first`
has `need` bytes to come, the next of them in the given range. -/
def faultFrom (position : Nat) (start : Nat) (first : UInt8) :
    Nat → Nat → Nat → List UInt8 → Option Utf8Fault
  | 0, _, _, [] => none
  | _ + 1, _, _, [] => some ⟨start, position, first, .incomplete⟩
  | 0, _, _, b :: bs =>
    if b.toNat < 0x80 then faultFrom (position + 1) position b 0 0 0 bs
    else
      match following? b.toNat with
      | some (count, lo, hi) => faultFrom (position + 1) position b count lo hi bs
      | none => some ⟨position, position + 1, b, .badStart⟩
  | need + 1, lo, hi, b :: bs =>
    if lo ≤ b.toNat && b.toNat ≤ hi then faultFrom (position + 1) start first need 0x80 0xBF bs
    else some ⟨start, position, first, .badContinuation⟩

def fault? (bytes : List UInt8) : Option Utf8Fault := faultFrom 0 0 0 0 0 0 bytes

def unifyLineEnds : List Char → List Char
  | '\r' :: '\n' :: cs => '\n' :: unifyLineEnds cs
  | '\r' :: cs => '\n' :: unifyLineEnds cs
  | c :: cs => c :: unifyLineEnds cs
  | [] => []

end Lossy

end ContractInference
