/-!
# Text

Decoded text is a list of code points. An escape in a string literal can name one half of a
surrogate pair, which no `Char` holds, so the points range over all of `0 … 0x10FFFF`.
-/

namespace ContractInference

abbrev CodePoint := Fin 0x110000

structure Text where
  points : List CodePoint
deriving DecidableEq, Repr, Inhabited

namespace CodePoint

def ofNat (n : Nat) : CodePoint := Fin.ofNat 0x110000 n

def ofChar (c : Char) : CodePoint := ofNat c.toNat

def isHighSurrogate (p : CodePoint) : Bool := 0xD800 ≤ p.val && p.val < 0xDC00

def isLowSurrogate (p : CodePoint) : Bool := 0xDC00 ≤ p.val && p.val < 0xE000

/-- The point that a high and a low surrogate name together. -/
def ofPair (high low : CodePoint) : CodePoint :=
  ofNat (0x10000 + (high.val - 0xD800) * 0x400 + (low.val - 0xDC00))

/-- The character of a point; a surrogate has none and gives U+FFFD. -/
def toChar (p : CodePoint) : Char :=
  if isHighSurrogate p || isLowSurrogate p then '�' else Char.ofNat p.val

end CodePoint

namespace Text

def empty : Text := ⟨[]⟩

def ofChars (cs : List Char) : Text := ⟨cs.map CodePoint.ofChar⟩

def ofString (s : String) : Text := ofChars s.toList

instance : Coe String Text := ⟨ofString⟩

def append (a b : Text) : Text := ⟨a.points ++ b.points⟩

instance : Append Text := ⟨append⟩

def concat (ts : List Text) : Text := ⟨ts.flatMap points⟩

def join (sep : Text) (ts : List Text) : Text := concat (ts.intersperse sep)

/-- The text `pattern` occurs somewhere in the points. -/
def occursIn (pattern : List CodePoint) : List CodePoint → Bool
  | [] => pattern.isEmpty
  | p :: ps => pattern.isPrefixOf (p :: ps) || occursIn pattern ps

def contains (t pattern : Text) : Bool := occursIn pattern.points t.points

/-- Characters of the points: an adjacent pair of surrogates is one character. -/
def chars : List CodePoint → List Char
  | high :: low :: rest =>
    if high.isHighSurrogate && low.isLowSurrogate then
      (CodePoint.ofPair high low).toChar :: chars rest
    else
      high.toChar :: chars (low :: rest)
  | [p] => [p.toChar]
  | [] => []

def toString (t : Text) : String := String.ofList (chars t.points)

@[simp] theorem points_append (a b : Text) : (a ++ b).points = a.points ++ b.points := rfl

@[simp] theorem append_empty (a : Text) : a ++ empty = a :=
  congrArg Text.mk (List.append_nil a.points)

theorem append_assoc (a b c : Text) : a ++ b ++ c = a ++ (b ++ c) :=
  congrArg Text.mk (List.append_assoc a.points b.points c.points)

end Text

end ContractInference
