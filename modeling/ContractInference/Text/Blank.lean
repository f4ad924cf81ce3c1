/-!
# Blank characters

The characters that separate words: the space separators, and the control characters that
break or tabulate lines. The byte order mark and the zero-width spaces are not among them.
-/

namespace ContractInference

def blankRanges : List (Nat × Nat) :=
  [(0x9, 0xD), (0x1C, 0x20), (0x85, 0x85), (0xA0, 0xA0), (0x1680, 0x1680), (0x2000, 0x200A),
    (0x2028, 0x2029), (0x202F, 0x202F), (0x205F, 0x205F), (0x3000, 0x3000)]

def inRanges (ranges : List (Nat × Nat)) (n : Nat) : Bool :=
  ranges.any fun (lo, hi) => lo ≤ n && n ≤ hi

def isBlank (c : Char) : Bool := inRanges blankRanges c.toNat

/-- The maximal runs of characters that are not blank, the word being read in `current`. -/
def wordsAux (current : List Char) : List Char → List (List Char)
  | [] => if current.isEmpty then [] else [current.reverse]
  | c :: cs =>
    if isBlank c then
      if current.isEmpty then wordsAux [] cs else current.reverse :: wordsAux [] cs
    else wordsAux (c :: current) cs

def words (cs : List Char) : List (List Char) := wordsAux [] cs

/-- The words of a text with one space between neighbours. -/
def collapseBlanks (cs : List Char) : List Char := List.intercalate [' '] (words cs)

end ContractInference
