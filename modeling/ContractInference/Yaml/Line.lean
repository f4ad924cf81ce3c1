/-!
# Lines of YAML

Characters that end lines and words. The end of a text counts as a blank, and is seen as the
null character, which no text contains.
-/

namespace ContractInference.Yaml

/-- The character at a position, or the null character past the end. -/
def peek (cs : List Char) (i : Nat) : Char := cs.getD i '\x00'

def isBreak (c : Char) : Bool :=
  c = '\n' || c = '\r' || c = '\u0085' || c = '\u2028' || c = '\u2029'

def isBreakOrEnd (c : Char) : Bool := isBreak c || c = '\x00'

def isSpaceOrEnd (c : Char) : Bool := c = ' ' || isBreakOrEnd c

def isBlankOrEnd (c : Char) : Bool := c = '\t' || isSpaceOrEnd c

def isSpaceOrTab (c : Char) : Bool := c = ' ' || c = '\t'

def isAdmitted (c : Char) : Bool :=
  c = '\t' || c = '\n' || c = '\r' || (' ' ≤ c && c ≤ '~') || c = '\u0085' ||
    ('\u00A0' ≤ c && c ≤ '\uFFFD') || 0x10000 ≤ c.toNat

/-- The line end at the head, as it counts inside a scalar, and what follows it. -/
def lineBreak? : List Char → Option (Char × List Char)
  | '\r' :: '\n' :: cs => some ('\n', cs)
  | c :: cs =>
    if c = '\n' || c = '\r' || c = '\u0085' then some ('\n', cs)
    else if c = '\u2028' || c = '\u2029' then some (c, cs)
    else none
  | [] => none

/-- Three dashes or three dots on their own, which separate documents at the start of a line. -/
def isSeparator (cs : List Char) : Bool :=
  (cs.take 3 == ['-', '-', '-'] || cs.take 3 == ['.', '.', '.']) && isBlankOrEnd (peek cs 3)

/-- The rest of a line after blanks and a comment; nothing else may stand there. -/
def ignoredLine? (cs : List Char) : Option (List Char) :=
  let cs := cs.dropWhile (· = ' ')
  let cs := if peek cs 0 = '#' then cs.dropWhile (!isBreak ·) else cs
  if cs.isEmpty then some []
  else (lineBreak? cs).map (·.2)

/-- A line end between two parts of a scalar: alone it counts as a space, and before others it
does not count. -/
def joinLines (first : Char) (others : List Char) : List Char :=
  if first ≠ '\n' then first :: others
  else if others.isEmpty then [' ']
  else others

end ContractInference.Yaml
