/-!
# Paths

Paths with slashes: an optional root of one or two slashes and the names after it. Empty names
and single dots do not count; two dots are kept until a path is made absolute.
-/

namespace ContractInference

structure Path where
  /-- Nothing, one slash or two. -/
  root : String
  parts : List String
deriving DecidableEq, Repr

namespace Path

/-- The root of a path's text: exactly two slashes in front are kept as two. -/
def rootOf (cs : List Char) : String :=
  match cs with
  | '/' :: '/' :: '/' :: _ => "/"
  | '/' :: '/' :: _ => "//"
  | '/' :: _ => "/"
  | _ => ""

def pieces (cs : List Char) : List String :=
  (cs.splitOn '/').map String.ofList

def isName (s : String) : Bool := s ≠ "" && s ≠ "."

def ofString (s : String) : Path :=
  { root := rootOf s.toList, parts := (pieces s.toList).filter isName }

def text (p : Path) : String :=
  let joined := "/".intercalate p.parts
  if p.root.isEmpty && joined.isEmpty then "." else p.root ++ joined

def isAbsolute (p : Path) : Bool := !p.root.isEmpty

def name (p : Path) : String := p.parts.getLast?.getD ""

/-- A name before and from its last dot. A dot at either end does not split. -/
def splitName (name : String) : String × String :=
  let cs := name.toList
  let after := (cs.reverse.takeWhile (· ≠ '.')).reverse
  let before := cs.take (cs.length - after.length - 1)
  if after.length < cs.length && !before.isEmpty && !after.isEmpty then
    (String.ofList before, String.ofList ('.' :: after))
  else (name, "")

def suffix (p : Path) : String := (splitName p.name).2

def stem (p : Path) : String := (splitName p.name).1

def parent (p : Path) : Path := { p with parts := p.parts.dropLast }

def withSuffix (p : Path) (suffix : String) : Path :=
  { p with parts := p.parts.dropLast ++ [p.stem ++ suffix] }

/-- A path seen from another one; an absolute path stands for itself. -/
def join (p : Path) (s : String) : Path :=
  let q := ofString s
  if q.isAbsolute then q else { p with parts := p.parts ++ q.parts }

/-- Goes through the parts of an absolute path; two dots take back the part before them. -/
def resolveDots (parts : List String) : List String :=
  parts.foldl (fun acc s => if s == ".." then acc.dropLast else acc ++ [s]) []

/-- The absolute path without dots. A relative path starts at the root directory; one that starts
elsewhere is joined to the directory first. -/
def absolute (p : Path) : Path :=
  { root := if p.root.isEmpty then "/" else p.root, parts := resolveDots p.parts }

def key (s : String) : String := (ofString s).absolute.text

end Path

end ContractInference
