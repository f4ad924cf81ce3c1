import ContractInference.Failure
import ContractInference.Path.Basic

/-!
# Path templates

Texts with fields in braces, such as `{dir}/schemas/{name}.ts`. A field names an argument, may
select members and items of it, may ask for its quoted form, and may give a layout. A doubled
brace stands for itself.
-/

namespace ContractInference

namespace Template

inductive Argument where
  | path (p : Path)
  | text (s : String)
  | tuple (items : List String)
  | list (items : List String)
  | ancestors (p : Path)
deriving Repr

abbrev Result (α : Type) := Except TemplateError α

namespace Argument

def kind : Argument → String
  | .path _ => "PosixPath"
  | .text _ => "str"
  | .tuple _ => "tuple"
  | .list _ => "list"
  | .ancestors _ => "_PathParents"

def inspect : Argument → String
  | .path p => "PosixPath(" ++ quoted p.text ++ ")"
  | .text s => quoted s
  | .tuple [only] => "(" ++ quoted only ++ ",)"
  | .tuple items => "(" ++ ", ".intercalate (items.map quoted) ++ ")"
  | .list items => "[" ++ ", ".intercalate (items.map quoted) ++ "]"
  | .ancestors _ => "<PosixPath.parents>"

def display : Argument → String
  | .path p => p.text
  | .text s => s
  | a => a.inspect

def suffixes (name : String) : List String :=
  if name.endsWith "." then []
  else
    ((name.toList.dropWhile (· = '.')).splitOn '.').drop 1 |>.map fun cs =>
      String.ofList ('.' :: cs)

def member (a : Argument) (name : String) : Result Argument :=
  match a, name with
  | .path p, "name" => .ok (.text p.name)
  | .path p, "stem" => .ok (.text p.stem)
  | .path p, "suffix" => .ok (.text p.suffix)
  | .path p, "suffixes" => .ok (.list (suffixes p.name))
  | .path p, "parent" => .ok (.path p.parent)
  | .path p, "parents" => .ok (.ancestors p)
  | .path p, "parts" => .ok (.tuple ((if p.isAbsolute then [p.root] else []) ++ p.parts))
  | .path p, "root" => .ok (.text p.root)
  | .path p, "anchor" => .ok (.text p.root)
  | .path _, "drive" => .ok (.text "")
  | a, name => .error (.noMember a.kind name)

def item (a : Argument) (index : String) : Result Argument :=
  let position? := if !index.isEmpty && index.toList.all Char.isDigit then
    some (Json.natOfDigits index.toList) else none
  match a, position? with
  | .path _, _ => .error (.notIndexable a.kind)
  | _, none => .error (.notPosition a.kind)
  | .text s, some i =>
    match s.toList[i]? with
    | some c => .ok (.text (String.singleton c))
    | none => .error (.outOfRange "str")
  | .tuple items, some i =>
    match items[i]? with
    | some s => .ok (.text s)
    | none => .error (.outOfRange "tuple")
  | .list items, some i =>
    match items[i]? with
    | some s => .ok (.text s)
    | none => .error (.outOfRange "list")
  | .ancestors p, some i =>
    if i < p.parts.length then .ok (.path { p with parts := p.parts.take (p.parts.length - 1 - i) })
    else .error (.noAncestor i)

end Argument

inductive Alignment where
  | left
  | right
  | center
deriving DecidableEq, Repr

structure Layout where
  fill : Char := ' '
  align : Alignment := .left
  width : Nat := 0
  precision : Option Nat := none
deriving Repr

def Layout.apply (l : Layout) (s : String) : String :=
  let cs := match l.precision with
    | some n => s.toList.take n
    | none => s.toList
  let pad := l.width - cs.length
  let before := match l.align with
    | .left => 0
    | .right => pad
    | .center => pad / 2
  String.ofList (List.replicate before l.fill ++ cs ++ List.replicate (pad - before) l.fill)

def isAlignment (c : Char) : Bool := c = '<' || c = '>' || c = '=' || c = '^'

def alignment (c : Char) : Result Alignment :=
  if c = '<' then .ok .left
  else if c = '>' then .ok .right
  else if c = '^' then .ok .center
  else .error (.malformed "'=' alignment not allowed in string format specifier")

/-- Refuses what only numbers can have: a sign, a form of zero, another notation. -/
def refuseNumeric (cs : List Char) : Result (List Char) :=
  match cs with
  | '+' :: _ | '-' :: _ => .error (.malformed "Sign not allowed in string format specifier")
  | ' ' :: _ => .error (.malformed "Space not allowed in string format specifier")
  | 'z' :: _ =>
    .error (.malformed "Negative zero coercion (z) not allowed in string format specifier")
  | '#' :: _ => .error (.malformed "Alternate form (#) not allowed in string format specifier")
  | cs => .ok cs

/-- The part of a layout after fill and alignment. -/
def readExtent (fill : Option Char) (align : Alignment) (spec : String) (cs : List Char) :
    Result Layout := do
  let cs ← refuseNumeric cs
  let (fill, cs) := match fill, cs with
    | some f, '0' :: rest => (f, rest)
    | some f, cs => (f, cs)
    | none, '0' :: rest => ('0', rest)
    | none, cs => (' ', cs)
  let width := Json.natOfDigits (cs.takeWhile Char.isDigit)
  let cs := cs.dropWhile Char.isDigit
  match cs with
  | ',' :: _ => throw (.malformed "Cannot specify ',' with 's'.")
  | '_' :: _ => throw (.malformed "Cannot specify '_' with 's'.")
  | _ => pure ()
  let (precision, cs) ← match cs with
    | '.' :: rest =>
      let digits := rest.takeWhile Char.isDigit
      if digits.isEmpty then throw (.malformed "Format specifier missing precision")
      else pure (some (Json.natOfDigits digits), rest.dropWhile Char.isDigit)
    | cs => pure (none, cs)
  match cs with
  | [] | ['s'] => return { fill, align, width, precision }
  | [c] => throw (.malformed s!"Unknown format code '{c}' for object of type 'str'")
  | _ => throw (.malformed s!"Invalid format specifier '{spec}' for object of type 'str'")

def readLayout (spec : String) : Result Layout :=
  match spec.toList with
  | fill :: a :: rest =>
    if isAlignment a then do readExtent (some fill) (← alignment a) spec rest
    else if isAlignment fill then do readExtent none (← alignment fill) spec (a :: rest)
    else readExtent none .left spec (fill :: a :: rest)
  | [a] =>
    if isAlignment a then do readExtent none (← alignment a) spec []
    else readExtent none .left spec [a]
  | [] => .ok {}

/-- The text of an argument in a layout; only a text takes one. -/
def layOut (a : Argument) (spec : String) : Result String :=
  if spec.isEmpty then .ok a.display
  else
    match a with
    | .text s => do return (← readLayout spec).apply s
    | a => .error (.noLayout a.kind)

/-- Selects members and items, as written after an argument's name. -/
def select (a : Argument) : Nat → List Char → Result Argument
  | 0, _ => .ok a
  | _ + 1, [] => .ok a
  | fuel + 1, '.' :: cs =>
    let name := cs.takeWhile fun c => c ≠ '.' && c ≠ '['
    if name.isEmpty then .error (.malformed "Empty attribute in format string")
    else do select (← a.member (String.ofList name)) fuel (cs.drop name.length)
  | fuel + 1, '[' :: cs =>
    let index := cs.takeWhile (· ≠ ']')
    match cs.drop index.length with
    | [] => .error (.malformed "Missing ']' in format string")
    | _ :: rest =>
      if index.isEmpty then .error (.malformed "Empty attribute in format string")
      else do select (← a.item (String.ofList index)) fuel rest
  | _ + 1, _ => .error (.malformed "Only '.' or '[' may follow ']' in format field specifier")

def argument (arguments : List (String × Argument)) (field : List Char) : Result Argument :=
  let name := field.takeWhile fun c => c ≠ '.' && c ≠ '['
  if name.all Char.isDigit then .error (.unknownIndex (Json.natOfDigits name))
  else
    match arguments.lookup (String.ofList name) with
    | none => .error (.unknownKey (String.ofList name))
    | some a => select a field.length (field.drop name.length)

def convert (a : Argument) (conversion : Option Char) : Result Argument :=
  match conversion with
  | none => .ok a
  | some 's' => .ok (.text a.display)
  | some 'r' => .ok (.text a.inspect)
  | some 'a' => .ok (.text (String.ofList (a.inspect.toList.flatMap fun c =>
      if c.toNat < 0x80 then [c]
      else if c.toNat < 0x100 then '\\' :: 'x' :: hexDigits 2 c.toNat
      else if c.toNat < 0x10000 then '\\' :: 'u' :: hexDigits 4 c.toNat
      else '\\' :: 'U' :: hexDigits 8 c.toNat)))
  | some c =>
    .error (.malformed (if 32 < c.toNat && c.toNat < 127 then s!"Unknown conversion specifier {c}"
      else "Unknown conversion specifier \\x" ++ String.ofList (Nat.toDigits 16 c.toNat)))

/-- The name part of a field and the character that ends it; what is in brackets ends nothing. -/
def readName : List Char → Result (List Char × Option Char × List Char)
  | [] => .ok ([], none, [])
  | '\x7b' :: _ => .error (.malformed "unexpected '\x7b' in field name")
  | '[' :: cs =>
    let inner := cs.takeWhile (· ≠ ']')
    match _h : readName (cs.drop inner.length) with
    | .ok (name, stop, rest) => .ok ('[' :: inner ++ name, stop, rest)
    | .error e => .error e
  | c :: cs =>
    if c = '\x7d' || c = ':' || c = '!' then .ok ([], some c, cs)
    else
      match readName cs with
      | .ok (name, stop, rest) => .ok (c :: name, stop, rest)
      | .error e => .error e
termination_by cs => cs.length
decreasing_by
  · simp only [List.length_drop, List.length_cons]; omega
  · simp

/-- A layout up to the brace that closes its field; braces inside it nest. -/
def readSpec : Nat → List Char → Option (List Char × List Char)
  | _, [] => none
  | depth, c :: cs =>
    if c = '\x7d' then
      match depth with
      | 0 => some ([], cs)
      | d + 1 => (readSpec d cs).map fun (spec, rest) => (c :: spec, rest)
    else
      (readSpec (if c = '\x7b' then depth + 1 else depth) cs).map fun (spec, rest) =>
        (c :: spec, rest)

structure Placeholder where
  name : List Char
  conversion : Option Char := none
  spec : List Char := []

def readPlainSpec (name : List Char) (conversion : Option Char) (cs : List Char) :
    Result (Placeholder × List Char) :=
  match readSpec 0 cs with
  | some (spec, rest) => .ok ({ name, conversion, spec }, rest)
  | none => .error (.malformed "unmatched '\x7b' in format spec")

def readPlaceholder (cs : List Char) : Result (Placeholder × List Char) := do
  match ← readName cs with
  | (name, some '\x7d', rest) => return ({ name }, rest)
  | (name, some ':', rest) => readPlainSpec name none rest
  | (name, some _, rest) =>
    match rest with
    | [] => throw (.malformed "end of string while looking for conversion specifier")
    | conversion :: '\x7d' :: rest => return ({ name, conversion }, rest)
    | conversion :: ':' :: rest => readPlainSpec name conversion rest
    | [_] => throw (.malformed "unmatched '\x7b' in format spec")
    | _ => throw (.malformed "expected ':' after conversion specifier")
  | (_, none, _) => throw (.malformed "expected '\x7d' before end of string")

/-- Fills in the fields of a template. Layouts can hold fields too, `nesting` levels deep. -/
def fill (arguments : List (String × Argument)) : Nat → Nat → List Char → Result (List Char)
  | _, 0, _ => .ok []
  | _, _ + 1, [] => .ok []
  | nesting, fuel + 1, c :: cs =>
    if c = '\x7b' then
      match cs with
      | [] => .error (.malformed "Single '\x7b' encountered in format string")
      | '\x7b' :: rest => do return '\x7b' :: (← fill arguments nesting fuel rest)
      | _ => do
        let (field, rest) ← readPlaceholder cs
        let a ← argument arguments field.name
        let a ← convert a field.conversion
        let spec ←
          if field.spec.contains '\x7b' then
            match nesting with
            | 0 => throw (.malformed "Max string recursion exceeded")
            | n + 1 => fill arguments n fuel field.spec
          else pure field.spec
        let shown ← layOut a (String.ofList spec)
        return shown.toList ++ (← fill arguments nesting fuel rest)
    else if c = '\x7d' then
      match cs with
      | '\x7d' :: rest => do return '\x7d' :: (← fill arguments nesting fuel rest)
      | _ => .error (.malformed "Single '\x7d' encountered in format string")
    else do return c :: (← fill arguments nesting fuel cs)

end Template

def fillTemplate (arguments : List (String × Template.Argument)) (template : String) :
    Except TemplateError String :=
  String.ofList <$> Template.fill arguments 1 (template.length + 1) template.toList

end ContractInference
