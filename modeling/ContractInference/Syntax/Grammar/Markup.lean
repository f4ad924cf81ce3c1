import ContractInference.Syntax.Grammar.Names

/-!
# Markup elements

Elements with attributes, text and embedded expressions between their tags.
-/

namespace ContractInference.Grammar

def isMarkupWord (c : Char) : Bool := c.isAlphanum || c = '_' || c = '$' || c = '-'

def markupWord (kind : String) : Rule Draft := do
  skip
  let source := (← read).source
  let i ← position
  match wordEnd? source i with
  | none => failure
  | some j =>
    let k := max j (runEnd source isMarkupWord i)
    moveTo k
    return leaf kind true i k

def spacedName (kind : String) : Rule Draft :=
  (do
    let scope ← markupWord kind
    let colon ← token ":"
    let name ← markupWord kind
    return branch "jsx_namespace_name" [scope, colon, name]) <|> markupWord kind

def elementName : Rule Draft := do
  let base ← spacedName "identifier"
  grow (fun d => do
    let dot ← token "."
    let name ← markupWord "property_identifier"
    return branch "member_expression" [as "object" d, dot, as "property" name]) base

def embedded (rules : Rules) : Rule Draft := do
  let inner := rules .sequence <|> (do
    let dots ← token "..."
    return branch "spread_element" [dots, ← rules .expression])
  return branch "jsx_expression" (← enclosed "\x7b" (optionally inner) "\x7d")

/-- A reference such as `&amp;`. -/
def reference : Rule Draft := do
  let i ← position
  exactly "&"
  let source := (← read).source
  let start := i + 1
  let stop :=
    if source[start]? == some '#' then
      if source[start + 1]? == some 'x' || source[start + 1]? == some 'X' then
        runEnd source isHex (start + 2)
      else runEnd source Char.isDigit (start + 1)
    else runEnd source Char.isAlpha start
  require (start < stop && source[stop]? == some ';')
  moveTo (stop + 1)
  return leaf "html_character_reference" true i (stop + 1)

def markupText (stops : Char → Bool) (kind : String) : Rule Draft := do
  let source := (← read).source
  let i ← position
  let j := runEnd source (fun c => !stops c) i
  require (i < j)
  moveTo j
  return leaf kind true i j

def attributeString (quote : Char) : Rule Draft := do
  let first ← token (String.singleton quote)
  let pieces ← many (choose [
    markupText (fun c => c = quote || c = '&') "string_fragment", reference,
    (do
      let i ← position
      exactly "&"
      return leaf "string_fragment" true i (i + 1))])
  let i ← position
  exactly (String.singleton quote)
  return branch "string" (first :: pieces ++ [leaf (String.singleton quote) false i (i + 1)])

def elementAttribute (rules : Rules) : Rule Draft :=
  (do
    let name ← spacedName "property_identifier"
    let value ← optionalList do
      let mark ← token "="
      let value ← choose [attributeString '"', attributeString '\'', embedded rules, rules .element]
      return [mark, value]
    return branch "jsx_attribute" (name :: value)) <|> embedded rules

def markupChild (rules : Rules) : Rule Draft :=
  choose [
    markupText (fun c => "<>\x7b\x7d&".toList.contains c) "jsx_text",
    reference,
    embedded rules,
    rules .element]

def elementRule (generics : Rule (List Draft)) (rules : Rules) : Rule Draft := do
  let opening ← token "<"
  let name ← optionally (as "name" <$> elementName)
  let types ← generics
  let attributes ← many (as "attribute" <$> elementAttribute rules)
  (do
    require !name.isEmpty
    let last ← token "/>"
    return branch "jsx_self_closing_element" (opening :: name ++ types ++ attributes ++ [last])) <|>
  (do
    let last ← token ">"
    let start := branch "jsx_opening_element" (opening :: name ++ types ++ attributes ++ [last])
    let children ← many (markupChild rules)
    let closeMark ← token "</"
    let closeName ← optionally (as "name" <$> elementName)
    let closeLast ← token ">"
    let stop := branch "jsx_closing_element" (closeMark :: closeName ++ [closeLast])
    return branch "jsx_element" (as "open_tag" start :: children ++ [as "close_tag" stop]))

end ContractInference.Grammar
