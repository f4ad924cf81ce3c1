import ContractInference.Language

/-!
# Parsed files

A source file with its language and its syntax tree. A file is refused if too large a share of
its tree's nodes mark errors.
-/

namespace ContractInference

/-- A way to give a text its syntax tree. -/
abbrev FrontEnd := Language → String → Node

def FrontEnd.standard : FrontEnd := fun language text => Grammar.parse language.dialect text

structure SourceTree where
  language : Language
  path : String
  root : Node

namespace SourceTree

def census (t : SourceTree) : Census := t.root.census

def errorRatio (c : Census) : Binary64 :=
  if c.total = 0 then .zero else .ofRatio false c.errors c.total

def accepts (maxErrorRatio : Binary64) (c : Census) : Bool :=
  c.errors = 0 || !(maxErrorRatio.lt (errorRatio c))

def parse (frontEnd : FrontEnd) (maxErrorRatio : Binary64) (path : Path) (text : String) :
    Except ParseFault SourceTree := do
  let language ← Language.ofPath path
  let tree := { language, path := path.text, root := frontEnd language text : SourceTree }
  if accepts maxErrorRatio tree.census then return tree
  else throw (.syntaxErrors path.text tree.census.errors tree.census.total)

end SourceTree

end ContractInference
