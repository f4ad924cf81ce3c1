import ContractInference.Fault
import ContractInference.Path.Basic
import ContractInference.Syntax.Grammar.Program
import ContractInference.Text.Lowercase

/-!
# Languages

The languages of source files, told apart by the extension of a file's name.
-/

namespace ContractInference

inductive Language where
  | javascript
  | typescript
  | tsx
deriving DecidableEq, Repr

namespace Language

def all : List Language := [.javascript, .typescript, .tsx]

def name : Language → String
  | .javascript => "javascript"
  | .typescript => "typescript"
  | .tsx => "tsx"

def extensions : Language → List String
  | .javascript => ["cjs", "js", "jsx", "mjs"]
  | .typescript => ["cts", "mts", "ts"]
  | .tsx => ["tsx"]

def hasTypeDeclarations : Language → Bool
  | .javascript => false
  | .typescript => true
  | .tsx => true

def dialect : Language → Grammar.Dialect
  | .javascript => { typed := false, markup := true }
  | .typescript => { typed := true, markup := false }
  | .tsx => { typed := true, markup := true }

def grammar : Language → String × String
  | .javascript => ("tree_sitter_javascript", "language")
  | .typescript => ("tree_sitter_typescript", "language_typescript")
  | .tsx => ("tree_sitter_typescript", "language_tsx")

/-- The language of an extension, with or without dots before it. -/
def ofExtension? (extension : String) : Option Language :=
  let e := String.ofList ((lowercase extension).toList.dropWhile (· = '.'))
  all.find? (·.extensions.contains e)

def checkGrammar (language package grammar : String) : Except ParseFault Unit :=
  if all.any (·.grammar == (package, grammar)) then .ok ()
  else .error (.grammarUnavailable language)

def ofPath (p : Path) : Except ParseFault Language :=
  match ofExtension? p.suffix with
  | some l => .ok l
  | none => .error (.languageUnsupported p.text)

end Language

end ContractInference
