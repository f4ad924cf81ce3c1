import ContractInference.Schema.Map
import ContractInference.Settings.Basic
import ContractInference.Text.Lowercase

/-!
# Roles of schemas

A route's schemas are bound to its query, response and request by keywords in their names. A
schema without a keyword can still be the request if it is validated in a file that reads what
its callers send.
-/

namespace ContractInference

inductive Role where
  | query
  | response
  | request
deriving DecidableEq, Repr

def Role.name : Role → String
  | .query => "query"
  | .response => "response"
  | .request => "request"

namespace Classifier

def occursIn (pattern text : String) : Bool :=
  Text.contains (Text.ofString text) (Text.ofString pattern)

def hasKeyword (keywords : List String) (lowered : String) : Bool :=
  keywords.any fun k => occursIn (lowercase k) lowered

def roleOf? (c : ClassifierSettings) (name : String) : Option Role :=
  let lowered := lowercase name
  if hasKeyword c.queryKeywords lowered then some .query
  else if hasKeyword c.responseKeywords lowered then some .response
  else if hasKeyword c.requestKeywords lowered then some .request
  else none

def readsInbound (c : ClassifierSettings) (text : String) : Bool :=
  c.inboundHints.any fun hint => occursIn hint text

abbrev Assignment := List (Role × String)

/-- The first name of each role, in the order of the names. -/
def byKeyword (c : ClassifierSettings) (names : List String) : Assignment :=
  names.foldl (fun a name =>
    match roleOf? c name with
    | some role => Table.putNew a role name
    | none => a) []

/-- The roles of the names. The request that no keyword tells is the first validated name without
a keyword. -/
def assign (c : ClassifierSettings) (names : List String) (text : String)
    (validated : List String) : Assignment :=
  let roles := byKeyword c names
  if !Table.hasKey roles .request && readsInbound c text then
    match names.find? fun n => (roleOf? c n).isNone && validated.contains n with
    | some name => roles ++ [(.request, name)]
    | none => roles
  else roles

def classify (c : ClassifierSettings) (schemas : Table String Schema) (text : String)
    (validated : List String) : ContractBinding :=
  let roles := assign c (Table.keys schemas) text validated
  let pick (role : Role) : Option Schema := (Table.get? roles role).bind (Table.get? schemas)
  { request := pick .request, response := pick .response, query := pick .query }

end Classifier

end ContractInference
