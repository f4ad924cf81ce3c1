import ContractInference.Classifier
import ContractInference.Proofs.BuilderRoundTrip
import ContractInference.Proofs.LocalNames

/-!
# Who plays which role

A role goes to the first name that tells it; the request that no name tells goes to the first
validated name without a keyword, in a file that reads what its callers send. The roles of a
schema map are therefore taken by its own schemas, each schema has one role at most, and names
that come later take no role from those before them.
-/

namespace ContractInference

theorem Text.infix_ofString_iff (pattern text : String) :
    (ofString pattern).points <:+: (ofString text).points ↔ pattern.toList <:+: text.toList := by
  refine ⟨?_, fun h => h.map _⟩
  rintro ⟨before, after, h⟩
  obtain ⟨cs, cs', htext, hcs, -⟩ := List.append_eq_map_iff.1 h
  obtain ⟨ds, ds', rfl, -, hds⟩ := List.append_eq_map_iff.1 hcs.symm
  have hpattern : ofString pattern = ofString (String.ofList ds') := by
    simp only [ofString, ofChars, String.toList_ofList]
    exact congrArg Text.mk hds.symm
  have hchars : pattern.toList = ds' := by
    rw [ofString_injective hpattern, String.toList_ofList]
  exact ⟨ds, cs', by rw [htext, hchars]⟩

def ContractBinding.get? (b : ContractBinding) : Role → Option Schema
  | .query => b.query
  | .response => b.response
  | .request => b.request

namespace Classifier

/-- One of the keywords is a part of the name, both in lower case. -/
def HasKeyword (keywords : List String) (name : String) : Prop :=
  ∃ k ∈ keywords, (lowercase k).toList <:+: (lowercase name).toList

def keywordsOf (c : ClassifierSettings) : Role → List String
  | .query => c.queryKeywords
  | .response => c.responseKeywords
  | .request => c.requestKeywords

/-- The roles that are preferred where a name has keywords of several. -/
def preferred : Role → List Role
  | .query => []
  | .response => [.query]
  | .request => [.query, .response]

theorem occursIn_iff (pattern text : String) :
    occursIn pattern text = true ↔ pattern.toList <:+: text.toList := by
  rw [occursIn, Text.contains_iff, Text.infix_ofString_iff]

theorem hasKeyword_iff (keywords : List String) (name : String) :
    hasKeyword keywords (lowercase name) = true ↔ HasKeyword keywords name := by
  simp only [hasKeyword, List.any_eq_true, occursIn_iff, HasKeyword]

theorem readsInbound_iff (c : ClassifierSettings) (text : String) :
    readsInbound c text = true ↔ ∃ hint ∈ c.inboundHints, hint.toList <:+: text.toList := by
  simp only [readsInbound, List.any_eq_true, occursIn_iff]

/-- A name tells the role that it has a keyword of, unless it has one of a preferred role. -/
theorem roleOf?_eq_some_iff (c : ClassifierSettings) (name : String) (role : Role) :
    roleOf? c name = some role ↔ HasKeyword (keywordsOf c role) name ∧
      ∀ rival ∈ preferred role, ¬ HasKeyword (keywordsOf c rival) name := by
  simp only [← hasKeyword_iff, roleOf?]
  cases role <;> simp [keywordsOf, preferred] <;> grind

theorem roleOf?_eq_none_iff (c : ClassifierSettings) (name : String) :
    roleOf? c name = none ↔ ∀ role, ¬ HasKeyword (keywordsOf c role) name := by
  have hroles : (∀ role, ¬ HasKeyword (keywordsOf c role) name) ↔
      ¬ HasKeyword c.queryKeywords name ∧ ¬ HasKeyword c.responseKeywords name ∧
        ¬ HasKeyword c.requestKeywords name := by
    constructor
    · intro h
      exact ⟨h .query, h .response, h .request⟩
    · rintro ⟨hquery, hresponse, hrequest⟩ role
      cases role <;> assumption
  rw [hroles]
  simp only [← hasKeyword_iff, roleOf?]
  grind

def IsFirst (p : String → Prop) (names : List String) (name : String) : Prop :=
  ∃ before after, names = before ++ name :: after ∧ p name ∧ ∀ n ∈ before, ¬ p n

theorem find?_eq_some_iff_isFirst {p : String → Prop} [DecidablePred p] {names : List String}
    {name : String} : names.find? (fun n => decide (p n)) = some name ↔ IsFirst p names name := by
  rw [List.find?_eq_some_iff_append]
  constructor
  · rintro ⟨hname, before, after, hnames, hbefore⟩
    exact ⟨before, after, hnames, by simpa using hname, by simpa using hbefore⟩
  · rintro ⟨before, after, hnames, hname, hbefore⟩
    exact ⟨by simpa using hname, before, after, hnames, by simpa using hbefore⟩

theorem get?_byKeyword (c : ClassifierSettings) (names : List String) (role : Role) :
    Table.get? (byKeyword c names) role = names.find? (fun n => roleOf? c n = some role) := by
  induction names using List.reverseRecOn with
  | nil => rfl
  | append_singleton names name ih =>
    rw [byKeyword, List.foldl_append, ← byKeyword, List.foldl_cons, List.foldl_nil,
      List.find?_append, ← ih]
    cases hrole : roleOf? c name with
    | none => simp [hrole]
    | some told =>
      rw [Table.get?_putNew]
      by_cases htold : told = role <;> simp [hrole, htold]

theorem nodup_keys_byKeyword (c : ClassifierSettings) (names : List String) :
    (Table.keys (byKeyword c names)).Nodup := by
  induction names using List.reverseRecOn with
  | nil => exact List.nodup_nil
  | append_singleton names name ih =>
    rw [byKeyword, List.foldl_append, ← byKeyword, List.foldl_cons, List.foldl_nil]
    cases roleOf? c name with
    | none => exact ih
    | some told =>
      dsimp only
      rw [Table.keys_putNew]
      split
      · exact ih
      · rename_i hkey
        have htold : told ∉ Table.keys (byKeyword c names) := by
          simpa [Table.hasKey, Table.keys] using hkey
        simpa using ih.concat htold

/-- The name that the request falls back to. -/
def fallback (c : ClassifierSettings) (names : List String) (text : String)
    (validated : List String) : Option String :=
  if readsInbound c text then names.find? fun n => roleOf? c n = none ∧ n ∈ validated else none

theorem assign_eq (c : ClassifierSettings) (names : List String) (text : String)
    (validated : List String) :
    assign c names text validated = byKeyword c names ++
      if Table.hasKey (byKeyword c names) .request then []
      else ((fallback c names text validated).map fun name => (Role.request, name)).toList := by
  have hfind : (names.find? fun n => (roleOf? c n).isNone && validated.contains n) =
      names.find? fun n => roleOf? c n = none ∧ n ∈ validated := by
    congr 1
    funext n
    cases roleOf? c n <;> simp
  simp only [assign, fallback, hfind]
  cases Table.hasKey (byKeyword c names) .request with
  | true => simp
  | false =>
    cases readsInbound c text with
    | false => simp
    | true => cases names.find? fun n => roleOf? c n = none ∧ n ∈ validated <;> simp

theorem get?_assign (c : ClassifierSettings) (names : List String) (text : String)
    (validated : List String) (role : Role) :
    Table.get? (assign c names text validated) role =
      (names.find? (fun n => roleOf? c n = some role)).or
        (if role = .request then fallback c names text validated else none) := by
  rw [assign_eq, Table.get?_append, get?_byKeyword, Table.hasKey_eq_isSome, get?_byKeyword]
  by_cases hrole : role = .request
  · subst hrole
    cases names.find? (fun n => roleOf? c n = some .request) with
    | some name => simp
    | none => cases fallback c names text validated <;> simp [Table.get?]
  · rw [if_neg hrole]
    cases fallback c names text validated <;> split <;> simp [Table.get?, Ne.symm hrole]

theorem nodup_keys_assign (c : ClassifierSettings) (names : List String) (text : String)
    (validated : List String) : (Table.keys (assign c names text validated)).Nodup := by
  have hkeys := nodup_keys_byKeyword c names
  rw [assign_eq]
  by_cases hrequest : Table.hasKey (byKeyword c names) .request = true
  · rwa [if_pos hrequest, List.append_nil]
  · have hnew : Role.request ∉ Table.keys (byKeyword c names) := by
      simpa [Table.hasKey, Table.keys] using hrequest
    rw [if_neg hrequest]
    cases fallback c names text validated with
    | none => simpa using hkeys
    | some name => simpa [Table.keys] using hkeys.concat hnew

theorem fallback_eq_some_iff (c : ClassifierSettings) (names : List String) (text : String)
    (validated : List String) (name : String) :
    fallback c names text validated = some name ↔
      (∃ hint ∈ c.inboundHints, hint.toList <:+: text.toList) ∧
        IsFirst (fun n => roleOf? c n = none ∧ n ∈ validated) names name := by
  rw [← readsInbound_iff, ← find?_eq_some_iff_isFirst, fallback]
  cases readsInbound c text <;> simp

theorem get?_assign_request (c : ClassifierSettings) (names : List String) (text : String)
    (validated : List String) (name : String) :
    Table.get? (assign c names text validated) .request = some name ↔
      IsFirst (roleOf? c · = some .request) names name ∨
        (∀ n ∈ names, roleOf? c n ≠ some .request) ∧
          (∃ hint ∈ c.inboundHints, hint.toList <:+: text.toList) ∧
          IsFirst (fun n => roleOf? c n = none ∧ n ∈ validated) names name := by
  rw [get?_assign, if_pos rfl, Option.or_eq_some_iff, find?_eq_some_iff_isFirst,
    fallback_eq_some_iff, List.find?_eq_none]
  simp

theorem get?_assign_of_ne (c : ClassifierSettings) (names : List String) (text : String)
    (validated : List String) {role : Role} (hrole : role ≠ .request) (name : String) :
    Table.get? (assign c names text validated) role = some name ↔
      IsFirst (roleOf? c · = some role) names name := by
  rw [get?_assign, if_neg hrole, Option.or_none, find?_eq_some_iff_isFirst]

theorem roleOf?_of_assigned {c : ClassifierSettings} {names validated : List String} {text : String}
    {role : Role} {name : String}
    (h : Table.get? (assign c names text validated) role = some name) :
    roleOf? c name = some role ∨ role = .request ∧ roleOf? c name = none := by
  by_cases hrole : role = .request
  · subst hrole
    rcases (get?_assign_request c names text validated name).1 h with hfirst | ⟨-, -, hfirst⟩
    · obtain ⟨-, -, -, htold, -⟩ := hfirst
      exact .inl htold
    · obtain ⟨-, -, -, ⟨htold, -⟩, -⟩ := hfirst
      exact .inr ⟨rfl, htold⟩
  · obtain ⟨-, -, -, htold, -⟩ := (get?_assign_of_ne c names text validated hrole name).1 h
    exact .inl htold

theorem mem_of_assigned {c : ClassifierSettings} {names validated : List String} {text : String}
    {role : Role} {name : String}
    (h : Table.get? (assign c names text validated) role = some name) : name ∈ names := by
  rw [get?_assign, Option.or_eq_some_iff] at h
  rcases h with h | ⟨-, h⟩
  · exact List.mem_of_find?_eq_some h
  · split at h
    · obtain ⟨-, before, after, rfl, -⟩ := (fallback_eq_some_iff c names text validated name).1 h
      simp
    · cases h

theorem get?_assign_append {c : ClassifierSettings} {names : List String} {text : String}
    {validated : List String} {role : Role} {name : String}
    (h : Table.get? (assign c names text validated) role = some name)
    (htold : roleOf? c name = some role) (more : List String) :
    Table.get? (assign c (names ++ more) text validated) role = some name := by
  have hname := mem_of_assigned h
  have hfind : names.find? (fun n => roleOf? c n = some role) = some name := by
    rw [get?_assign, Option.or_eq_some_iff] at h
    rcases h with h | ⟨hnone, -⟩
    · exact h
    · exact absurd htold (by simpa using List.find?_eq_none.1 hnone name hname)
  rw [get?_assign, List.find?_append, hfind]
  rfl

theorem get?_classify (c : ClassifierSettings) (schemas : Table String Schema) (text : String)
    (validated : List String) (role : Role) :
    (classify c schemas text validated).get? role =
      (Table.get? (assign c (Table.keys schemas) text validated) role).bind
        (Table.get? schemas) := by
  cases role <;> rfl

theorem exists_get?_of_assigned {c : ClassifierSettings} {schemas : Table String Schema}
    {text : String} {validated : List String} {role : Role} {name : String}
    (h : Table.get? (assign c (Table.keys schemas) text validated) role = some name) :
    ∃ schema, Table.get? schemas name = some schema := by
  have hkey : Table.hasKey schemas name = true := by
    simpa [Table.hasKey, Table.keys] using mem_of_assigned h
  exact Option.isSome_iff_exists.1 (Table.hasKey_eq_isSome schemas name ▸ hkey)

/-- Query and response go to the first names that tell them. The request goes to the first name that
tells it or, if there is none in a file that reads what its callers send, to the first validated
name without a keyword. No name has two roles, a schema map gives each role the definition of its
name, and further names take no role from a name that tells it. -/
theorem assign_isFirst (c : ClassifierSettings) (names : List String) (text : String)
    (validated : List String) :
    (∀ name role, roleOf? c name = some role ↔ HasKeyword (keywordsOf c role) name ∧
      ∀ rival ∈ preferred role, ¬ HasKeyword (keywordsOf c rival) name) ∧
    (∀ name, roleOf? c name = none ↔ ∀ role, ¬ HasKeyword (keywordsOf c role) name) ∧
    (Table.keys (assign c names text validated)).Nodup ∧
    (∀ role ≠ .request, ∀ name, Table.get? (assign c names text validated) role = some name ↔
      IsFirst (roleOf? c · = some role) names name) ∧
    (∀ name, Table.get? (assign c names text validated) .request = some name ↔
      IsFirst (roleOf? c · = some .request) names name ∨
        (∀ n ∈ names, roleOf? c n ≠ some .request) ∧
          (∃ hint ∈ c.inboundHints, hint.toList <:+: text.toList) ∧
          IsFirst (fun n => roleOf? c n = none ∧ n ∈ validated) names name) ∧
    (∀ role role' name, Table.get? (assign c names text validated) role = some name →
      Table.get? (assign c names text validated) role' = some name → role = role') ∧
    (∀ (schemas : Table String Schema) (role : Role),
      (∀ name, Table.get? (assign c (Table.keys schemas) text validated) role = some name →
        ∃ schema, Table.get? schemas name = some schema ∧
          (classify c schemas text validated).get? role = some schema) ∧
      (Table.get? (assign c (Table.keys schemas) text validated) role = none →
        (classify c schemas text validated).get? role = none)) ∧
    (∀ role name, Table.get? (assign c names text validated) role = some name →
      (role = .request → roleOf? c name = some .request) →
        ∀ more, Table.get? (assign c (names ++ more) text validated) role = some name) := by
  refine ⟨roleOf?_eq_some_iff c, roleOf?_eq_none_iff c, nodup_keys_assign c names text validated,
    fun role hrole => get?_assign_of_ne c names text validated hrole,
    get?_assign_request c names text validated, ?_, ?_, ?_⟩
  · intro role role' name h h'
    rcases roleOf?_of_assigned h with ht | ⟨rfl, ht⟩ <;>
      rcases roleOf?_of_assigned h' with ht' | ⟨rfl, ht'⟩ <;> simp_all
  · refine fun schemas role => ⟨fun name h => ?_, fun h => ?_⟩
    · obtain ⟨schema, hschema⟩ := exists_get?_of_assigned h
      exact ⟨schema, hschema, by rw [get?_classify, h, Option.bind_some, hschema]⟩
    · rw [get?_classify, h, Option.bind_none]
  · intro role name h hrequest more
    rcases roleOf?_of_assigned h with htold | ⟨rfl, -⟩
    · exact get?_assign_append h htold more
    · exact get?_assign_append h (hrequest rfl) more

/-- A file with a query, a name that tells nothing and is validated, and a late request. -/
def routeNames : List String := ["ListQuery", "Payload", "SearchResponse"]

theorem assign_isFirst_route :
    roleOf? {} "SearchResponse" = some .query ∧
    assign {} routeNames "await req.json()" ["Payload"] =
      [(.query, "ListQuery"), (.request, "Payload")] ∧
    assign {} (routeNames ++ ["CreateUser"]) "await req.json()" ["Payload"] =
      [(.query, "ListQuery"), (.request, "CreateUser")] ∧
    IsFirst (roleOf? {} · = some .query) routeNames "ListQuery" ∧
    ∀ more, Table.get? (assign {} (routeNames ++ more) "await req.json()" ["Payload"]) .query =
      some "ListQuery" := by
  obtain ⟨hrole, hroles, hlater⟩ : roleOf? {} "SearchResponse" = some .query ∧
      assign {} routeNames "await req.json()" ["Payload"] =
        [(.query, "ListQuery"), (.request, "Payload")] ∧
      assign {} (routeNames ++ ["CreateUser"]) "await req.json()" ["Payload"] =
        [(.query, "ListQuery"), (.request, "CreateUser")] := by
    decide +kernel
  obtain ⟨-, -, -, hfirst, -, -, -, hkept⟩ :=
    assign_isFirst {} routeNames "await req.json()" ["Payload"]
  have hquery : Table.get? (assign {} routeNames "await req.json()" ["Payload"]) .query =
      some "ListQuery" := by
    rw [hroles]
    rfl
  refine ⟨hrole, hroles, hlater, (hfirst .query (by decide) "ListQuery").1 hquery, ?_⟩
  exact hkept .query "ListQuery" hquery (by decide)

end Classifier

end ContractInference
