import ContractInference.Proofs.CallViews

/-!
# Schemas and fields of one chain

A chain of a schema constructor can be read as a schema of its own and as the type of a field. The
two readings agree as long as no later method makes an array of the type: such a method puts
brackets after the label of a field, and a schema does not show it.
-/

namespace ContractInference

namespace Builder

open ContractInference.Tree

/-- The fields of a schema by the constructor and its call. -/
def schemaFields (b : BuilderSettings) (n : Node) (kind : String) (ctor : Node) :
    Except Failure (List Field) :=
  if kind == "object" then objectFields b n
  else if kind == "enum" then pure [{ name := "value", label := enumLabel ctor }]
  else do
    let item ← itemLabel b ctor
    pure [{ name := "items", label := item ++ "[]" }]

/-- A chain that starts with a schema constructor, and the call of the constructor. -/
structure IsSchemaChain (b : BuilderSettings) (n : Node) (kind : String) (ctor : Node) : Prop where
  isBuilderCall : isBuilderCall b n = true
  constructor : n.chain.constructor? = some kind
  call : constructorCall? b n = some ctor
  mem : kind ∈ b.schemaConstructors

def schemaOf (b : BuilderSettings) (n : Node) (name : Option String) (fields : List Field) :
    Schema :=
  { source := .builder, fields, name, isRequired := !n.chain.hasMethod b.optionalMarkers }

section

variable {b : BuilderSettings} {n ctor : Node} {kind : String} {name : Option String} {s : Schema}

theorem IsSchemaChain.schema?_eq (h : IsSchemaChain b n kind ctor) (name : Option String) :
    schema? b n name =
      (fun fields => some (schemaOf b n name fields)) <$> schemaFields b n kind ctor := by
  rw [schema?, if_pos h.isBuilderCall, h.constructor, h.call]
  dsimp only
  rw [if_pos (List.contains_iff_mem.2 h.mem), schemaFields]
  split
  · cases objectFields b n <;> rfl
  · split
    · rfl
    · cases itemLabel b ctor <;> rfl

theorem exists_isSchemaChain (h : schema? b n name = .ok (some s)) :
    ∃ kind ctor, IsSchemaChain b n kind ctor := by
  unfold schema? at h
  split at h
  · rename_i hcall
    split at h
    · rename_i kind ctor hkind hctor
      split at h
      · rename_i hmem
        exact ⟨kind, ctor, hcall, hkind, hctor, List.contains_iff_mem.1 hmem⟩
      · cases h
    · cases h
  · cases h

theorem schema?_eq_some_iff :
    schema? b n name = .ok (some s) ↔
      ∃ kind ctor fields, IsSchemaChain b n kind ctor ∧ schemaFields b n kind ctor = .ok fields ∧
        s = schemaOf b n name fields := by
  constructor
  · intro h
    obtain ⟨kind, ctor, hchain⟩ := exists_isSchemaChain h
    rw [hchain.schema?_eq] at h
    cases hfields : schemaFields b n kind ctor with
    | error failure =>
      rw [hfields] at h
      cases h
    | ok fields =>
      rw [hfields] at h
      cases h
      exact ⟨kind, ctor, fields, hchain, hfields, rfl⟩
  · rintro ⟨kind, ctor, fields, hchain, hfields, rfl⟩
    rw [hchain.schema?_eq, hfields]
    rfl

end

/-- What the fields of a schema say about the shape of its chain, before any brackets. -/
inductive Shows : String → List Field → Builder.Shape → Prop
  | object (fields : List Field) :
    Shows "object" fields
      { label := "object", nested := if fields.isEmpty then none else some fields }
  | enum (label : Text) : Shows "enum" [{ name := "value", label }] { label }
  | array (label : Text) : Shows "array" [{ name := "items", label }] { label }

section

variable {b : BuilderSettings} {n ctor : Node} {kind : String} {fields : List Field}

theorem IsSchemaChain.isCall (h : IsSchemaChain b n kind ctor) : n.isCall = true :=
  (Bool.and_eq_true_iff.1 h.isBuilderCall).1

theorem IsSchemaChain.isRootedAt (h : IsSchemaChain b n kind ctor) :
    n.chain.isRootedAt b.rootName = true :=
  (Bool.and_eq_true_iff.1 h.isBuilderCall).2

theorem IsSchemaChain.methods_eq (h : IsSchemaChain b n kind ctor) :
    n.chain.methods = kind :: n.chain.methods.tail := by
  have hhead := h.constructor
  unfold Chain.constructor? at hhead
  split at hhead
  · exact (List.cons_head?_tail hhead).symm
  · cases hhead

theorem IsSchemaChain.shape_eq (h : IsSchemaChain b n kind ctor)
    (hkind : kind ∈ ["object", "enum", "array"]) :
    shape b n = shapeBy b n n.chain.methods.tail kind (some ctor) := by
  have hplain : ∀ k ∈ ["object", "enum", "array"], k ∉ namespaceNames := by decide
  rw [Builder.shape_eq h.isRootedAt, h.methods_eq, kindOf_cons (hplain kind hkind), h.call]
  rfl

/-- Chains whose schemas have the same fields have the shape that the fields show, with brackets for
the methods that follow. -/
theorem exists_shows (hkind : kind ∈ ["object", "enum", "array"])
    (hfields : schemaFields b n kind ctor = .ok fields) :
    ∃ base, Shows kind fields base ∧
      ∀ m, IsSchemaChain b m kind ctor → schemaFields b m kind ctor = .ok fields →
        shape b m = .ok (base.wrap m.chain.methods.tail) := by
  have hcases : kind = "object" ∨ kind = "enum" ∨ kind = "array" := by simpa using hkind
  rcases hcases with rfl | rfl | rfl
  · refine ⟨_, .object fields, fun m hm hfields' => ?_⟩
    have hobject : objectFields b m = .ok fields := hfields'
    rw [hm.shape_eq hkind, shapeBy, hobject]
    rfl
  · cases hfields
    refine ⟨_, .enum (enumLabel ctor), fun m hm _ => ?_⟩
    rw [hm.shape_eq hkind]
    rfl
  · have hitems : (itemLabel b ctor >>= fun item =>
        pure [{ name := "items", label := item ++ "[]" }]) = Except.ok fields := hfields
    cases hitem : itemLabel b ctor with
    | error failure =>
      rw [hitem] at hitems
      cases hitems
    | ok item =>
      rw [hitem] at hitems
      cases hitems
      refine ⟨_, .array (item ++ "[]"), fun m hm _ => ?_⟩
      rw [hm.shape_eq hkind, shapeBy, hitem]
      rfl

end

/-- One pair of brackets for each method that makes an array. -/
def brackets (suffix : List String) : Text :=
  Text.concat ((suffix.filter (· == "array")).map fun _ => "[]")

theorem filter_array_eq_nil {suffix : List String} :
    suffix.filter (· == "array") = [] ↔ "array" ∉ suffix := by
  rw [List.filter_eq_nil_iff]
  exact ⟨fun h hmem => h _ hmem (beq_iff_eq.2 rfl), fun h m hm heq => h (beq_iff_eq.1 heq ▸ hm)⟩

theorem brackets_of_notMem {suffix : List String} (h : "array" ∉ suffix) :
    brackets suffix = .empty := by
  rw [brackets, filter_array_eq_nil.2 h]
  rfl

theorem brackets_append_array (suffix : List String) :
    brackets (suffix ++ ["array"]) = brackets suffix ++ "[]" := by
  rw [brackets, List.filter_append, List.map_append, Text.concat_append]
  rfl

theorem Shape.wrap_eq (s : Builder.Shape) (suffix : List String) :
    s.wrap suffix =
      if "array" ∈ suffix then { label := wrapItem s.label ++ brackets suffix } else s := by
  unfold Shape.wrap
  split
  · rename_i hnone
    rw [if_neg (filter_array_eq_nil.1 hnone)]
  · rename_i hsome
    rw [if_pos (not_not.1 (mt filter_array_eq_nil.2 hsome))]
    rfl

theorem field?_of_shape {b : BuilderSettings} {n : Node} {s : Builder.Shape}
    (hcall : n.isCall = true) (h : shape b n = .ok s) (name : Text) :
    field? b name n = (fun v => some (fieldOf b name n v s)) <$> validations b n := by
  rw [field?_of_isCall hcall, readField, h]
  cases validations b n <;> rfl

/-- A schema and the field of the same chain agree, unless a later method makes an array of it. The
field is there whenever the validations of the chain can be written. -/
theorem field?_of_schema? {b : BuilderSettings} {n : Node} {name : Option String} {s : Schema}
    {kind : String} (h : schema? b n name = .ok (some s))
    (hconstructor : n.chain.constructor? = some kind) (hkind : kind ∈ ["object", "enum", "array"])
    (hsuffix : "array" ∉ n.chain.methods.tail) (fieldName : Text) :
    ∃ f : Field,
      field? b fieldName n =
        (fun v => some { f with validations := v.entries, default? := v.default? }) <$>
          validations b n ∧
      f.name = fieldName ∧ s.isRequired = !f.isOptional ∧
      (kind = "object" → f.label = "object" ∧
        f.nested = if s.fields.isEmpty then none else some s.fields) ∧
      (kind = "enum" → s.fields = [{ name := "value", label := f.label }]) ∧
      (kind = "array" → s.fields = [{ name := "items", label := f.label }]) := by
  obtain ⟨kind', ctor, fields, hchain, hfields, rfl⟩ := schema?_eq_some_iff.1 h
  obtain rfl : kind' = kind := Option.some.inj (hchain.constructor.symm.trans hconstructor)
  obtain ⟨base, hshows, hshape⟩ := exists_shows hkind hfields
  have hbase : shape b n = .ok base := by
    rw [hshape n hchain hfields, Shape.wrap_eq, if_neg hsuffix]
  refine ⟨fieldOf b fieldName n {} base, field?_of_shape hchain.isCall hbase fieldName, rfl, rfl,
    ?_⟩
  cases hshows with
  | object fields => exact ⟨fun _ => ⟨rfl, rfl⟩, by simp, by simp⟩
  | enum label => exact ⟨by simp, fun _ => rfl, by simp⟩
  | array label => exact ⟨by simp, by simp, fun _ => rfl⟩

/-- An object that is extended, restricted and optional. -/
def account : Node :=
  firstCall ("z.object(\x7b id: z.string() \x7d).extend(\x7b tags: z.string().array() \x7d)" ++
    ".max(3).optional()")

theorem field?_of_schema?_account :
    ∃ s f, schema? {} account none = .ok (some s) ∧ account.chain.constructor? = some "object" ∧
      "array" ∉ account.chain.methods.tail ∧ field? {} "account" account = .ok (some f) ∧
      s.fields.map (·.name.toString) = ["id", "tags"] ∧ s.isRequired = !f.isOptional ∧
      f.isOptional = true ∧ f.validations.map Text.toString = ["max: 3"] ∧ f.label = "object" ∧
      f.nested = some s.fields := by
  obtain ⟨hs, hconstructor, hsuffix, hv⟩ :
      (schema? {} account none).toOption.bind (·.map fun s =>
        (s.fields.map (·.name.toString), s.isRequired)) = some (["id", "tags"], false) ∧
      account.chain.constructor? = some "object" ∧ "array" ∉ account.chain.methods.tail ∧
      (validations {} account).toOption.map (·.entries.map Text.toString) = some ["max: 3"] := by
    decide +kernel
  obtain ⟨s, hs, hseen⟩ := exists_of_found hs
  obtain ⟨hnames, hrequired⟩ := Prod.mk.inj hseen
  obtain ⟨f, hf, -, hoptional, hobject, -, -⟩ :=
    field?_of_schema? hs hconstructor (by decide) hsuffix "account"
  obtain ⟨hlabel, hnested⟩ := hobject rfl
  have hfields : s.fields.isEmpty = false := by
    cases hfields : s.fields with
    | nil => simp [hfields] at hnames
    | cons f fs => rfl
  cases hvalidations : validations {} account with
  | error failure =>
    rw [hvalidations] at hv
    cases hv
  | ok v =>
    rw [hvalidations] at hv hf
    refine ⟨s, _, hs, hconstructor, hsuffix, hf, hnames, hoptional, ?_, Option.some.inj hv,
      hlabel, ?_⟩
    · simpa [hrequired] using hoptional
    · rw [hnested, hfields]
      rfl

end Builder

namespace Tree

/-- The first node calls a method of the second one. -/
structure IsCallOf (m n : Node) (method : String) : Prop where
  isCall : m.isCall = true
  name : m.calledName? = some method
  target : m.callTarget? = some n

namespace IsCallOf

variable {m n : Node} {method : String}

theorem innerCall? (h : m.IsCallOf n method) (hn : n.isCall = true) : m.innerCall? = some n := by
  rw [Tree.innerCall?, h.target]
  exact if_pos hn

theorem calls (h : m.IsCallOf n method) (hn : n.isCall = true) : m.calls = m :: n.calls :=
  calls_of_innerCall? h.isCall (h.innerCall? hn)

theorem chain (h : m.IsCallOf n method) (hn : n.isCall = true) :
    m.chain = ⟨n.chain.root, n.chain.methods ++ [method]⟩ := by
  rw [chain_of_innerCall? h.isCall (h.innerCall? hn), h.name]
  rfl

end IsCallOf

end Tree

namespace Builder

open ContractInference.Tree

theorem hasMethod_append_singleton (root : Option String) (methods names : List String)
    (method : String) :
    Chain.hasMethod ⟨root, methods ++ [method]⟩ names =
      (Chain.hasMethod ⟨root, methods⟩ names || names.contains method) := by
  rw [Bool.eq_iff_iff]
  simp only [Chain.hasMethod, List.any_eq_true, List.contains_iff_mem, List.mem_append,
    List.mem_singleton, Bool.or_eq_true]
  constructor
  · rintro ⟨name, hname, hmem | rfl⟩
    · exact .inl ⟨name, hname, hmem⟩
    · exact .inr hname
  · rintro (⟨name, hname, hmem⟩ | hname)
    · exact ⟨name, hname, .inl hmem⟩
    · exact ⟨method, hname, .inr rfl⟩

section

variable {b : BuilderSettings} {m n ctor : Node} {method kind : String}

theorem constructorCall?_of_isCallOf (h : m.IsCallOf n method) (hn : n.isCall = true) :
    constructorCall? b m = constructorCall? b n := by
  rw [constructorCall?_eq, constructorCall?_eq, h.calls hn,
    List.getLast?_cons_of_ne_nil (calls_ne_nil hn)]

theorem properties_of_isCallOf (h : m.IsCallOf n method) (hn : n.isCall = true)
    (hmethod : method ≠ "extend") : properties b m = properties b n := by
  have hextend : m.calls.reverse.filter (·.calledName? == some "extend") =
      n.calls.reverse.filter (·.calledName? == some "extend") := by
    rw [h.calls hn, List.reverse_cons, List.filter_append,
      List.filter_cons_of_neg (by rw [h.name]; simpa using hmethod)]
    simp
  rw [properties, properties, constructorCall?_of_isCallOf h hn, hextend]

theorem schemaFields_of_isCallOf (h : m.IsCallOf n method) (hn : n.isCall = true)
    (hmethod : method ≠ "extend") : schemaFields b m kind ctor = schemaFields b n kind ctor := by
  have hobject : objectFields b m = objectFields b n := by
    rw [objectFields_eq, objectFields_eq, properties_of_isCallOf h hn hmethod]
  rw [schemaFields, schemaFields, hobject]

theorem IsSchemaChain.of_isCallOf (hchain : IsSchemaChain b n kind ctor)
    (h : m.IsCallOf n method) : IsSchemaChain b m kind ctor where
  isBuilderCall := by
    have hrooted := hchain.isRootedAt
    rw [Builder.isBuilderCall, h.isCall, h.chain hchain.isCall]
    simp_all [Chain.isRootedAt, Chain.parts]
  constructor := by
    have hconstructor := hchain.constructor
    rw [h.chain hchain.isCall, hchain.methods_eq]
    unfold Chain.constructor? at hconstructor ⊢
    cases hroot : n.chain.root with
    | none => simp [hroot] at hconstructor
    | some root => rfl
  call := by rw [constructorCall?_of_isCallOf h hchain.isCall, hchain.call]
  mem := hchain.mem

/-- A method that does not extend the object changes at most whether its schema is required. -/
theorem schema?_of_isCallOf {name : Option String} {s : Schema} (h : m.IsCallOf n method)
    (hmethod : method ≠ "extend") (hs : schema? b n name = .ok (some s)) :
    schema? b m name =
      .ok (some { s with isRequired := s.isRequired && !b.optionalMarkers.contains method }) := by
  obtain ⟨kind, ctor, fields, hchain, hfields, rfl⟩ := schema?_eq_some_iff.1 hs
  have hmarker : m.chain.hasMethod b.optionalMarkers =
      (n.chain.hasMethod b.optionalMarkers || b.optionalMarkers.contains method) := by
    rw [h.chain hchain.isCall, hasMethod_append_singleton]
  refine schema?_eq_some_iff.2 ⟨kind, ctor, fields, hchain.of_isCallOf h, ?_, ?_⟩
  · rw [schemaFields_of_isCallOf h hchain.isCall hmethod, hfields]
  · rw [schemaOf, schemaOf, hmarker, Bool.not_or]

end

theorem Shape.wrap_append_array (s : Builder.Shape) (suffix : List String) :
    s.wrap (suffix ++ ["array"]) =
      { label := (if "array" ∈ suffix then (s.wrap suffix).label
          else wrapItem (s.wrap suffix).label) ++ "[]" } := by
  rw [Shape.wrap_eq, if_pos (by simp), brackets_append_array, ← Text.append_assoc,
    Shape.wrap_eq s suffix]
  by_cases hmem : "array" ∈ suffix
  · rw [if_pos hmem, if_pos hmem]
  · rw [if_neg hmem, if_neg hmem, brackets_of_notMem hmem, Text.append_empty]

theorem length_le_wrapItem (label : Text) :
    label.points.length ≤ (wrapItem label).points.length := by
  unfold wrapItem
  split
  · simp only [Text.points_append, List.length_append]
    omega
  · exact Nat.le_refl _

theorem Shape.length_label_lt_wrap (s : Builder.Shape) (suffix : List String) :
    s.label.points.length < (s.wrap (suffix ++ ["array"])).label.points.length := by
  have hitem := length_le_wrapItem s.label
  have hpair : ("[]" : Text).points.length = 2 := by decide
  rw [Shape.wrap_eq, if_pos (by simp), brackets_append_array]
  simp only [Text.points_append, List.length_append, hpair]
  omega

/-- A method that makes an array of a schema's type shows in the label of a field, which gets one
more pair of brackets, and not in the schema, which keeps the fields that it had. -/
theorem schema?_keeps_fields_of_array {b : BuilderSettings}
    (hb : b.schemaConstructors = ({} : BuilderSettings).schemaConstructors) {m n : Node}
    (hm : m.IsCallOf n "array") {name : Option String} {s : Schema}
    (h : schema? b n name = .ok (some s)) :
    schema? b m name =
        .ok (some { s with isRequired := s.isRequired && !b.optionalMarkers.contains "array" }) ∧
      ∃ inner label, shape b n = .ok inner ∧
        label = (if "array" ∈ n.chain.methods.tail then inner.label
          else wrapItem inner.label) ++ "[]" ∧
        (∀ fieldName, field? b fieldName m =
          (fun v => some (fieldOf b fieldName m v { label })) <$> validations b m) ∧
        (s.fields = [{ name := "items", label }] → n.chain.constructor? = some "object") := by
  refine ⟨schema?_of_isCallOf hm (by decide) h, ?_⟩
  obtain ⟨kind, ctor, fields, hchain, hfields, rfl⟩ := schema?_eq_some_iff.1 h
  have hkind : kind ∈ ["object", "enum", "array"] := by
    have hmem := hchain.mem
    rwa [hb] at hmem
  have hfields' : schemaFields b m kind ctor = .ok fields := by
    rw [schemaFields_of_isCallOf hm hchain.isCall (by decide), hfields]
  have hmethods : m.chain.methods.tail = n.chain.methods.tail ++ ["array"] := by
    rw [hm.chain hchain.isCall, hchain.methods_eq]
    rfl
  obtain ⟨base, hshows, hshape⟩ := exists_shows hkind hfields
  have hwrapped := hshape m (hchain.of_isCallOf hm) hfields'
  rw [hmethods, Shape.wrap_append_array] at hwrapped
  refine ⟨_, _, hshape n hchain hfields, rfl, field?_of_shape hm.isCall hwrapped,
    fun hitems => ?_⟩
  cases hshows with
  | object fields => exact hchain.constructor
  | enum label =>
    have hname : ("value" : Text) = "items" := congrArg Field.name (List.cons.inj hitems).1
    exact absurd hname (by decide)
  | array label =>
    have hlabel : label = _ := congrArg Field.label (List.cons.inj hitems).1
    have hlt := Shape.length_label_lt_wrap { label } n.chain.methods.tail
    rw [Shape.wrap_append_array] at hlt
    exact absurd (congrArg (·.points.length) hlabel) (Nat.ne_of_lt hlt)

/-- An array of objects, written with a method after the object. -/
def accounts : Node := firstCall "z.object(\x7b id: z.string() \x7d).array()"

theorem schema?_keeps_fields_of_array_accounts :
    ∃ n s s' f, accounts.IsCallOf n "array" ∧ schema? {} n none = .ok (some s) ∧
      schema? {} accounts none = .ok (some s') ∧ s'.fields = s.fields ∧
      s.fields.map (·.name.toString) = ["id"] ∧ field? {} "accounts" accounts = .ok (some f) ∧
      f.label = "object[]" ∧ f.nested = none := by
  obtain ⟨hcall, hname, htarget, hv⟩ : accounts.isCall = true ∧
      accounts.calledName? = some "array" ∧
      (accounts.callTarget?.bind fun n => (schema? {} n none).toOption.bind (·.map fun s =>
        (s.fields.map (·.name.toString), n.chain.methods.tail,
          (shape {} n).toOption.map Shape.label))) =
        some (["id"], [], some (Text.ofString "object")) ∧
      (validations {} accounts).toOption.isSome = true := by
    decide +kernel
  obtain ⟨n, hn, hread⟩ := Option.bind_eq_some_iff.1 htarget
  obtain ⟨s, hs, hseen⟩ := exists_of_found hread
  simp only [Prod.mk.injEq] at hseen
  obtain ⟨hnames, htail, hinnerLabel⟩ := hseen
  have hof : accounts.IsCallOf n "array" := ⟨hcall, hname, hn⟩
  obtain ⟨hschema, inner, label, hinner, hlabel, hfield, -⟩ :=
    schema?_keeps_fields_of_array rfl hof hs
  have hobject : label = "object[]" := by
    rw [hinner] at hinnerLabel
    rw [hlabel, htail, if_neg (by simp), Option.some.inj hinnerLabel]
    decide
  cases hvalidations : validations {} accounts with
  | error failure =>
    rw [hvalidations] at hv
    cases hv
  | ok v =>
    have hf := hfield "accounts"
    rw [hvalidations] at hf
    exact ⟨n, s, _, _, hof, hs, hschema, rfl, hnames, hf, hobject, rfl⟩

/-- The schema of an array of objects has the fields of one object, and not one field for the items,
which is how the same chain is labelled as a field. -/
theorem schema?_of_array_of_objects :
    ∃ s f, schema? {} accounts none = .ok (some s) ∧
      field? {} "accounts" accounts = .ok (some f) ∧ f.label.toString = "object[]" ∧
      s.fields.map (·.name.toString) = ["id"] ∧
      s.fields ≠ [{ name := "items", label := f.label }] := by
  obtain ⟨hs, hf⟩ :
      (schema? {} accounts none).toOption.bind (·.map (·.fields.map (·.name.toString))) =
        some ["id"] ∧
      (field? {} "accounts" accounts).toOption.bind (·.map (·.label.toString)) =
        some "object[]" := by
    decide +kernel
  obtain ⟨s, hs, hnames⟩ := exists_of_found hs
  obtain ⟨f, hf, hlabel⟩ := exists_of_found hf
  refine ⟨s, f, hs, hf, hlabel, hnames, fun hitems => ?_⟩
  have hname : [Text.toString "items"] = ["id"] := by
    rw [← hnames, hitems]
    rfl
  exact absurd hname (by decide)

end Builder

end ContractInference
