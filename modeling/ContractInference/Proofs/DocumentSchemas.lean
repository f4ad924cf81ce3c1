import ContractInference.Proofs.ObjectMerge
import ContractInference.Sdl.Schemas

/-!
# Schemas of documents

A document gives a schema for each name of an object, input or enumeration type that no schema
block takes for its operations, wherever the block stands. Names come in the order of their first
definitions, each with the schema of its last one. The label of a field depends on the named type
and on the number of lists around it, and only the outermost wrapper decides whether it is optional.
-/

namespace ContractInference

namespace Sdl

/-- What a reference to a type puts around another one. -/
inductive Wrapper where
  | list
  | nonNull
deriving DecidableEq, Repr

namespace TypeRef

def typeName : TypeRef → String
  | .named name => name
  | .list item => item.typeName
  | .nonNull inner => inner.typeName

def wrappers : TypeRef → List Wrapper
  | .named _ => []
  | .list item => .list :: item.wrappers
  | .nonNull inner => .nonNull :: inner.wrappers

/-- The label of the named type, with a pair of brackets for each list around it. -/
def bracketed (t : TypeRef) : String :=
  (scalarLabels.lookup t.typeName).getD t.typeName ++
    String.join (List.replicate (t.wrappers.count .list) "[]")

theorem label_eq_bracketed (t : TypeRef) : t.label = t.bracketed := by
  induction t with
  | named name => simp [label, bracketed, typeName, wrappers]
  | list item ih =>
    have hcount : (list item).wrappers.count .list = item.wrappers.count .list + 1 :=
      List.count_cons_self
    rw [label, ih, bracketed, bracketed, hcount, List.replicate_succ', String.join_append,
      ← String.append_assoc]
    simp [typeName]
  | nonNull inner ih =>
    have hcount : (nonNull inner).wrappers.count .list = inner.wrappers.count .list :=
      List.count_cons_of_ne (by decide)
    rw [label, ih, bracketed, bracketed, hcount, typeName]

theorem isOptional_iff (t : TypeRef) : t.isOptional = true ↔ t.wrappers.head? ≠ some .nonNull := by
  cases t <;> simp [isOptional, wrappers]

end TypeRef

/-- The field of a name and a type, with a note of its arguments if there are some. -/
structure IsFieldOf (name : String) (type : TypeRef) (arguments : Nat) (f : Field) : Prop where
  name : f.name = name
  label : f.label = type.bracketed
  isOptional : f.isOptional = true ↔ type.wrappers.head? ≠ some .nonNull
  validations : f.validations =
    if arguments = 0 then [] else [Text.ofString ("args: " ++ toString arguments)]
  plain : f.default? = none ∧ f.nested = none

theorem isFieldOf_fieldOf (d : FieldDefinition) :
    IsFieldOf d.name d.type d.arguments.length (fieldOf d) where
  name := rfl
  label := congrArg Text.ofString d.type.label_eq_bracketed
  isOptional := d.type.isOptional_iff
  validations := by
    cases h : d.arguments with
    | nil => simp [fieldOf, h]
    | cons a as =>
      simp only [fieldOf, h]
      rfl
  plain := ⟨rfl, rfl⟩

theorem isFieldOf_inputFieldOf (d : InputValue) : IsFieldOf d.name d.type 0 (inputFieldOf d) where
  name := rfl
  label := congrArg Text.ofString d.type.label_eq_bracketed
  isOptional := d.type.isOptional_iff
  validations := rfl
  plain := ⟨rfl, rfl⟩

namespace Definition

/-- The name of a type that describes data. -/
def typeName? : Definition → Option String
  | .object name _ => some name
  | .input name _ => some name
  | .enum name _ => some name
  | _ => none

/-- The schema of a definition: a field for each of its fields or values. -/
inductive Describes : Definition → String → Schema → Prop
  | object {name : String} {definitions : List FieldDefinition} {fields : List Field} :
    List.Forall₂ (fun d f => IsFieldOf d.name d.type d.arguments.length f) definitions fields →
    Describes (.object name definitions) name { source := .definition, fields, name }
  | input {name : String} {definitions : List InputValue} {fields : List Field} :
    List.Forall₂ (fun d f => IsFieldOf d.name d.type 0 f) definitions fields →
    Describes (.input name definitions) name { source := .definition, fields, name }
  | enum {name : String} {values : List String} :
    Describes (.enum name values) name
      { source := .definition, name
        fields := values.map fun (v : String) => { name := v, label := "enum" } }

def schema? (definition : Definition) : Option (String × Schema) :=
  definition.fields?.map fun e => (e.1, { source := .definition, fields := e.2, name := e.1 })

theorem map_fst_schema? (definition : Definition) :
    definition.schema?.map Prod.fst = definition.typeName? := by
  cases definition <;> rfl

theorem describes_of_schema? {definition : Definition} {name : String} {s : Schema}
    (h : definition.schema? = some (name, s)) : definition.Describes name s := by
  cases definition with
  | object name definitions =>
    cases h
    refine .object (List.forall₂_map_right_iff.2 (List.forall₂_same.2 fun d _ => ?_))
    exact isFieldOf_fieldOf d
  | input name definitions =>
    cases h
    refine .input (List.forall₂_map_right_iff.2 (List.forall₂_same.2 fun d _ => ?_))
    exact isFieldOf_inputFieldOf d
  | enum name values =>
    cases h
    exact .enum
  | schema operations => cases h
  | other => cases h

/-- The types that a schema block takes for its operations. -/
def operations : Definition → List String
  | .schema operations => operations
  | _ => []

def isBlock : Definition → Bool
  | .schema _ => true
  | _ => false

end Definition

/-- A type of operations: one of the usual ones, or one that some schema block names. -/
def IsRoot (d : Document) (name : String) : Prop :=
  name ∈ ["Query", "Mutation", "Subscription"] ∨ ∃ definition ∈ d, name ∈ definition.operations

instance (d : Document) (name : String) : Decidable (IsRoot d name) :=
  inferInstanceAs (Decidable (_ ∨ _))

theorem mem_rootTypes_iff {d : Document} {name : String} : name ∈ rootTypes d ↔ IsRoot d name := by
  rw [rootTypes, List.mem_append, List.mem_flatMap, IsRoot, defaultRoots]
  refine or_congr_right (exists_congr fun definition => and_congr_right fun _ => ?_)
  cases definition <;> rfl

theorem schemas_eq (d : Document) :
    schemas d = Table.ofList ((d.filterMap Definition.schema?).filter (¬ IsRoot d ·.1)) := by
  rw [List.filter_filterMap, schemas]
  refine congrArg Table.ofList (List.filterMap_congr fun definition _ => ?_)
  rw [Definition.schema?]
  cases definition.fields? with
  | none => rfl
  | some e =>
    have hroot : e.1 ∈ rootTypes d ↔ IsRoot d e.1 := mem_rootTypes_iff
    by_cases h : IsRoot d e.1
    · simp [h, hroot, Option.filter]
    · simp [h, hroot, Option.filter]

/-- The schema of the last definition of a name. -/
def IsLastSchema (d : Document) (name : String) (s : Schema) : Prop :=
  ∃ before definition after, d = before ++ definition :: after ∧ definition.Describes name s ∧
    ∀ later ∈ after, later.typeName? ≠ some name

theorem isLastSchema_of_get? {d : Document} {name : String} {s : Schema}
    (h : Table.get? (d.filterMap Definition.schema?).reverse name = some s) :
    IsLastSchema d name s := by
  rw [← List.filterMap_reverse, Table.get?, List.find?_filterMap] at h
  obtain ⟨e, he, rfl⟩ := Option.map_eq_some_iff.1 h
  obtain ⟨definition, hfind, hschema⟩ := Option.bind_eq_some_iff.1 he
  obtain ⟨hname, after, before, hd, hafter⟩ := List.find?_eq_some_iff_append.1 hfind
  obtain rfl : e.1 = name := by simpa [hschema] using hname
  refine ⟨before.reverse, definition, after.reverse, ?_,
    Definition.describes_of_schema? hschema, fun later hlater htype => ?_⟩
  · simpa using congrArg List.reverse hd
  · have hne := hafter later (List.mem_reverse.1 hlater)
    rw [← Definition.map_fst_schema?] at htype
    obtain ⟨e', he', heq⟩ := Option.map_eq_some_iff.1 htype
    simp [he', heq] at hne

/-- The names of the types that describe data and are not for operations, in the order of their
first definitions. -/
def dataNames (d : Document) : List String :=
  ((d.filterMap Definition.typeName?).filter (¬ IsRoot d ·)).eraseDups

theorem forall₂_schemas (d : Document) :
    List.Forall₂ (fun name e => e.1 = name ∧ IsLastSchema d name e.2) (dataNames d)
      (schemas d) := by
  have hnames : dataNames d = (((d.filterMap Definition.schema?).filter
      (¬ IsRoot d ·.1)).map Prod.fst).eraseDups := by
    rw [dataNames, ← funext Definition.map_fst_schema?, ← List.map_filterMap, List.filter_map]
    rfl
  rw [hnames, schemas_eq]
  refine (Table.forall₂_entries_ofList _).imp ?_
  rintro name e ⟨hkey, hlast⟩
  rw [← List.filter_reverse, Table.get?_filter _ (¬ IsRoot d ·)] at hlast
  split at hlast
  case isTrue => exact ⟨hkey, isLastSchema_of_get? hlast⟩
  case isFalse => cases hlast

theorem isRoot_iff_filter {d : Document} {name : String} : IsRoot d name ↔
    name ∈ ["Query", "Mutation", "Subscription"] ∨
      ∃ definition ∈ d.filter Definition.isBlock, name ∈ definition.operations := by
  refine or_congr_right (exists_congr fun definition => and_congr_left fun hname => ?_)
  cases definition with
  | schema operations => exact (List.mem_filter.trans (and_iff_left rfl)).symm
  | object | input | enum | other => cases hname

theorem filterMap_schema?_filter (d : Document) :
    (d.filter (!·.isBlock)).filterMap Definition.schema? = d.filterMap Definition.schema? := by
  rw [List.filterMap_filter]
  refine List.filterMap_congr fun definition _ => ?_
  cases definition <;> rfl

/-- The schemas are the same wherever the schema blocks stand. -/
theorem schemas_of_moved {d d' : Document}
    (hblocks : (d.filter Definition.isBlock).Perm (d'.filter Definition.isBlock))
    (hothers : d.filter (!·.isBlock) = d'.filter (!·.isBlock)) : schemas d = schemas d' := by
  have hroot : ∀ name, IsRoot d name ↔ IsRoot d' name := by
    intro name
    simp only [isRoot_iff_filter, hblocks.mem_iff]
  have hschemas : d.filterMap Definition.schema? = d'.filterMap Definition.schema? := by
    rw [← filterMap_schema?_filter d, hothers, filterMap_schema?_filter d']
  rw [schemas_eq, schemas_eq, hschemas]
  simp only [hroot]

/-- The schemas of a document are those of its types that describe data and are not for operations,
in the order of their first definitions and each from its last one. Moving schema blocks does not
change them. Labels and requiredness follow from the wrappers of a type, at any depth. -/
theorem schemas_of_document (d : Document) :
    List.Forall₂ (fun name e => e.1 = name ∧ IsLastSchema d name e.2) (dataNames d) (schemas d) ∧
    (∀ d' : Document, (d.filter Definition.isBlock).Perm (d'.filter Definition.isBlock) →
      d.filter (!·.isBlock) = d'.filter (!·.isBlock) → schemas d' = schemas d) ∧
    ∀ t : TypeRef, t.label = t.bracketed ∧
      (t.isOptional = true ↔ t.wrappers.head? ≠ some .nonNull) :=
  ⟨forall₂_schemas d, fun _ hblocks hothers => (schemas_of_moved hblocks hothers).symm,
    fun t => ⟨t.label_eq_bracketed, t.isOptional_iff⟩⟩

/-- A type that is defined twice, and a type that a block further down takes for its operations. -/
def scattered : Document :=
  [.enum "Account" ["OPEN", "CLOSED"],
    .object "Root" [⟨"accounts", [], .list (.named "Account")⟩],
    .input "Filter" [⟨"ids", .nonNull (.list (.nonNull (.list (.named "ID"))))⟩],
    .object "Account" [⟨"id", [⟨"as", .named "String"⟩], .nonNull (.named "ID")⟩],
    .schema ["Root"]]

/-- The same document with its block in front. -/
def gathered : Document :=
  .schema ["Root"] :: scattered.dropLast

theorem schemas_of_document_scattered :
    (scattered.filter Definition.isBlock).Perm (gathered.filter Definition.isBlock) ∧
    scattered.filter (!·.isBlock) = gathered.filter (!·.isBlock) ∧
    schemas gathered = schemas scattered ∧
    dataNames scattered = ["Account", "Filter"] ∧
    List.Forall₂ (fun name e => e.1 = name ∧ IsLastSchema scattered name e.2)
      (dataNames scattered) (schemas scattered) := by
  have hblocks : (scattered.filter Definition.isBlock).Perm (gathered.filter Definition.isBlock) :=
    .refl _
  have hothers : scattered.filter (!·.isBlock) = gathered.filter (!·.isBlock) := rfl
  obtain ⟨hschemas, hmoved, -⟩ := schemas_of_document scattered
  exact ⟨hblocks, hothers, hmoved gathered hblocks hothers, by decide, hschemas⟩

end Sdl

end ContractInference
