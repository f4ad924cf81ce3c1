import ContractInference.Proofs.BuilderRoundTrip

/-!
# The form of extracted fields

Whatever tree a builder field is read from, the field and all fields below it have the same form:
siblings have different names, only objects have fields below them, and a default is among the
validations. Each function of the reading keeps its part of the form, and the rest is an induction
on the size of the tree.
-/

namespace ContractInference

namespace Field

/-- The first field is the second one, or stands at some depth below it. -/
inductive Within : Field → Field → Prop
  | self (f : Field) : Within f f
  | deeper {f g h : Field} {fs : List Field} : h.nested = some fs → g ∈ fs → Within f g →
    Within f h

/-- The form of a field, as far as the field and its children decide about it. -/
structure Formed (f : Field) : Prop where
  distinct : ∀ fs, f.nested = some fs → (fs.map Field.name).Nodup
  object : ∀ fs, f.nested = some fs → f.label = "object" ∧ fs ≠ []
  validations_nodup : f.validations.Nodup
  default_mem : ∀ d, f.default? = some d → "default: " ++ d ∈ f.validations

/-- A field of the form, with fields of the form at every depth. -/
def FormedThroughout (f : Field) : Prop := ∀ g, Within g f → Formed g

theorem formedThroughout_of_nested {f : Field} (hf : f.Formed)
    (hnested : ∀ fs, f.nested = some fs → ∀ g ∈ fs, FormedThroughout g) : f.FormedThroughout := by
  intro g hg
  cases hg with
  | self => exact hf
  | deeper hfs hmem hwithin => exact hnested _ hfs _ hmem _ hwithin

/-- Fields next to each other: different names, and each of the form throughout. -/
structure Siblings (fs : List Field) : Prop where
  distinct : (fs.map Field.name).Nodup
  formed : ∀ f ∈ fs, f.FormedThroughout

end Field

namespace Builder

/-- No entry is there twice, and the default has its entry. -/
structure Validations.Formed (v : Validations) : Prop where
  nodup : v.entries.Nodup
  default_mem : ∀ d, v.default? = some d → "default: " ++ d ∈ v.entries

namespace Validations

theorem mem_entries_add (v : Validations) (entry e : Text) :
    e ∈ (v.add entry).entries ↔ e ∈ v.entries ∨ e = entry := by
  by_cases h : entry ∈ v.entries
  · simp only [add, List.contains_iff_mem.2 h, if_true]
    exact ⟨.inl, fun he => he.elim id fun he => he ▸ h⟩
  · simp [add, h]

theorem default?_add (v : Validations) (entry : Text) : (v.add entry).default? = v.default? := by
  unfold add
  split <;> rfl

theorem Formed.add {v : Validations} (hv : v.Formed) (entry : Text) : (v.add entry).Formed where
  nodup := by
    by_cases h : entry ∈ v.entries
    · simpa [Validations.add, h] using hv.nodup
    · simpa [Validations.add, h] using List.nodup_append.2
        ⟨hv.nodup, List.nodup_singleton entry, fun e he e' he' heq =>
          h (List.mem_singleton.1 he' ▸ heq ▸ he)⟩
  default_mem d hd := by
    rw [default?_add] at hd
    exact (v.mem_entries_add entry _).2 (.inl (hv.default_mem d hd))

theorem Formed.addDefault {v : Validations} (hv : v.Formed) (literal : Text) :
    (v.addDefault literal).Formed where
  nodup := (hv.add _).nodup
  default_mem d hd := by
    have hmem := v.mem_entries_add ("default: " ++ literal) ("default: " ++ d)
    have hor : v.default?.or (some literal) = some d := hd
    rcases hdefault : v.default? with _ | d'
    · rw [hdefault, Option.none_or] at hor
      exact hmem.2 (.inr (Option.some.inj hor ▸ rfl))
    · rw [hdefault, Option.some_or] at hor
      exact hmem.2 (.inl (hv.default_mem d (hdefault.trans hor)))

end Validations

theorem formed_addCall (b : BuilderSettings) (v : Validations) (call : Node) (hv : v.Formed) :
    Gives Validations.Formed (addCall b v call) := by
  unfold addCall
  split
  · exact .ok hv
  · split
    · split
      · exact .ok (hv.add _)
      · refine .bind_any fun entry => ?_
        cases entry with
        | none => exact .ok hv
        | some entry => exact .ok (hv.add entry)
    · split
      · split
        · exact .ok hv
        · refine .bind_any fun literal => ?_
          cases literal with
          | none => exact .ok hv
          | some literal => exact .ok (hv.addDefault literal)
      · exact .ok hv

theorem formed_validations (b : BuilderSettings) (n : Node) :
    Gives Validations.Formed (validations b n) :=
  Gives.foldlM (formed_addCall b) n.calls ⟨List.nodup_nil, by simp⟩

/-- Only an object has fields below it, and then some. -/
def Shape.Formed (s : Builder.Shape) : Prop :=
  ∀ fs, s.nested = some fs → s.label = "object" ∧ fs ≠ [] ∧ Field.Siblings fs

namespace Shape

theorem formed_of_nested_none {s : Builder.Shape} (h : s.nested = none) : s.Formed := by
  intro fs hfs
  simp [h] at hfs

/-- Brackets go with the fields, so that what is left of them is an object as it was. -/
theorem Formed.wrap {s : Builder.Shape} (hs : s.Formed) (suffix : List String) :
    (s.wrap suffix).Formed := by
  unfold Builder.Shape.wrap
  split
  · exact hs
  · exact formed_of_nested_none rfl

end Shape

theorem formedThroughout_fieldOf {b : BuilderSettings} {name : Text} {n : Node} {v : Validations}
    {s : Builder.Shape} (hv : v.Formed) (hs : s.Formed) :
    (fieldOf b name n v s).FormedThroughout := by
  have hformed : (fieldOf b name n v s).Formed :=
    { distinct := fun fs hfs => (hs fs hfs).2.2.distinct
      object := fun fs hfs => ⟨(hs fs hfs).1, (hs fs hfs).2.1⟩
      validations_nodup := hv.nodup
      default_mem := hv.default_mem }
  exact Field.formedThroughout_of_nested hformed fun fs hfs => (hs fs hfs).2.2.formed

theorem formed_readField {b : BuilderSettings} {property : Text × Node}
    (h : Gives Shape.Formed (shape b property.2)) :
    Gives Field.FormedThroughout (readField b property) :=
  (formed_validations b property.2).bind fun _ hv =>
    h.bind fun _ hs => .ok (formedThroughout_fieldOf hv hs)

/-- The last field of a name replaces the others, so the names that are left are different. -/
theorem siblings_mergeFields {fields : List Field} (h : ∀ f ∈ fields, f.FormedThroughout) :
    Field.Siblings (mergeFields fields) := by
  obtain ⟨hnodup, hmem⟩ := Table.ofList_spec (fields.map fun f => (f.name, f))
  have hentry : ∀ e ∈ Table.ofList (fields.map fun f => (f.name, f)),
      e.2 ∈ fields ∧ e.2.name = e.1 := by
    intro e he
    obtain ⟨f, hf, rfl⟩ := List.mem_map.1 (hmem e he)
    exact ⟨hf, rfl⟩
  have hnames : (mergeFields fields).map Field.name =
      Table.keys (Table.ofList (fields.map fun f => (f.name, f))) := by
    rw [mergeFields, Table.values, Table.keys, List.map_map]
    exact List.map_congr_left fun e he => (hentry e he).2
  refine ⟨hnames ▸ hnodup, fun f hf => ?_⟩
  obtain ⟨e, he, rfl⟩ := List.mem_map.1 hf
  exact h _ (hentry e he).1

theorem siblings_objectFields {b : BuilderSettings} {n : Node}
    (h : ∀ property ∈ properties b n, Gives Shape.Formed (shape b property.2)) :
    Gives Field.Siblings (objectFields b n) := by
  rw [objectFields_eq]
  refine (Gives.mapM fun property hp => formed_readField (h property hp)).bind fun fields hf => ?_
  exact .ok (siblings_mergeFields hf)

/-- The shape of any tree is formed. Values of properties are smaller trees; the item of an array
gives its label and nothing else. -/
theorem formed_shape (b : BuilderSettings) (n : Node) : Gives Shape.Formed (shape b n) := by
  induction hn : n.size using Nat.strongRecOn generalizing n with
  | ind size ih =>
    subst hn
    by_cases hrooted : n.chain.isRootedAt b.rootName = true
    · rw [shape_eq hrooted]
      unfold shapeBy
      split
      · exact .ok (Shape.formed_of_nested_none rfl |>.wrap _)
      · refine .bind_any fun item => ?_
        exact .ok (Shape.formed_of_nested_none rfl |>.wrap _)
      · refine (siblings_objectFields fun property hp =>
          ih _ (size_property_lt hp) property.2 rfl).bind fun fields hfields => ?_
        refine .ok (.wrap ?_ _)
        intro fs hfs
        by_cases hempty : fields.isEmpty = true
        · simp [hempty] at hfs
        · obtain rfl : fields = fs := by simpa [hempty] using hfs
          exact ⟨rfl, by simpa using hempty, hfields⟩
      · exact .ok (Shape.formed_of_nested_none rfl |>.wrap _)
    · rw [shape]
      dsimp only
      rw [if_neg hrooted]
      split <;> exact .ok (Shape.formed_of_nested_none rfl |>.wrap _)

theorem siblings_singleton {name label : Text} : Field.Siblings [{ name, label : Field }] where
  distinct := List.nodup_singleton _
  formed f hf := by
    obtain rfl := List.mem_singleton.1 hf
    refine Field.formedThroughout_of_nested ⟨?_, ?_, List.nodup_nil, ?_⟩ ?_ <;> simp

theorem formed_field? (b : BuilderSettings) (name : Text) (n : Node) :
    Gives (fun f? => ∀ f, f? = some f → f.FormedThroughout) (field? b name n) := by
  unfold field?
  split
  · refine (formed_validations b n).bind fun v hv => (formed_shape b n).bind fun s hs => .ok ?_
    rintro _ ⟨⟩
    exact formedThroughout_fieldOf hv hs
  · exact .ok (by simp)

theorem siblings_schema? (b : BuilderSettings) (n : Node) (name : Option String) :
    Gives (fun s? => ∀ s, s? = some s → Field.Siblings s.fields) (schema? b n name) := by
  unfold schema?
  split
  · split
    · rename_i kind ctor _ _
      split
      · have hschema : ∀ fields, Field.Siblings fields →
            Gives (fun s? => ∀ s, s? = some s → Field.Siblings s.fields)
              (.ok (some { source := .builder, fields, name,
                           isRequired := !n.chain.hasMethod b.optionalMarkers }) :
                Except Failure (Option Schema)) := by
          intro fields hfields
          refine .ok ?_
          rintro _ ⟨⟩
          exact hfields
        dsimp only
        split
        · exact (siblings_objectFields fun property _ => formed_shape b property.2).bind hschema
        · split
          · exact hschema _ siblings_singleton
          · exact .bind_any fun item => hschema _ siblings_singleton
      · exact .ok (by simp)
    · exact .ok (by simp)
  · exact .ok (by simp)

/-- A field with all that is below it, and the fields of a schema, are formed for any settings and
any tree. -/
theorem fields_formed (b : BuilderSettings) (n : Node) :
    (∀ name f, field? b name n = .ok (some f) → ∀ g, Field.Within g f → g.Formed) ∧
      ∀ name s, schema? b n name = .ok (some s) →
        (s.fields.map Field.name).Nodup ∧ ∀ f ∈ s.fields, ∀ g, Field.Within g f → g.Formed := by
  refine ⟨fun name f hf => formed_field? b name n _ hf f rfl, fun name s hs => ?_⟩
  obtain ⟨hnodup, hformed⟩ := siblings_schema? b n name _ hs s rfl
  exact ⟨hnodup, hformed⟩

/-- An object that is extended under a name that it has, with entries that are given twice. -/
def extended : Node :=
  ((Grammar.parse Language.typescript.dialect
    ("z.object(\x7b a: z.string(), b: z.number().min(1).min(1).default(2).default(3) \x7d)" ++
      ".extend(\x7b a: z.object(\x7b c: z.null() \x7d) \x7d)")).nodes.find?
        Tree.isCall).getD default

theorem fields_formed_extended :
    (∃ f, field? {} "f" extended = .ok (some f) ∧
      (f.nested.getD []).map (fun g => (g.name.toString, g.validations.map Text.toString)) =
        [("a", []), ("b", ["default: 3", "default: 2", "min: 1"])] ∧
      ∀ g, Field.Within g f → g.Formed) ∧
    ∃ s, schema? {} extended none = .ok (some s) ∧ s.fields.length = 2 ∧
      (s.fields.map Field.name).Nodup ∧ ∀ f ∈ s.fields, ∀ g, Field.Within g f → g.Formed := by
  obtain ⟨hfield, hschema⟩ := fields_formed {} extended
  obtain ⟨hf, hs⟩ : ((field? {} "f" extended).toOption.bind (·.map fun f =>
      (f.nested.getD []).map fun g => (g.name.toString, g.validations.map Text.toString))) =
        some [("a", []), ("b", ["default: 3", "default: 2", "min: 1"])] ∧
      ((schema? {} extended none).toOption.bind (·.map fun s => s.fields.length)) = some 2 := by
    decide +kernel
  obtain ⟨f, hf, hnested⟩ := exists_of_found hf
  obtain ⟨s, hs, hlength⟩ := exists_of_found hs
  exact ⟨⟨f, hf, hnested, hfield _ f hf⟩, s, hs, hlength, hschema _ s hs⟩

end Builder

end ContractInference
