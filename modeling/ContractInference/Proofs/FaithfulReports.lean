import ContractInference.Declaration
import ContractInference.Proofs.DocumentSchemas

/-!
# Faithful reports

Reports leave out what is empty or absent, and the order of their entries does not count. Still, two
schemas that were read from any sources are equal exactly if their reports say the same: no reader
makes a field with an empty list of fields below it, so an entry that is left out can only mean one
thing.
-/

namespace ContractInference

theorem forall₂_imp_of_mem {α β : Type} {R S : α → β → Prop} {as : List α} {bs : List β}
    (h : List.Forall₂ R as bs) (himp : ∀ a ∈ as, ∀ b ∈ bs, R a b → S a b) :
    List.Forall₂ S as bs := by
  rw [List.forall₂_iff_zip] at h ⊢
  refine ⟨h.1, fun hmem => ?_⟩
  obtain ⟨ha, hb⟩ := List.of_mem_zip hmem
  exact himp _ ha _ hb (h.2 hmem)

namespace Report

mutual

/-- Two reports say the same. The order of the entries of a record does not count. -/
def same : Report → Report → Bool
  | .text a, .text b => a = b
  | .flag a, .flag b => a == b
  | .list as, .list bs => sameItems as bs
  | .record fs, .record gs => fs.length == gs.length && sameFields fs gs
  | _, _ => false

def sameItems : List Report → List Report → Bool
  | [], [] => true
  | a :: as, b :: bs => same a b && sameItems as bs
  | _, _ => false

/-- The second record has an entry that says the same for each entry of the first one. -/
def sameFields : List (String × Report) → List (String × Report) → Bool
  | [], _ => true
  | (k, r) :: fs, gs => (gs.lookup k).any (same r) && sameFields fs gs

end

/-- Two reports, or parts of them, are both absent or say the same. -/
def Agree : Option Report → Option Report → Prop := Option.Rel fun a b => same a b = true

variable {as bs : List Report} {fs gs : List (String × Report)}

theorem sameItems_iff :
    sameItems as bs = true ↔ List.Forall₂ (fun a b => same a b = true) as bs := by
  induction as generalizing bs with
  | nil => cases bs <;> simp [sameItems]
  | cons a as ih => cases bs <;> simp [sameItems, ih]

theorem sameFields_iff : sameFields fs gs = true ↔
    ∀ e ∈ fs, ∃ r, gs.lookup e.1 = some r ∧ same e.2 r = true := by
  induction fs with
  | nil => simp [sameFields]
  | cons e fs ih => simp [sameFields, ih, Option.any_eq_true]

theorem mem_keys_iff {k : String} : k ∈ fs.map Prod.fst ↔ (fs.lookup k).isSome = true := by
  rw [List.mem_map, List.lookup_isSome_iff]
  refine exists_congr fun e => and_congr_right fun _ => ?_
  rw [beq_iff_eq, eq_comm]

/-- Records that say the same agree under each key. -/
theorem agree_lookup_of_same (hkeys : (fs.map Prod.fst).Nodup)
    (h : same (.record fs) (.record gs) = true) (k : String) :
    Agree (fs.lookup k) (gs.lookup k) := by
  rw [same, Bool.and_eq_true, beq_iff_eq, sameFields_iff] at h
  obtain ⟨hlength, hentries⟩ := h
  have hsubset : fs.map Prod.fst ⊆ gs.map Prod.fst := by
    intro key hkey
    obtain ⟨e, he, rfl⟩ := List.mem_map.1 hkey
    obtain ⟨r, hr, -⟩ := hentries e he
    exact mem_keys_iff.2 (hr ▸ rfl)
  -- There are as many keys on both sides, so none is left over.
  have hperm : (fs.map Prod.fst).Perm (gs.map Prod.fst) :=
    (List.subperm_of_subset hkeys hsubset).perm_of_length_le (by simp [hlength])
  have hmem := mem_keys_iff.symm.trans (hperm.mem_iff (a := k)) |>.trans mem_keys_iff
  cases hk : fs.lookup k with
  | none =>
    rw [hk] at hmem
    rw [Option.not_isSome_iff_eq_none.1 (mt hmem.2 (by simp))]
    exact .none
  | some r =>
    obtain ⟨before, after, rfl, -⟩ := List.lookup_eq_some_iff.1 hk
    obtain ⟨r', hr', hsame⟩ := hentries (k, r) (by simp)
    rw [hr']
    exact .some hsame

def present (parts : List (String × Option Report)) : List (String × Report) :=
  parts.filterMap fun e => e.2.map (e.1, ·)

/-- A list of items, left out if it is empty. -/
def listed? (items : List Report) : Option Report :=
  if items.isEmpty then none else some (.list items)

theorem keys_present_sublist (parts : List (String × Option Report)) :
    List.Sublist ((present parts).map Prod.fst) (parts.map Prod.fst) := by
  induction parts with
  | nil => exact .slnil
  | cons e parts ih =>
    obtain ⟨k, r⟩ := e
    cases r with
    | none => exact ih.cons k
    | some r => exact ih.cons_cons k

theorem lookup_present {parts : List (String × Option Report)} (h : (parts.map Prod.fst).Nodup)
    {e : String × Option Report} (he : e ∈ parts) : (present parts).lookup e.1 = e.2 := by
  induction parts with
  | nil => cases he
  | cons e₀ parts ih =>
    obtain ⟨hnew, hrest⟩ := List.nodup_cons.1 h
    have hcons : present (e₀ :: parts) = (e₀.2.map (e₀.1, ·)).toList ++ present parts := by
      rw [present, List.filterMap_cons]
      cases e₀.2 <;> rfl
    rw [hcons, List.lookup_append]
    rcases List.mem_cons.1 he with rfl | he
    · have hnone : (present parts).lookup e.1 = none := by
        refine Option.not_isSome_iff_eq_none.1 fun hsome => hnew ?_
        exact (keys_present_sublist parts).subset (mem_keys_iff.2 hsome)
      cases e.2 <;> simp [hnone]
    · have hne : (e.1 == e₀.1) = false :=
        beq_eq_false_iff_ne.2 fun heq => hnew (heq ▸ List.mem_map_of_mem he)
      cases e₀.2 <;> simp [List.lookup_cons, hne, ih hrest he]

/-- Records of the same keys say the same only if the parts under each key agree. -/
theorem agree_of_same_present {parts parts' : List (String × Option Report)}
    (hkeys : parts.map Prod.fst = parts'.map Prod.fst) (hnodup : (parts.map Prod.fst).Nodup)
    (h : same (.record (present parts)) (.record (present parts')) = true) :
    List.Forall₂ (fun e e' => Agree e.2 e'.2) parts parts' := by
  have hnodup' := hkeys ▸ hnodup
  have hpairs : List.Forall₂ (fun e e' => e.1 = e'.1) parts parts' := by
    rwa [← List.forall₂_eq_eq_eq, List.forall₂_map_left_iff, List.forall₂_map_right_iff] at hkeys
  refine forall₂_imp_of_mem hpairs fun e he e' he' hkey => ?_
  have hagree := agree_lookup_of_same ((keys_present_sublist parts).nodup hnodup) h e.1
  rwa [lookup_present hnodup he, hkey, lookup_present hnodup' he'] at hagree

theorem same_present_self {parts : List (String × Option Report)}
    (hnodup : (parts.map Prod.fst).Nodup)
    (h : ∀ e ∈ parts, ∀ r, e.2 = some r → same r r = true) :
    same (.record (present parts)) (.record (present parts)) = true := by
  rw [same, beq_self_eq_true, Bool.true_and, sameFields_iff]
  intro e he
  obtain ⟨part, hpart, he⟩ := List.mem_filterMap.1 he
  obtain ⟨r, hr, rfl⟩ := Option.map_eq_some_iff.1 he
  exact ⟨r, (lookup_present hnodup hpart).trans hr, h part hpart r hr⟩

theorem same_text_self (t : Text) : same (.text t) (.text t) = true := by
  rw [same]
  exact decide_eq_true rfl

theorem same_flag_self (b : Bool) : same (.flag b) (.flag b) = true := by
  rw [same]
  exact beq_self_eq_true b

theorem same_list_self {items : List Report} (h : ∀ r ∈ items, same r r = true) :
    same (.list items) (.list items) = true := by
  rw [same]
  exact sameItems_iff.2 (List.forall₂_same.2 h)

theorem same_listed?_self {items : List Report} (h : ∀ r ∈ items, same r r = true) {r : Report}
    (hr : listed? items = some r) : same r r = true := by
  rw [listed?] at hr
  split at hr
  case isTrue => cases hr
  case isFalse =>
    cases hr
    exact same_list_self h

theorem eq_of_same_text {a b : Text} (h : same (.text a) (.text b) = true) : a = b := by
  rw [same] at h
  exact of_decide_eq_true h

theorem eq_of_same_flag {a b : Bool} (h : same (.flag a) (.flag b) = true) : a = b := by
  rw [same] at h
  exact beq_iff_eq.1 h

theorem eq_of_same_string {a b : String} (h : same (.string a) (.string b) = true) : a = b :=
  Text.ofString_injective (eq_of_same_text h)

theorem same_of_agree {a b : Report} (h : Agree (some a) (some b)) : same a b = true := by
  cases h with
  | some h => exact h

theorem eq_of_agree_map {α : Type} {write : α → Report}
    (hwrite : ∀ {a b}, same (write a) (write b) = true → a = b) {x y : Option α}
    (h : Agree (x.map write) (y.map write)) : x = y := by
  cases x with
  | none =>
    cases y with
    | none => rfl
    | some b => cases h
  | some a =>
    cases y with
    | none => cases h
    | some b => exact congrArg some (hwrite (same_of_agree h))

theorem sameItems_of_agree (h : Agree (listed? as) (listed? bs)) : sameItems as bs = true := by
  cases as with
  | nil =>
    cases bs with
    | nil => rfl
    | cons b bs => cases h
  | cons a as =>
    cases bs with
    | nil => cases h
    | cons b bs => exact same_of_agree h

theorem eq_of_sameItems_map {α : Type} {write : α → Report}
    (hwrite : ∀ {a b}, same (write a) (write b) = true → a = b) {xs ys : List α}
    (h : sameItems (xs.map write) (ys.map write) = true) : xs = ys := by
  rw [sameItems_iff, List.forall₂_map_left_iff, List.forall₂_map_right_iff] at h
  exact List.forall₂_eq_eq_eq ▸ h.imp fun _ _ => hwrite

end Report

open Report (same present listed?)

namespace Field

/-- No field at any depth has an empty list of fields below it. -/
def Substantial (f : Field) : Prop := ∀ g, Within g f → g.nested ≠ some []

theorem substantial_of_nested_none {f : Field} (h : f.nested = none) : f.Substantial := by
  intro g hg
  cases hg with
  | self => simp [h]
  | deeper hfs => simp [h] at hfs

theorem FormedThroughout.substantial {f : Field} (h : f.FormedThroughout) : f.Substantial :=
  fun g hg hnested => ((h g hg).object [] hnested).2 rfl

def parts (f : Field) : List (String × Option Report) :=
  [("name", some (.text f.name)), ("type", some (.text f.label)),
    ("is_optional", some (.flag f.isOptional)), ("validations", listed? (f.validations.map .text)),
    ("default", f.default?.map .text), ("nested", listed? ((f.nested.getD []).map report))]

theorem reportAll_eq_map (fs : List Field) : reportAll fs = fs.map report := by
  induction fs with
  | nil => rfl
  | cons f fs ih => rw [reportAll, ih, List.map_cons]

theorem report_eq_present (f : Field) : f.report = .record (present f.parts) := by
  obtain ⟨name, label, isOptional, validations, default?, nested⟩ := f
  cases validations <;> cases default? <;> rcases nested with _ | _ | ⟨g, gs⟩ <;>
    simp [report, parts, present, listed?, reportAll_eq_map]

theorem nodup_keys_parts (f : Field) : (f.parts.map Prod.fst).Nodup := by
  show ["name", "type", "is_optional", "validations", "default", "nested"].Nodup
  decide

/-- Fields with the same report are equal but for the fields below them, which have the same reports
one by one. -/
theorem agree_of_same {f g : Field} (h : same f.report g.report = true) :
    f.name = g.name ∧ f.label = g.label ∧ f.isOptional = g.isOptional ∧
      f.validations = g.validations ∧ f.default? = g.default? ∧
      List.Forall₂ (fun a b => same a.report b.report = true) (f.nested.getD [])
        (g.nested.getD []) := by
  rw [report_eq_present, report_eq_present] at h
  have hkeys : f.parts.map Prod.fst = g.parts.map Prod.fst := rfl
  have hparts := Report.agree_of_same_present hkeys f.nodup_keys_parts h
  simp only [parts, List.forall₂_cons, List.Forall₂.nil, and_true] at hparts
  obtain ⟨hname, hlabel, hoptional, hvalidations, hdefault, hnested⟩ := hparts
  have hfields := Report.sameItems_iff.1 (Report.sameItems_of_agree hnested)
  rw [List.forall₂_map_left_iff, List.forall₂_map_right_iff] at hfields
  exact ⟨Report.eq_of_same_text (Report.same_of_agree hname),
    Report.eq_of_same_text (Report.same_of_agree hlabel),
    Report.eq_of_same_flag (Report.same_of_agree hoptional),
    Report.eq_of_sameItems_map Report.eq_of_same_text (Report.sameItems_of_agree hvalidations),
    Report.eq_of_agree_map Report.eq_of_same_text hdefault, hfields⟩

theorem sizeOf_lt_of_nested {f g : Field} (h : g ∈ f.nested.getD []) : sizeOf g < sizeOf f := by
  obtain ⟨name, label, isOptional, validations, default?, nested⟩ := f
  cases nested with
  | none => cases h
  | some fs =>
    have hmem : sizeOf g < sizeOf fs := List.sizeOf_lt_of_mem h
    simp only [Field.mk.sizeOf_spec, Option.some.sizeOf_spec]
    omega

theorem Substantial.nested {f g : Field} (h : f.Substantial) (hg : g ∈ f.nested.getD []) :
    g.Substantial := by
  cases hnested : f.nested with
  | none => simp [hnested] at hg
  | some fs =>
    rw [hnested] at hg
    exact fun g' hg' => h g' (.deeper hnested hg hg')

theorem Substantial.nested_eq {f g : Field} (hf : f.Substantial) (hg : g.Substantial)
    (h : f.nested.getD [] = g.nested.getD []) : f.nested = g.nested := by
  have hf := hf f (.self f)
  have hg := hg g (.self g)
  cases hfields : f.nested with
  | none =>
    cases hfields' : g.nested with
    | none => rfl
    | some gs =>
      rw [hfields, hfields'] at h
      exact absurd (hfields'.trans (congrArg some h.symm)) hg
  | some fs =>
    cases hfields' : g.nested with
    | none =>
      rw [hfields, hfields'] at h
      exact absurd (hfields.trans (congrArg some h)) hf
    | some gs =>
      rw [hfields, hfields'] at h
      exact congrArg some h

/-- A field is determined by its report. The induction is on the size of the field. -/
theorem eq_of_same {f g : Field} (hf : f.Substantial) (hg : g.Substantial)
    (h : same f.report g.report = true) : f = g := by
  induction hsize : sizeOf f using Nat.strongRecOn generalizing f g with
  | ind n ih =>
    obtain ⟨hname, hlabel, hoptional, hvalidations, hdefault, hfields⟩ := agree_of_same h
    have hequal : List.Forall₂ Eq (f.nested.getD []) (g.nested.getD []) :=
      forall₂_imp_of_mem hfields fun a ha b hb hsame =>
        ih (sizeOf a) (hsize ▸ sizeOf_lt_of_nested ha) (hf.nested ha) (hg.nested hb) hsame rfl
    have hnested := hf.nested_eq hg (List.forall₂_eq_eq_eq ▸ hequal)
    cases f
    cases g
    rw [Field.mk.injEq]
    exact ⟨hname, hlabel, hoptional, hvalidations, hdefault, hnested⟩

-- An empty list of fields, which no reader makes, would be lost.
example : same (report { name := "a", label := "object", nested := some [] })
    (report { name := "a", label := "object" }) = true := by
  decide +kernel

theorem same_report_self (f : Field) : same f.report f.report = true := by
  induction hsize : sizeOf f using Nat.strongRecOn generalizing f with
  | ind n ih =>
    rw [report_eq_present]
    refine Report.same_present_self f.nodup_keys_parts ?_
    simp only [parts, List.forall_mem_cons, List.not_mem_nil, false_implies, implies_true, and_true]
    refine ⟨?_, ?_, ?_, ?_, ?_, ?_⟩
    · rintro r ⟨⟩
      exact Report.same_text_self _
    · rintro r ⟨⟩
      exact Report.same_text_self _
    · rintro r ⟨⟩
      exact Report.same_flag_self _
    · refine fun r => Report.same_listed?_self (List.forall_mem_map.2 fun t _ => ?_)
      exact Report.same_text_self t
    · intro r hr
      obtain ⟨t, -, rfl⟩ := Option.map_eq_some_iff.1 hr
      exact Report.same_text_self t
    · refine fun r => Report.same_listed?_self (List.forall_mem_map.2 fun g hg => ?_)
      exact ih (sizeOf g) (hsize ▸ sizeOf_lt_of_nested hg) g rfl

end Field

namespace Schema

/-- A schema that one of the readers has found: in a builder chain, in a declaration or in a
document. -/
inductive Extracted : Schema → Prop
  | builder {b : BuilderSettings} {n : Node} {name : Option String} {s : Schema} :
    Builder.schema? b n name = .ok (some s) → Extracted s
  | declaration {d : DeclarationSettings} {n : Node} {name : String} {s : Schema} :
    Declaration.schema? d n = some (name, s) → Extracted s
  | definition {d : Sdl.Document} {name : String} {s : Schema} :
    (name, s) ∈ Sdl.schemas d → Extracted s

end Schema

namespace Declaration

theorem nested_of_objectMembers (maxLength : Int) (body : Option Node) :
    ∀ f ∈ objectMembers maxLength body, f.nested = none := by
  intro f hf
  cases body with
  | none => cases hf
  | some b =>
    obtain ⟨member, -, hmember⟩ := List.mem_filterMap.1 hf
    unfold objectMember? at hmember
    split at hmember
    case isTrue =>
      obtain ⟨name, -, rfl⟩ := Option.map_eq_some_iff.1 hmember
      rfl
    case isFalse => cases hmember

theorem nested_of_enumMembers (body : Option Node) : ∀ f ∈ enumMembers body, f.nested = none := by
  intro f hf
  cases body with
  | none => cases hf
  | some b =>
    obtain ⟨member, -, hmember⟩ := List.mem_filterMap.1 hf
    obtain ⟨name, -, rfl⟩ := Option.map_eq_some_iff.1 hmember
    rfl

theorem nested_of_schema? {d : DeclarationSettings} {n : Node} {name : String} {s : Schema}
    (h : schema? d n = some (name, s)) : ∀ f ∈ s.fields, f.nested = none := by
  unfold schema? at h
  dsimp only at h
  split at h
  case isTrue => cases h
  case isFalse =>
    split at h
    case isTrue =>
      cases h
      exact nested_of_enumMembers _
    case isFalse =>
      split at h
      case isTrue =>
        cases h
        exact nested_of_objectMembers _ _
      case isFalse =>
        split at h
        case h_1 value _ =>
          split at h
          case isTrue =>
            cases h
            exact nested_of_objectMembers d.maxTypeLength (some value)
          case isFalse => cases h
        case h_2 => cases h

end Declaration

namespace Sdl

theorem nested_of_schema? {definition : Definition} {name : String} {s : Schema}
    (h : definition.schema? = some (name, s)) : ∀ f ∈ s.fields, f.nested = none := by
  cases definition with
  | object name definitions =>
    cases h
    exact List.forall_mem_map.2 fun d _ => rfl
  | input name definitions =>
    cases h
    exact List.forall_mem_map.2 fun d _ => rfl
  | enum name values =>
    cases h
    exact List.forall_mem_map.2 fun v _ => rfl
  | schema operations => cases h
  | other => cases h

theorem exists_schema?_of_mem {d : Document} {e : String × Schema} (h : e ∈ schemas d) :
    ∃ definition, Definition.schema? definition = some e := by
  rw [schemas_eq] at h
  have hmem := (Table.ofList_spec _).2 e h
  obtain ⟨definition, -, hschema⟩ := List.mem_filterMap.1 (List.mem_filter.1 hmem).1
  exact ⟨definition, hschema⟩

end Sdl

namespace Schema

theorem Extracted.substantial {s : Schema} (h : s.Extracted) : ∀ f ∈ s.fields, f.Substantial := by
  cases h with
  | builder h =>
    have hsiblings := Builder.siblings_schema? _ _ _ _ h s rfl
    exact fun f hf => (hsiblings.formed f hf).substantial
  | declaration h =>
    have hnested := Declaration.nested_of_schema? h
    exact fun f hf => Field.substantial_of_nested_none (hnested f hf)
  | definition h =>
    obtain ⟨definition, hschema⟩ := Sdl.exists_schema?_of_mem h
    have hnested := Sdl.nested_of_schema? hschema
    exact fun f hf => Field.substantial_of_nested_none (hnested f hf)

def parts (s : Schema) : List (String × Option Report) :=
  [("source", some (.string s.source.name)), ("fields", some (.list (s.fields.map Field.report))),
    ("is_required", some (.flag s.isRequired)), ("name", s.name.map .string),
    ("extends", listed? (s.parents.map .string))]

theorem report_eq_present (s : Schema) : s.report = .record (present s.parts) := by
  obtain ⟨source, fields, name, isRequired, parents⟩ := s
  cases name <;> cases parents <;>
    simp [report, parts, present, listed?, Field.reportAll_eq_map]

theorem source_name_injective {a b : SchemaSource} (h : a.name = b.name) : a = b := by
  cases a <;> cases b <;> first | rfl | exact absurd h (by decide)

theorem nodup_keys_parts (s : Schema) : (s.parts.map Prod.fst).Nodup := by
  show ["source", "fields", "is_required", "name", "extends"].Nodup
  decide

theorem same_report_self (s : Schema) : same s.report s.report = true := by
  rw [report_eq_present]
  refine Report.same_present_self s.nodup_keys_parts ?_
  simp only [parts, List.forall_mem_cons, List.not_mem_nil, false_implies, implies_true, and_true]
  refine ⟨?_, ?_, ?_, ?_, ?_⟩
  · rintro r ⟨⟩
    exact Report.same_text_self _
  · rintro r ⟨⟩
    exact Report.same_list_self (List.forall_mem_map.2 fun f _ => f.same_report_self)
  · rintro r ⟨⟩
    exact Report.same_flag_self _
  · intro r hr
    obtain ⟨name, -, rfl⟩ := Option.map_eq_some_iff.1 hr
    exact Report.same_text_self _
  · refine fun r => Report.same_listed?_self (List.forall_mem_map.2 fun parent _ => ?_)
    exact Report.same_text_self _

theorem eq_of_same {s t : Schema} (hs : ∀ f ∈ s.fields, f.Substantial)
    (ht : ∀ f ∈ t.fields, f.Substantial) (h : same s.report t.report = true) : s = t := by
  rw [report_eq_present, report_eq_present] at h
  have hkeys : s.parts.map Prod.fst = t.parts.map Prod.fst := rfl
  have hparts := Report.agree_of_same_present hkeys s.nodup_keys_parts h
  simp only [parts, List.forall₂_cons, List.Forall₂.nil, and_true] at hparts
  obtain ⟨hsource, hfields, hrequired, hname, hparents⟩ := hparts
  have hfields := Report.sameItems_iff.1 (Report.same_of_agree hfields)
  rw [List.forall₂_map_left_iff, List.forall₂_map_right_iff] at hfields
  have hequal : List.Forall₂ Eq s.fields t.fields :=
    forall₂_imp_of_mem hfields fun f hf g hg => Field.eq_of_same (hs f hf) (ht g hg)
  cases s
  cases t
  rw [Schema.mk.injEq]
  exact ⟨source_name_injective (Report.eq_of_same_string (Report.same_of_agree hsource)),
    List.forall₂_eq_eq_eq ▸ hequal, Report.eq_of_agree_map Report.eq_of_same_string hname,
    Report.eq_of_same_flag (Report.same_of_agree hrequired),
    Report.eq_of_sameItems_map Report.eq_of_same_string (Report.sameItems_of_agree hparents)⟩

/-- Schemas that have been read are equal exactly if their reports say the same. -/
theorem same_report_iff {s t : Schema} (hs : s.Extracted) (ht : t.Extracted) :
    same s.report t.report = true ↔ s = t := by
  constructor
  · exact eq_of_same hs.substantial ht.substantial
  · rintro rfl
    exact s.same_report_self

/-- An object with an object in it, and a default in that one. -/
def direct : Node :=
  Builder.firstCall "z.object(\x7ba: z.object(\x7bb: z.any().default(2)\x7d)\x7d)"

/-- The same object, made in two steps. -/
def pieced : Node :=
  Builder.firstCall "z.object().extend(\x7ba: z.object(\x7b'b': z.any().default(0b10)\x7d)\x7d)"

theorem same_report_iff_pieced :
    ∃ s t, Builder.schema? {} direct none = .ok (some s) ∧
      Builder.schema? {} pieced none = .ok (some t) ∧ s.fields.length = 1 ∧
      same s.report t.report = true ∧ s = t := by
  have hread : (Builder.schema? {} direct none).toOption.join.bind (fun s =>
      (Builder.schema? {} pieced none).toOption.join.map fun t =>
        (s.fields.length, same s.report t.report)) = some (1, true) := by
    decide +kernel
  obtain ⟨s, hs, hread⟩ := Option.bind_eq_some_iff.1 hread
  obtain ⟨t, ht, hread⟩ := Option.map_eq_some_iff.1 hread
  obtain ⟨hlength, hsame⟩ := Prod.mk.inj hread
  have hs := eq_ok_of_toOption (Option.join_eq_some_iff.1 hs)
  have ht := eq_ok_of_toOption (Option.join_eq_some_iff.1 ht)
  exact ⟨s, t, hs, ht, hlength, hsame, (same_report_iff (.builder hs) (.builder ht)).1 hsame⟩

end Schema

end ContractInference
