import ContractInference.Configuration
import ContractInference.Proofs.Merging

/-!
# Reported issues

What a check reports when it does not accept a value: at least one issue, and only issues about
parts of the value. A check ends without a verdict only where an output of the log is in a home
directory that is not known. The same is assumed of the coercions that a library makes.
-/

namespace ContractInference

open Datum (lookup?)

namespace Datum

/-- A value has another one inside; keys of mappings count. -/
inductive Contains : Datum → Datum → Prop where
  | self (d : Datum) : Contains d d
  | item {d x : Datum} {items : List Datum} (hd : d ∈ items) (h : Contains d x) :
      Contains (.list items) x
  | entry {d x : Datum} {k : Scalar} {entries : List (Scalar × Datum)} (hd : (k, d) ∈ entries)
      (h : Contains d x) : Contains (.map entries) x
  | key {d : Datum} {k : Scalar} {entries : List (Scalar × Datum)} (hd : (k, d) ∈ entries) :
      Contains (.map entries) (.scalar k)

def HasEntry (d : Datum) (key : String) (value : Datum) : Prop :=
  ∃ entries, d = .map entries ∧ (Scalar.text key, value) ∈ entries

theorem hasEntry_of_lookup? {entries : List (Scalar × Datum)} {key : String} {value : Datum}
    (h : lookup? (.text key) entries = some value) : (Datum.map entries).HasEntry key value :=
  ⟨entries, rfl, mem_of_lookup?_text h⟩

end Datum

namespace Check

variable {α β : Type}

/-- A check that does not accept reports some issue, and only about values with `P`; only `H` can
keep it from a verdict. -/
def Explained (P : Datum → Prop) (H : Prop) : Check α → Prop
  | valid _ => True
  | invalid issues => issues ≠ [] ∧ ∀ i ∈ issues, P i.input
  | homeless => H

variable {P Q : Datum → Prop} {H K : Prop}

namespace Explained

theorem valid (a : α) : Explained P H (.valid a : Check α) := trivial

theorem complain {d : Datum} (c : Complaint) (h : P d) : Explained P H (complain c d : Check α) :=
  ⟨List.cons_ne_nil _ _, by simpa using h⟩

theorem mono {c : Check α} (h : c.Explained P H) (hP : ∀ d, P d → Q d) (hH : H → K) :
    c.Explained Q K := by
  cases c with
  | valid a => trivial
  | invalid issues => exact ⟨h.1, fun i hi => hP _ (h.2 i hi)⟩
  | homeless => exact hH h

theorem of_false {c : Check α} (h : c.Explained P False) : c.Explained P H :=
  h.mono (fun _ hd => hd) False.elim

theorem seq {f : Check (α → β)} {x : Check α} (hf : f.Explained P H) (hx : x.Explained P H) :
    (f.seq x).Explained P H := by
  cases f with
  | homeless => exact hf
  | valid f =>
    cases x with
    | valid a => trivial
    | invalid js => exact hx
    | homeless => exact hx
  | invalid is =>
    cases x with
    | valid a => exact hf
    | homeless => exact hx
    | invalid js =>
      refine ⟨by simp [hf.1], fun i hi => ?_⟩
      exact (List.mem_append.1 hi).elim (hf.2 i) (hx.2 i)

theorem map {x : Check α} (f : α → β) (hx : x.Explained P H) : (x.map f).Explained P H := by
  cases x <;> exact hx

theorem andThen {x : Check α} {f : α → Check β} (hx : x.Explained P H)
    (hf : ∀ a, x = .valid a → (f a).Explained P H) : (x.andThen f).Explained P H := by
  cases x with
  | valid a => exact hf a rfl
  | invalid issues => exact hx
  | homeless => exact hx

theorem inside {x : Check α} (step : Step) (hx : x.Explained P H) :
    (x.inside step).Explained P H := by
  cases x with
  | valid a => trivial
  | homeless => exact hx
  | invalid issues =>
    refine ⟨by simpa using hx.1, fun i hi => ?_⟩
    obtain ⟨j, hj, rfl⟩ := List.mem_map.1 hi
    exact hx.2 j hj

theorem all {cs : List (Check α)} (h : ∀ c ∈ cs, c.Explained P H) : (all cs).Explained P H := by
  induction cs with
  | nil => trivial
  | cons c cs ih =>
    obtain ⟨hc, hcs⟩ := List.forall_mem_cons.1 h
    exact (hc.map _).seq (ih hcs)

theorem list {item : Datum → Check α} {d : Datum}
    (h : ∀ items, d = .list items → ∀ x ∈ items, (item x).Explained x.Contains H) :
    (list item d).Explained d.Contains H := by
  cases d with
  | scalar s => exact complain _ (.self _)
  | map entries => exact complain _ (.self _)
  | list items =>
    refine all fun c hc => ?_
    obtain ⟨i, hi, rfl⟩ := List.mem_mapIdx.1 hc
    have hmem := List.getElem_mem hi
    exact ((h items rfl _ hmem).mono (fun _ hx => .item hmem hx) id).inside _

theorem mapping {item : Datum → Check α} {d : Datum}
    (h : ∀ x, (item x).Explained x.Contains H) : (mapping item d).Explained d.Contains H := by
  cases d with
  | scalar s => exact complain _ (.self _)
  | list items => exact complain _ (.self _)
  | map entries =>
    refine all fun c hc => ?_
    obtain ⟨⟨k, x⟩, hmem, rfl⟩ := List.mem_map.1 hc
    refine seq (map _ ?_) (((h x).mono (fun _ hx => .entry hmem hx) id).inside _)
    cases k with
    | text s => trivial
    | _ => exact ((complain _ (.key hmem)).inside _).inside _

theorem entriesOf {name : String} {d : Datum} {body : List (Scalar × Datum) → Check α}
    (h : ∀ entries, d = .map entries → (body entries).Explained d.Contains H) :
    (entriesOf name d body).Explained d.Contains H := by
  cases d with
  | scalar s => exact complain _ (.self _)
  | list items => exact complain _ (.self _)
  | map entries => exact h entries rfl

theorem field {entries : List (Scalar × Datum)} {key : String} {default : α}
    {check : Datum → Check α}
    (h : ∀ d, lookup? (.text key) entries = some d → (check d).Explained d.Contains H) :
    (field entries key default check).Explained (Datum.map entries).Contains H := by
  rw [Check.field]
  cases hd : lookup? (.text key) entries with
  | none => trivial
  | some d =>
    have hmem := Datum.mem_of_lookup?_text hd
    exact ((h d hd).mono (fun _ hx => .entry hmem hx) id).inside _

theorem inSection {body : List (Scalar × Datum) → Check α}
    (h : ∀ entries, (body entries).Explained (Datum.map entries).Contains H) (name : String)
    (d : Datum) : (Check.entriesOf name d body).Explained d.Contains H := by
  refine entriesOf ?_
  rintro entries rfl
  exact h entries

theorem underKey {entries : List (Scalar × Datum)} {key : String} {default : α}
    {check : Datum → Check α} (h : ∀ d, (check d).Explained d.Contains H) :
    (Check.field entries key default check).Explained (Datum.map entries).Contains H :=
  field fun d _ => h d

end Explained

theorem explained_text (d : Datum) : (text d).Explained d.Contains H := by
  unfold text
  split
  case h_1 => trivial
  case h_2 => exact .complain _ (.self _)

theorem eq_text_of_valid {d : Datum} {s : String} (h : text d = .valid s) : d = .text s := by
  unfold text at h
  split at h
  case h_1 =>
    cases h
    rfl
  case h_2 => cases h

theorem explained_oneOf (choices : List (String × α)) (d : Datum) :
    (oneOf choices d).Explained d.Contains H := by
  unfold oneOf
  split
  case h_1 =>
    split
    case h_1 => trivial
    case h_2 => exact .complain _ (.self _)
  case h_2 => exact .complain _ (.self _)

theorem explained_integer (d : Datum) : (integer d).Explained d.Contains H := by
  have hself (c : Complaint) : Explained (α := Int) d.Contains H (complain c d) :=
    .complain c (.self d)
  fun_cases integer d
  all_goals first | exact .valid _ | exact hself _ | split <;> exact hself _

theorem explained_number (d : Datum) : (number d).Explained d.Contains H := by
  fun_cases number d
  all_goals first | exact .valid _ | exact .complain _ (.self _)

theorem explained_optionalLevel (d : Datum) : (optionalLevel d).Explained d.Contains H := by
  fun_cases optionalLevel d
  case case1 => trivial
  case case2 => exact (explained_oneOf _ _).map _

theorem explained_texts (d : Datum) : (texts d).Explained d.Contains H :=
  .list fun _ _ x _ => explained_text x

theorem explained_builder (d : Datum) : (builder d).Explained d.Contains H :=
  .inSection (fun _ => (((((Explained.valid _).seq (.underKey explained_text)).seq
    (.underKey explained_texts)).seq (.underKey explained_texts)).seq
    (.underKey explained_texts)).seq (.underKey explained_texts)) _ d

theorem explained_resolver (d : Datum) : (resolver d).Explained d.Contains H :=
  .inSection (fun _ => ((((Explained.valid _).seq (.underKey fun _ => .mapping explained_texts)).seq
    (.underKey fun d => (explained_texts d).map _)).seq (.underKey explained_texts)).seq
    (.underKey explained_texts)) _ d

theorem explained_classifier (d : Datum) : (classifier d).Explained d.Contains H :=
  .inSection (fun _ => ((((Explained.valid _).seq (.underKey explained_texts)).seq
    (.underKey explained_texts)).seq (.underKey explained_texts)).seq
    (.underKey explained_texts)) _ d

end Check

namespace Coercions

open Check (Explained)

/-- What is assumed of coercions: values of the wanted kind are left as they are, mappings are not
coerced, and what is refused is refused for a part of it. -/
structure Lawful (c : Coercions) : Prop where
  integer_int : ∀ n, c.integer (.int n) = .valid n
  number_float : ∀ x, c.number (.float x) = .valid x
  integer_isMap : ∀ d n, c.integer d = .valid n → d.isMap = false
  number_isMap : ∀ d x, c.number d = .valid x → d.isMap = false
  integer_explained : ∀ d, (c.integer d).Explained d.Contains False
  number_explained : ∀ d, (c.number d).Explained d.Contains False

theorem standard_lawful : standard.Lawful where
  integer_int _ := rfl
  number_float _ := rfl
  integer_isMap d n h := by
    cases d with
    | map entries => cases h
    | _ => rfl
  number_isMap d x h := by
    cases d with
    | map entries => cases h
    | _ => rfl
  integer_explained := Check.explained_integer
  number_explained := Check.explained_number

/-- A path that starts with the name of an account whose home directory is not known. -/
def isHomeless (c : Coercions) (s : String) : Bool :=
  !(Path.ofString s).isAbsolute && (Path.ofString s).parts.head?.any fun first =>
    first.startsWith "~" &&
      match c.home (String.ofList (first.toList.drop 1)) with
      | .directory path => path.startsWith "~"
      | .unknown => true
      | .refused _ => false

variable {c : Coercions} {H : Prop}

theorem explained_expandHome {s : String} {d : Datum} (h : c.isHomeless s = true → H) :
    (c.expandHome d (Path.ofString s)).Explained d.Contains H := by
  rw [expandHome]
  cases hparts : (Path.ofString s).parts with
  | nil => trivial
  | cons first rest =>
    dsimp only
    split
    case isTrue => trivial
    case isFalse hplain =>
      simp only [isHomeless, hparts, List.head?_cons, Option.any_some] at h
      simp only [Bool.or_eq_true, not_or, Bool.not_eq_true, Bool.not_eq_false'] at hplain
      rw [hplain.1, hplain.2] at h
      cases hhome : c.home (String.ofList (first.toList.drop 1)) with
      | refused reason => exact .complain _ (.self _)
      | unknown =>
        rw [hhome] at h
        exact h rfl
      | directory path =>
        rw [hhome] at h
        dsimp only
        split
        case isTrue htilde => exact h htilde
        case isFalse => trivial

theorem explained_destination {d : Datum}
    (h : ∀ s, d = .text s → c.isHomeless s = true → H) :
    (c.destination d).Explained d.Contains H := by
  refine (Check.explained_text d).andThen fun s hs => ?_
  split
  case isTrue => trivial
  case isFalse =>
    refine (explained_expandHome (h s (Check.eq_text_of_valid hs))).andThen fun p _ => ?_
    split
    case isTrue => trivial
    case isFalse => exact .complain _ (.self _)

theorem explained_logOutput {d : Datum}
    (h : ∀ s, d.HasEntry "destination" (.text s) → c.isHomeless s = true → H) :
    (c.logOutput d).Explained d.Contains H := by
  refine .entriesOf ?_
  rintro entries rfl
  refine ((Explained.valid _).seq ?_).seq ?_ |>.seq ?_
  · exact .field fun d _ => Check.explained_oneOf _ d
  · refine .field fun d hd => explained_destination ?_
    rintro s rfl
    exact h s (Datum.hasEntry_of_lookup? hd)
  · exact .field fun d _ => Check.explained_optionalLevel d

theorem explained_logging {d : Datum}
    (h : ∀ items output s, d.HasEntry "outputs" (.list items) → output ∈ items →
      output.HasEntry "destination" (.text s) → c.isHomeless s = true → H) :
    (c.logging d).Explained d.Contains H := by
  refine .entriesOf ?_
  rintro entries rfl
  refine ((Explained.valid _).seq ?_).seq ?_
  · exact .field fun d _ => Check.explained_oneOf _ d
  · refine .field fun d hd => .list ?_
    rintro items rfl output houtput
    exact explained_logOutput fun s =>
      h items output s (Datum.hasEntry_of_lookup? hd) houtput

section

variable (hc : c.Lawful)

include hc

theorem explained_errorRatio (d : Datum) : (c.errorRatio d).Explained d.Contains H := by
  refine (hc.number_explained d).of_false.andThen fun x _ => ?_
  split
  case isTrue => trivial
  case isFalse => exact .complain _ (.self _)

theorem explained_workers (d : Datum) : (c.workers d).Explained d.Contains H := by
  refine (hc.integer_explained d).of_false.andThen fun n _ => ?_
  split
  case isTrue => trivial
  case isFalse => exact .complain _ (.self _)

theorem explained_parsing (d : Datum) : (c.parsing d).Explained d.Contains H :=
  .inSection (fun _ => (Explained.valid _).seq (.underKey (explained_errorRatio hc))) _ d

theorem explained_declarations (d : Datum) : (c.declarations d).Explained d.Contains H :=
  .inSection (fun _ => (Explained.valid _).seq (.underKey fun d =>
    (hc.integer_explained d).of_false)) _ d

theorem explained_engine (d : Datum) : (c.engine d).Explained d.Contains H :=
  .inSection (fun _ => (Explained.valid _).seq (.underKey (explained_workers hc))) _ d

end

end Coercions

/-- Some output of the log is in a home directory that is not known. -/
def Datum.NamesUnknownHome (c : Coercions) (d : Datum) : Prop :=
  ∃ logging items output s, d.HasEntry "logging" logging ∧
    logging.HasEntry "outputs" (.list items) ∧ output ∈ items ∧
    output.HasEntry "destination" (.text s) ∧ c.isHomeless s = true

namespace Coercions

open Check (Explained)

variable {c : Coercions} {entries : List (Scalar × Datum)}

theorem explained_sections (hc : c.Lawful) (entries : List (Scalar × Datum)) :
    (c.sections entries).Explained (Datum.map entries).Contains
      ((Datum.map entries).NamesUnknownHome c) := by
  have hlogging : (Check.field entries "logging" {} c.logging).Explained
      (Datum.map entries).Contains ((Datum.map entries).NamesUnknownHome c) := by
    refine .field fun d hd => explained_logging fun items output s hitems houtput hs hother => ?_
    exact ⟨d, items, output, s, Datum.hasEntry_of_lookup? hd, hitems, houtput, hs, hother⟩
  exact (((((((Explained.valid _).seq hlogging).seq (.underKey (explained_parsing hc))).seq
    (.underKey Check.explained_builder)).seq (.underKey (explained_declarations hc))).seq
    (.underKey Check.explained_resolver)).seq (.underKey Check.explained_classifier)).seq
    (.underKey (explained_engine hc))

theorem contains_of_unexpected {i : Issue} (h : i ∈ Configuration.unexpected entries) :
    (Datum.map entries).Contains i.input := by
  obtain ⟨⟨k, d⟩, hmem, hi⟩ := List.mem_filterMap.1 h
  cases k with
  | text name =>
    simp only [Option.ite_none_left_eq_some, Option.some.injEq] at hi
    rw [← hi.2]
    exact .entry hmem (.self d)
  | _ => cases hi

/-- A refused mapping has at least one issue, and all issues are about parts of it. -/
theorem explained_check (hc : c.Lawful) (entries : List (Scalar × Datum)) :
    (c.check entries).Explained (Datum.map entries).Contains
      ((Datum.map entries).NamesUnknownHome c) := by
  have hsections := explained_sections hc entries
  have hunexpected : ∀ i ∈ Configuration.unexpected entries,
      (Datum.map entries).Contains i.input := fun i hi => contains_of_unexpected hi
  rw [check]
  cases hs : c.sections entries with
  | homeless =>
    rw [hs] at hsections
    exact hsections
  | valid s =>
    cases hu : Configuration.unexpected entries with
    | nil => trivial
    | cons i is =>
      rw [hu] at hunexpected
      exact ⟨List.cons_ne_nil _ _, hunexpected⟩
  | invalid issues =>
    rw [hs] at hsections
    refine ⟨by simp [hsections.1], fun i hi => ?_⟩
    exact (List.mem_append.1 hi).elim (hsections.2 i) (hunexpected i)

end Coercions

end ContractInference
