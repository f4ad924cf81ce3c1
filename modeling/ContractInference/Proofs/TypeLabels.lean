import ContractInference.Declaration
import ContractInference.Language
import Mathlib

/-!
# Labels of declared types

How the text of a type is laid out, on one line or many and with whatever blanks, makes no
difference to the label of a member: the label depends on the words of the text only.
-/

namespace ContractInference

/-- At least one character, and none of them blank. -/
structure IsWord (w : List Char) : Prop where
  ne_nil : w ≠ []
  solid : ∀ c ∈ w, isBlank c = false

/-- The text has these words in this order, with blanks between them and any blanks around them. -/
inductive IsLayout : List (List Char) → List Char → Prop
  | nil : IsLayout [] []
  | blank {ws : List (List Char)} {c : Char} {cs : List Char} (hc : isBlank c = true)
      (h : IsLayout ws cs) : IsLayout ws (c :: cs)
  | last {w : List Char} (hw : IsWord w) : IsLayout [w] w
  | word {ws : List (List Char)} {w : List Char} {c : Char} {cs : List Char} (hw : IsWord w)
      (hc : isBlank c = true) (h : IsLayout ws cs) : IsLayout (w :: ws) (w ++ c :: cs)

variable {ws : List (List Char)} {cs : List Char}

theorem IsLayout.isWord (h : IsLayout ws cs) : ∀ w ∈ ws, IsWord w := by
  induction h with
  | nil => simp
  | blank _ _ ih => exact ih
  | last hw => simpa using hw
  | word hw _ _ ih => exact List.forall_mem_cons.2 ⟨hw, ih⟩

theorem wordsAux_append {w : List Char} (hw : ∀ c ∈ w, isBlank c = false)
    (current cs : List Char) : wordsAux current (w ++ cs) = wordsAux (w.reverse ++ current) cs := by
  induction w generalizing current with
  | nil => rfl
  | cons c w ih =>
    obtain ⟨hc, hw⟩ := List.forall_mem_cons.1 hw
    rw [List.cons_append, wordsAux, hc, if_neg Bool.false_ne_true, ih hw, List.reverse_cons,
      List.append_assoc, List.singleton_append]

theorem IsLayout.words_eq (h : IsLayout ws cs) : words cs = ws := by
  induction h with
  | nil => rfl
  | blank hc _ ih => rw [words, wordsAux, if_pos hc, if_pos List.isEmpty_nil, ← words, ih]
  | @last w hw =>
    have haux := wordsAux_append hw.solid [] []
    rw [List.append_nil, List.append_nil] at haux
    simp [words, haux, wordsAux, hw.ne_nil]
  | word hw hc _ ih =>
    rw [words, wordsAux_append hw.solid, List.append_nil, wordsAux, if_pos hc,
      if_neg (by simpa using hw.ne_nil), List.reverse_reverse, ← words, ih]

theorem isLayout_wordsAux {current : List Char} (h : ∀ c ∈ current, isBlank c = false) :
    IsLayout (wordsAux current cs) (current.reverse ++ cs) := by
  have hword : ∀ {w : List Char}, ¬ w.isEmpty = true → (∀ c ∈ w, isBlank c = false) →
      IsWord w.reverse := fun hne hsolid =>
    ⟨by simpa using hne, fun c hc => hsolid c (List.mem_reverse.1 hc)⟩
  fun_induction wordsAux current cs with
  | case1 current hempty =>
    rw [List.isEmpty_iff.1 hempty]
    exact .nil
  | case2 current hempty =>
    rw [List.append_nil]
    exact .last (hword hempty h)
  | case3 current c cs hc hempty ih =>
    rw [List.isEmpty_iff.1 hempty]
    exact .blank hc (ih (by simp))
  | case4 current c cs hc hempty ih => exact .word (hword hempty h) hc (ih (by simp))
  | case5 current c cs hc ih =>
    have hnext := ih (List.forall_mem_cons.2 ⟨Bool.eq_false_iff.2 hc, h⟩)
    rwa [List.reverse_cons, List.append_assoc, List.singleton_append] at hnext

theorem words_eq_iff : words cs = ws ↔ IsLayout ws cs := by
  constructor
  · rintro rfl
    exact isLayout_wordsAux (by simp)
  · exact IsLayout.words_eq

theorem isLayout_intercalate (h : ∀ w ∈ ws, IsWord w) :
    IsLayout ws (List.intercalate [' '] ws) := by
  induction ws with
  | nil => exact .nil
  | cons w ws ih =>
    obtain ⟨hw, hws⟩ := List.forall_mem_cons.1 h
    cases ws with
    | nil =>
      rw [List.intercalate_singleton]
      exact .last hw
    | cons v ws =>
      rw [List.intercalate_cons_cons, List.append_assoc, List.singleton_append]
      exact .word hw (by decide) (ih hws)

theorem intercalate_ne_nil (hws : ws ≠ []) (h : ∀ w ∈ ws, IsWord w) :
    List.intercalate [' '] ws ≠ [] := by
  intro hnil
  have hlayout := isLayout_intercalate h
  rw [hnil] at hlayout
  exact hws hlayout.words_eq.symm

/-- Every blank is a space, and no two blanks are neighbours. -/
structure IsTidy (cs : List Char) : Prop where
  space : ∀ c ∈ cs, isBlank c = true → c = ' '
  apart : cs.IsChain fun c d => ¬ (isBlank c = true ∧ isBlank d = true)

theorem IsTidy.take (h : IsTidy cs) (n : Nat) : IsTidy (cs.take n) where
  space c hc := h.space c (List.mem_of_mem_take hc)
  apart := h.apart.take n

theorem IsWord.isTidy {w : List Char} (hw : IsWord w) : IsTidy w where
  space c hc hblank := by
    rw [hw.solid c hc] at hblank
    cases hblank
  apart := by
    refine (List.pairwise_of_forall_mem_list fun c hc d _ => ?_).isChain
    simp [hw.solid c hc]

theorem IsWord.isTidy_append {w : List Char} (hw : IsWord w) (h : IsTidy cs)
    (hhead : ∀ c ∈ cs.head?, isBlank c = false) : IsTidy (w ++ ' ' :: cs) where
  space := by
    rw [List.forall_mem_append, List.forall_mem_cons]
    exact ⟨hw.isTidy.space, fun _ => rfl, h.space⟩
  apart := by
    refine List.isChain_append.2 ⟨hw.isTidy.apart, List.isChain_cons.2 ⟨?_, h.apart⟩, ?_⟩
    · intro c hc
      simp [hhead c hc]
    · intro c hc d _
      simp [hw.solid c (List.mem_of_getLast? hc)]

theorem isTidy_intercalate (h : ∀ w ∈ ws, IsWord w) : IsTidy (List.intercalate [' '] ws) := by
  induction ws with
  | nil => exact ⟨by simp, by simp⟩
  | cons w ws ih =>
    obtain ⟨hw, hws⟩ := List.forall_mem_cons.1 h
    cases ws with
    | nil =>
      rw [List.intercalate_singleton]
      exact hw.isTidy
    | cons v ws =>
      rw [List.intercalate_cons_cons, List.append_assoc, List.singleton_append]
      refine hw.isTidy_append (ih hws) fun c hc => ?_
      -- The joined words start with the first one of them.
      have hv : IsWord v := hws v List.mem_cons_self
      obtain ⟨d, rest, rfl⟩ := List.exists_cons_of_ne_nil hv.ne_nil
      have hhead : (List.intercalate [' '] ((d :: rest) :: ws)).head? = some d := by
        cases ws <;> simp [List.intercalate_cons_cons]
      rw [hhead] at hc
      obtain rfl : d = c := Option.some.inj hc
      exact hv.solid d List.mem_cons_self

namespace Declaration

/-- The text of the type in an annotation. -/
def annotatedText? (a : Node) : Option String := a.namedChildren.head?.map (·.text)

theorem cut_of_nonneg {α : Type} {maxLength : Int} (h : 0 ≤ maxLength) (items : List α) :
    cut maxLength items = items.take maxLength.toNat :=
  if_pos h

theorem memberLabel_eq (maxLength : Int) {a : Node} {text : String}
    (ha : annotatedText? a = some text) (hws : ws ≠ []) (h : IsLayout ws text.toList) :
    memberLabel maxLength (some a) =
      String.ofList (cut maxLength (List.intercalate [' '] ws)) := by
  rw [annotatedText?] at ha
  rw [memberLabel, ha, Option.getD_some, typeLabel, collapseBlanks, h.words_eq]
  split
  · rename_i hnil
    exact absurd hnil (intercalate_ne_nil hws h.isWord)
  · rfl

/-- Annotations whose types have the same words have the same label. A length that is not negative
leaves the first characters of the words with one space between them; a label that was not cut is
its own label. -/
theorem memberLabel_of_isLayout (maxLength : Int) {a b : Node} {x y : String}
    {pieces : List (List Char)} (ha : annotatedText? a = some x) (hb : annotatedText? b = some y)
    (hpieces : pieces ≠ []) (hx : IsLayout pieces x.toList) (hy : IsLayout pieces y.toList) :
    memberLabel maxLength (some a) = memberLabel maxLength (some b) ∧
      (0 ≤ maxLength →
        (memberLabel maxLength (some a)).toList =
            (List.intercalate [' '] pieces).take maxLength.toNat ∧
          ((memberLabel maxLength (some a)).length : Int) ≤ maxLength ∧
          (∀ c d, [c, d] <:+: (memberLabel maxLength (some a)).toList →
            ¬ (isBlank c = true ∧ isBlank d = true)) ∧
          ∀ c ∈ (memberLabel maxLength (some a)).toList, isBlank c = true → c = ' ') ∧
      (((List.intercalate [' '] pieces).length : Int) ≤ maxLength →
        ∀ c : Node, annotatedText? c = some (memberLabel maxLength (some a)) →
          memberLabel maxLength (some c) = memberLabel maxLength (some a)) := by
  have hlabel := memberLabel_eq maxLength ha hpieces hx
  rw [memberLabel_eq maxLength hb hpieces hy, hlabel]
  refine ⟨rfl, fun hmax => ?_, fun hlength c hc => ?_⟩
  · have htidy := (isTidy_intercalate hx.isWord).take maxLength.toNat
    rw [cut_of_nonneg hmax, String.toList_ofList]
    refine ⟨rfl, ?_, fun c d hcd => ?_, htidy.space⟩
    · rw [String.length_ofList, List.length_take]
      omega
    · have hpair := List.IsChain.infix htidy.apart hcd
      exact List.isChain_pair.1 hpair
  · have hcut : cut maxLength (List.intercalate [' '] pieces) = List.intercalate [' '] pieces := by
      rw [cut_of_nonneg (by omega), List.take_of_length_le (by omega)]
    refine memberLabel_eq maxLength hc hpieces ?_
    rw [hcut, String.toList_ofList]
    exact isLayout_intercalate hx.isWord

-- Cutting can leave a space at the end, which a label of the label would not have.
example : typeLabel 15 "Record<string,\n  number>" = "Record<string, " ∧
    typeLabel 15 "Record<string, " = "Record<string," := by
  decide

def annotationOf (type : String) : Node :=
  let text := "interface A \x7b when: " ++ type ++ " \x7d"
  ((Grammar.parse Language.typescript.dialect text).nodes.find? (·.isKind "type_annotation")).getD
    default

def compact : String := "Record<string, Date []>"

/-- The same type on two lines, with blanks of other kinds. -/
def spread : String := "Record<string,\r\n\t\u3000 Date\u00a0[]>"

theorem memberLabel_of_isLayout_spread :
    annotatedText? (annotationOf spread) = some spread ∧
      annotatedText? (annotationOf compact) = some compact ∧
      (∃ pieces, pieces ≠ [] ∧ IsLayout pieces spread.toList ∧ IsLayout pieces compact.toList) ∧
      memberLabel 30 (some (annotationOf spread)) = memberLabel 30 (some (annotationOf compact)) ∧
      memberLabel 30 (some (annotationOf spread)) = compact ∧
      memberLabel 30 (some (annotationOf compact)) = compact := by
  have hspread : annotatedText? (annotationOf spread) = some spread := by decide +kernel
  have hcompact : annotatedText? (annotationOf compact) = some compact := by decide +kernel
  have hx : IsLayout ["Record<string,".toList, "Date".toList, "[]>".toList] spread.toList :=
    words_eq_iff.1 (by decide)
  have hy : IsLayout ["Record<string,".toList, "Date".toList, "[]>".toList] compact.toList :=
    words_eq_iff.1 (by decide)
  obtain ⟨hsame, hfirst, hagain⟩ :=
    memberLabel_of_isLayout 30 hspread hcompact (by simp) hx hy
  have hlabel : memberLabel 30 (some (annotationOf spread)) = compact :=
    String.toList_injective ((hfirst (by decide)).1.trans (by decide))
  have hcompact' := hagain (by decide) (annotationOf compact) (by rw [hlabel, hcompact])
  exact ⟨hspread, hcompact, ⟨_, by simp, hx, hy⟩, hsame, hlabel, hcompact'.trans hlabel⟩

end Declaration

end ContractInference
