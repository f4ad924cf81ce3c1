import Mathlib

/-!
# Computations that may fail

What lists of computations return, and how a result is found from what can be seen of it.
-/

namespace ContractInference

/-- Everything that a computation returns satisfies `P`. -/
def Gives {ε α : Type} (P : α → Prop) (x : Except ε α) : Prop := ∀ a, x = .ok a → P a

namespace Gives

variable {ε α β : Type} {P : α → Prop} {Q : β → Prop}

theorem ok {a : α} (h : P a) : Gives P (.ok a : Except ε α) := by
  rintro _ ⟨⟩
  exact h

theorem bind {x : Except ε α} {f : α → Except ε β} (hx : Gives P x)
    (hf : ∀ a, P a → Gives Q (f a)) : Gives Q (x >>= f) := by
  cases x with
  | error e => rintro _ ⟨⟩
  | ok a => exact hf a (hx a rfl)

theorem bind_any {x : Except ε α} {f : α → Except ε β} (hf : ∀ a, Gives Q (f a)) :
    Gives Q (x >>= f) :=
  bind (P := fun _ => True) (fun _ _ => trivial) fun a _ => hf a

theorem mapM {f : α → Except ε β} {as : List α} (hf : ∀ a ∈ as, Gives Q (f a)) :
    Gives (fun bs => ∀ b ∈ bs, Q b) (as.mapM f) := by
  induction as with
  | nil => exact ok (by simp)
  | cons a as ih =>
    obtain ⟨ha, has⟩ := List.forall_mem_cons.1 hf
    rw [List.mapM_cons]
    refine bind ha fun b hb => bind (ih has) fun bs hbs => ?_
    exact ok (List.forall_mem_cons.2 ⟨hb, hbs⟩)

theorem foldlM {f : α → β → Except ε α} (hf : ∀ a b, P a → Gives P (f a b)) (bs : List β) {a : α}
    (ha : P a) : Gives P (bs.foldlM f a) := by
  induction bs generalizing a with
  | nil => exact ok ha
  | cons b bs ih =>
    rw [List.foldlM_cons]
    exact bind (hf a b ha) fun a' ha' => ih ha'

end Gives

theorem mapM_ok {ε α β : Type} {f : α → Except ε β} {g : α → β} {as : List α}
    (h : ∀ a ∈ as, f a = .ok (g a)) : as.mapM f = .ok (as.map g) := by
  induction as with
  | nil => rfl
  | cons a as ih =>
    obtain ⟨ha, has⟩ := List.forall_mem_cons.1 h
    rw [List.mapM_cons, ha, ih has]
    rfl

theorem mapM_congr {ε α β : Type} {f g : α → Except ε β} {as : List α}
    (h : ∀ a ∈ as, f a = g a) : as.mapM f = as.mapM g := by
  induction as with
  | nil => rfl
  | cons a as ih =>
    obtain ⟨ha, has⟩ := List.forall_mem_cons.1 h
    rw [List.mapM_cons, List.mapM_cons, ha, ih has]

def failure? {ε α : Type} : Except ε α → Option ε
  | .error e => some e
  | .ok _ => none

section

variable {ε α β : Type} {f : α → Except ε β}

theorem forall₂_of_mapM {as : List α} :
    Gives (List.Forall₂ (fun a b => f a = .ok b) as) (as.mapM f) := by
  induction as with
  | nil => exact .ok .nil
  | cons a as ih =>
    rw [List.mapM_cons]
    exact Gives.bind (P := fun b => f a = .ok b) (fun _ h => h) fun b hb =>
      ih.bind fun bs hbs => .ok (.cons hb hbs)

/-- A list of computations fails as the first one that does. -/
theorem mapM_eq_error_iff {as : List α} {e : ε} :
    as.mapM f = .error e ↔ as.findSome? (fun a => failure? (f a)) = some e := by
  induction as with
  | nil => exact iff_of_false (by rintro ⟨⟩) (by rintro ⟨⟩)
  | cons a as ih =>
    rw [List.mapM_cons, List.findSome?_cons]
    cases f a with
    | error e' =>
      exact ⟨fun h => congrArg some (Except.error.inj h),
        fun h => congrArg Except.error (Option.some.inj h)⟩
    | ok b =>
      refine Iff.trans ?_ ih
      cases as.mapM f with
      | error e' => rfl
      | ok bs => exact iff_of_false (by rintro ⟨⟩) (by rintro ⟨⟩)

end

/-- Results that have one view in common fail alike and succeed alike. -/
theorem except_of_map_eq {ε α β γ : Type} {f : α → γ} {g : β → γ} {x : Except ε α} {y : Except ε β}
    (h : f <$> x = g <$> y) :
    (∀ e, x = .error e ↔ y = .error e) ∧ ∀ b, y = .ok b → ∃ a, x = .ok a ∧ f a = g b := by
  cases x with
  | error e =>
    cases y with
    | error e' =>
      cases h
      exact ⟨by simp, by simp⟩
    | ok b => cases h
  | ok a =>
    cases y with
    | error e' => cases h
    | ok b =>
      refine ⟨by simp, ?_⟩
      rintro _ ⟨⟩
      exact ⟨a, rfl, Except.ok.inj h⟩

theorem eq_ok_of_toOption {ε α : Type} {x : Except ε α} {a : α} (h : x.toOption = some a) :
    x = .ok a := by
  cases x with
  | error e => cases h
  | ok a => exact congrArg Except.ok (Option.some.inj h)

theorem exists_of_toOption {ε α β : Type} {x : Except ε α} {view : α → β} {seen : β}
    (h : x.toOption.map view = some seen) : ∃ a, x = .ok a ∧ view a = seen := by
  obtain ⟨a, ha, hseen⟩ := Option.map_eq_some_iff.1 h
  exact ⟨a, eq_ok_of_toOption ha, hseen⟩

theorem exists_of_found {ε α β : Type} {x : Except ε (Option α)} {view : α → β} {seen : β}
    (h : x.toOption.bind (·.map view) = some seen) : ∃ a, x = .ok (some a) ∧ view a = seen := by
  obtain ⟨found, hfound, hview⟩ := Option.bind_eq_some_iff.1 h
  obtain ⟨a, rfl, hseen⟩ := Option.map_eq_some_iff.1 hview
  exact ⟨a, eq_ok_of_toOption hfound, hseen⟩

end ContractInference
