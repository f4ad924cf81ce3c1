import ContractInference.Proofs.Kept

/-!
# Calls that fail

A text can hold an integer that is too long to be written out, and a path template can be one that
cannot be filled in. A search fails with nothing else, as long as it does not run out of depth.
-/

namespace ContractInference

/-- All that a computation can fail with meets a condition. -/
def Throws {α : Type} (E : Failure → Prop) (x : Except Failure α) : Prop :=
  ∀ ⦃e⦄, x = .error e → E e

namespace Throws

variable {α β : Type} {E : Failure → Prop}

theorem ok (a : α) : Throws E (.ok a) := fun _ h => nomatch h

theorem bind {x : Except Failure α} {f : α → Except Failure β} (hx : Throws E x)
    (hf : ∀ a, Throws E (f a)) : Throws E (x >>= f) := by
  cases x with
  | error e =>
    intro e' h
    cases h
    exact hx rfl
  | ok a => exact hf a

theorem map {x : Except Failure α} (hx : Throws E x) (f : α → β) : Throws E (f <$> x) := by
  rw [← bind_pure_comp]
  exact hx.bind fun a => ok (f a)

theorem mapM {f : α → Except Failure β} {as : List α} (hf : ∀ a ∈ as, Throws E (f a)) :
    Throws E (as.mapM f) := by
  induction as with
  | nil => exact ok []
  | cons a as ih =>
    rw [List.mapM_cons]
    refine (hf a (by simp)).bind fun b => ?_
    exact (ih fun a' ha' => hf a' (by simp [ha'])).bind fun bs => ok (b :: bs)

theorem foldlM {f : β → α → Except Failure β} (hf : ∀ b a, Throws E (f b a)) (as : List α)
    (b : β) : Throws E (as.foldlM f b) := by
  induction as generalizing b with
  | nil => exact ok b
  | cons a as ih =>
    rw [List.foldlM_cons]
    exact (hf b a).bind ih

end Throws

/-- The only failure of an extraction: an integer that is too long to be written out. -/
abbrev TooLong {α : Type} (x : Except Failure α) : Prop := Throws (· = .integerTooLong) x

namespace Literal

theorem tooLong_integerText (n : Int) : TooLong (integerText n) := by
  intro e h
  unfold integerText at h
  split at h
  · cases h
  · cases h
    rfl

theorem tooLong_display (v : Literal) : TooLong v.display := by
  cases v with
  | int n => exact tooLong_integerText n
  | _ => exact .ok _

theorem tooLong_json (v : Literal) : TooLong v.json := by
  cases v with
  | int n => exact tooLong_integerText n
  | _ => exact .ok _

theorem tooLong_jsonOfNode? (n : Node) : TooLong (jsonOfNode? n) := by
  unfold jsonOfNode?
  cases ofNode? n with
  | some v => exact (tooLong_json v).map some
  | none =>
    dsimp only
    split
    · exact .ok _
    · split <;> exact .ok _

end Literal

namespace Builder

theorem tooLong_constraint (method : String) (first : Node) (rest : List Node) :
    TooLong (constraintText? method first rest) := by
  unfold constraintText?
  cases Literal.ofNode? first with
  | none => exact .ok _
  | some v =>
    refine (Literal.tooLong_display v).bind fun shown => ?_
    cases rest.head?.bind message? <;> exact .ok _

theorem tooLong_addCall (b : BuilderSettings) (v : Validations) (call : Node) :
    TooLong (addCall b v call) := by
  unfold addCall
  split
  · exact .ok _
  · split
    · split
      · exact .ok _
      · refine (tooLong_constraint _ _ _).bind fun entry => ?_
        cases entry <;> exact .ok _
    · split
      · split
        · exact .ok _
        · refine (Literal.tooLong_jsonOfNode? _).bind fun literal => ?_
          cases literal <;> exact .ok _
      · exact .ok _

theorem tooLong_validations (b : BuilderSettings) (n : Node) : TooLong (validations b n) :=
  .foldlM (tooLong_addCall b) n.calls {}

theorem tooLong_shape (b : BuilderSettings) (n : Node) : TooLong (shape b n) := by
  induction hn : n.size using Nat.strongRecOn generalizing n with
  | ind size ih =>
    subst hn
    rw [shape]
    dsimp only
    split
    · split
      · exact .ok _
      · rename_i ctor hctor
        split
        · exact .ok _
        · rename_i item hitem
          have hlt : item.size < n.size :=
            Nat.lt_of_lt_of_le (size_itemOf_lt hitem) (size_constructorCall?_le hctor)
          exact (ih _ hlt item rfl).bind fun inner => .ok _
      · refine .bind (.mapM fun property _ => ?_) fun fields => .ok _
        exact (tooLong_validations b _).bind fun v =>
          (ih _ (size_property_lt property.2) _ rfl).bind fun inner => .ok _
      · exact .ok _
    · split <;> exact .ok _

theorem tooLong_objectFields (b : BuilderSettings) (n : Node) : TooLong (objectFields b n) := by
  refine .bind (.mapM fun property _ => ?_) fun fields => .ok _
  exact (tooLong_validations b _).bind fun v => (tooLong_shape b _).bind fun inner => .ok _

theorem tooLong_itemLabel (b : BuilderSettings) (ctor : Node) : TooLong (itemLabel b ctor) := by
  unfold itemLabel
  cases itemOf ctor with
  | label t => exact .ok _
  | call item => exact (tooLong_shape b item).bind fun inner => .ok _

theorem tooLong_schema? (b : BuilderSettings) (n : Node) (name : Option String) :
    TooLong (schema? b n name) := by
  unfold schema?
  split
  · split
    · split
      · dsimp only
        split
        · exact (tooLong_objectFields b n).bind fun fields => .ok _
        · split
          · exact .ok _
          · exact (tooLong_itemLabel b _).bind fun item => .ok _
      · exact .ok _
    · exact .ok _
  · exact .ok _

end Builder

namespace Extraction

theorem tooLong_visit (s : Settings) (typed : Bool) (e : Extraction) (n : Node) :
    TooLong (visit s typed e n) := by
  have hdeclared : TooLong (declaredSchema? s.builder n) := by
    unfold declaredSchema?
    split
    · split
      · exact (Builder.tooLong_schema? s.builder _ _).bind fun schema => .ok _
      · exact .ok _
    · exact .ok _
  unfold visit
  split
  · refine hdeclared.bind fun declared => ?_
    cases declared <;> exact .ok _
  · split
    · split <;> exact .ok _
    · split
      · split <;> exact .ok _
      · exact .ok _

theorem tooLong_withDefault (s : Settings) (value : Option Node) (e : Extraction) :
    TooLong (withDefault s value e) := by
  cases value with
  | none => exact .ok _
  | some n =>
    refine (Builder.tooLong_schema? s.builder n _).bind fun schema => ?_
    cases schema <;> exact .ok _

theorem tooLong_ofTree (s : Settings) (tree : SourceTree) : TooLong (ofTree s tree) :=
  .bind (.foldlM (tooLong_visit s _) _ _) fun _ => tooLong_withDefault s _ _

end Extraction

theorem Project.tooLong_extract (p : Project) (text path : String) :
    TooLong (p.extract text path) := by
  unfold extract
  split
  · exact .ok _
  · exact Extraction.tooLong_ofTree p.settings _

/-- Only a template keeps a module's name from having candidates. -/
theorem Candidates.throws_paths (r : ResolverSettings)
    (modulePath fromFile name projectRoot : String) :
    Throws (∃ t, · = .template t) (paths r modulePath fromFile name projectRoot) := by
  refine .map ?_ _
  unfold generate
  dsimp only
  split
  · exact .ok _
  · split
    · intro e h
      unfold Except.mapError at h
      split at h
      · cases h
        exact ⟨_, rfl⟩
      · cases h
    · exact .ok _

/-- What the texts of the files and the path templates make a call fail with. -/
inductive Project.Raises (p : Project) : Failure → Prop
  | extraction {path text : String} {e : Failure} : p.files.readText path = .ok text →
    p.extract text path = .error e → Raises p e
  | candidates {modulePath fromFile name : String} {e : Failure} :
    Candidates.paths p.settings.resolver modulePath fromFile name p.root = .error e → Raises p e

theorem Project.Raises.ne_depthExceeded {p : Project} {e : Failure} (h : p.Raises e) :
    e ≠ .depthExceeded := by
  cases h with
  | extraction _ he =>
    cases p.tooLong_extract _ _ he
    exact nofun
  | candidates he =>
    obtain ⟨t, rfl⟩ := Candidates.throws_paths _ _ _ _ _ he
    exact nofun

namespace Engine

variable {α β : Type} {p : Project} {E : Failure → Prop}

/-- All that a call can fail with meets a condition. -/
def Fails (p : Project) (E : Failure → Prop) (x : Engine α) : Prop :=
  ∀ ⦃s e s'⦄, x.call p s = (.error e, s') → E e

theorem fails_pure (a : α) : Fails p E (pure a : Engine α) := fun _ _ _ hc => nomatch hc

theorem Fails.bind {x : Engine α} {f : α → Engine β} (hx : Fails p E x)
    (hf : ∀ a, Fails p E (f a)) : Fails p E (x >>= f) := by
  intro s e s' hc
  rw [call_bind] at hc
  rcases h : x.call p s with ⟨_ | a, s₁⟩
  · rw [h] at hc
    cases hc
    exact hx h
  · rw [h] at hc
    exact hf a hc

theorem fails_foldlM {f : β → α → Engine β} (hf : ∀ b a, Fails p E (f b a)) (as : List α) (b : β) :
    Fails p E (as.foldlM f b) := by
  induction as generalizing b with
  | nil => exact fails_pure b
  | cons a as ih =>
    rw [List.foldlM_cons]
    exact (hf b a).bind ih

theorem fails_firstFound {place : α → Engine (Option Schema)} (h : ∀ a, Fails p E (place a))
    (as : List α) : Fails p E (firstFound place as) := by
  induction as with
  | nil => exact fails_pure none
  | cons a as ih =>
    refine (h a).bind fun found => ?_
    cases found with
    | some schema => exact fails_pure _
    | none => exact ih

section

variable {search : Search}
  (h : ∀ name modulePath fromFile, Fails p E (search name modulePath fromFile))
include h

theorem fails_searchOrReport (name modulePath fromFile : String) :
    Fails p E (searchOrReport search name modulePath fromFile) := by
  intro s e s' hc
  rw [call_searchOrReport] at hc
  rcases hs : (search name modulePath fromFile).call p s with ⟨_ | _ | _, s₁⟩ <;>
    rw [hs] at hc <;> cases hc
  exact h _ _ _ hs

theorem fails_addImport (e : Extraction) (path : String) (schemas : Table String Schema)
    (b : ImportBinding) : Fails p E (addImport search e path schemas b) := by
  unfold addImport
  split
  · refine (fails_searchOrReport h _ _ _).bind fun found => ?_
    cases found <;> exact fails_pure _
  · exact fails_pure _

theorem fails_derive {text path : String} (he : Throws E (p.extract text path)) :
    Fails p E (derive search text path) := by
  intro s e s' hc
  rw [call_derive] at hc
  cases hx : p.extract text path with
  | error e =>
    rw [hx] at hc
    cases hc
    exact he hx
  | ok x =>
    rw [hx] at hc
    dsimp only at hc
    rcases hf : (x.bindings.foldlM (addImport search x path) x.schemas).call p _ with ⟨_ | _, s₁⟩
    · rw [hf] at hc
      cases hc
      exact fails_foldlM (fails_addImport h x path) _ _ hf
    · rw [hf] at hc
      cases hc

theorem fails_load {path : String}
    (he : ∀ {text}, p.files.readText path = .ok text → Throws E (p.extract text path)) :
    Fails p E (load search path) := by
  intro s e s' hc
  rw [call_load] at hc
  cases hm : s.cache.get? path with
  | some m =>
    rw [hm] at hc
    cases hc
  | none =>
    rw [hm] at hc
    dsimp only at hc
    cases hr : p.files.readText path with
    | error reason =>
      rw [hr] at hc
      cases hc
    | ok text =>
      rw [hr] at hc
      dsimp only at hc
      rcases hd : (derive search text path).call p (s.enter path) with ⟨_ | m, s₁⟩
      · rw [hd] at hc
        cases hc
        exact fails_derive h (he hr) hd
      · rw [hd] at hc
        dsimp only at hc
        split at hc <;> cases hc

theorem fails_followReExports (m : SchemaMap) (name : String) :
    Fails p E (followReExports search m name) := by
  refine fails_firstFound (fun r => ?_) m.reexports
  cases r.forwards name with
  | some source => exact h source r.modulePath m.path
  | none => exact fails_pure none

end

/-- One level of the search fails with what the level below fails with, or with what a text or a
template raises. -/
theorem fails_searchCandidates {search : Search}
    (h : ∀ name modulePath fromFile, Fails p p.Raises (search name modulePath fromFile))
    (name modulePath fromFile : String) :
    Fails p p.Raises (searchCandidates search name modulePath fromFile) := by
  have hmap : ∀ path, Fails p p.Raises (searchMapBy (load search) search name path) := by
    intro path
    refine (fails_load h fun hr _ he => .extraction hr he).bind fun found => ?_
    cases found with
    | none => exact fails_pure none
    | some m =>
      dsimp only
      cases m.get? name with
      | some schema => exact fails_pure _
      | none => exact fails_followReExports h m name
  have hfile : ∀ path, Fails p p.Raises (searchFile search name fromFile path) := by
    intro path s e s' hc
    rw [searchFile_eq, call_searchFileBy, call_inFlight] at hc
    split at hc
    · cases hc
    · split at hc
      · rcases hm : (searchMapBy (load search) search name path).call p (s.push path)
          with ⟨_ | _, s₁⟩
        · rw [hm] at hc
          cases hc
          exact hmap path hm
        · rw [hm] at hc
          cases hc
      · cases hc
  intro s e s' hc
  rw [call_searchCandidates] at hc
  cases hcs : Candidates.paths p.settings.resolver modulePath fromFile name p.root with
  | error e =>
    rw [hcs] at hc
    cases hc
    exact .candidates hcs
  | ok candidates =>
    rw [hcs] at hc
    exact fails_firstFound hfile candidates hc

end Engine

end ContractInference
