import ContractInference.Proofs.Kept
import ContractInference.Proofs.Returns

/-!
# Two runs side by side

A second run follows a first one as long as the states of the two stay related. What the relation
says about the chain and the cache is left open; the steps that look at them are assumed to keep
it, and every search then does.
-/

namespace ContractInference

open Engine

variable {ι α β : Type}

/-- Where the first computation returns with a good state, the second one returns the same from
every related state, and the two stay related. -/
def Mirrors (p : Project) (Rel : ι → EngineState → EngineState → Prop) (Good : EngineState → Prop)
    (x y : Engine α) : Prop :=
  ∀ ⦃i s t a s'⦄, Rel i s t → x.call p s = (.ok a, s') → Good s' →
    ∃ t', y.call p t = (.ok a, t') ∧ Rel i s' t'

/-- A relation that the steps of the engine keep while the first run's state is good. -/
structure Mirror (p : Project) (Rel : ι → EngineState → EngineState → Prop)
    (Good : EngineState → Prop) : Prop where
  good : ∀ {i s t s₁ s₂}, Rel i s t → Kept p s s₁ → Kept p s₁ s₂ → Good s₂ → Good s₁
  good_pop : ∀ {i s t path s₁}, Rel i s t → s.inFlight.contains path = false →
    Kept p (s.push path) s₁ → Good (s₁.pop path) → Good s₁
  note : ∀ {i s t}, Rel i s t → ∀ f new g new', Rel i (s.note f new) (t.note g new')
  meet : ∀ {i s t path name fromFile}, Rel i s t → s.inFlight.contains path = true →
    Good (s.meet path name fromFile) → t.inFlight.contains path = true ∧
      Rel i (s.meet path name fromFile) (t.meet path name fromFile)
  absent : ∀ {i s t path}, Rel i s t → s.inFlight.contains path = false →
    t.inFlight.contains path = false
  push : ∀ {i s t path}, Rel i s t → s.inFlight.contains path = false →
    Rel i (s.push path) (t.push path)
  pop : ∀ {i s t path s₁ t₁}, Rel i s t → s.inFlight.contains path = false →
    Kept p (s.push path) s₁ → Kept p (t.push path) t₁ → Rel i s₁ t₁ →
      Rel i (s₁.pop path) (t₁.pop path)
  load : ∀ {search search' : Search},
    (∀ name modulePath fromFile, Keeps p (search name modulePath fromFile)) →
    (∀ text path, Mirrors p Rel Good (derive search text path) (derive search' text path)) →
    ∀ ⦃i s t path a s'⦄, Rel i s t → s.inFlight.contains path = false →
      (load search path).call p (s.push path) = (.ok a, s') → Good s' →
        ∃ t', (load search' path).call p (t.push path) = (.ok a, t') ∧ Rel i s' t'

namespace Mirror

variable {p : Project} {Rel : ι → EngineState → EngineState → Prop} {Good : EngineState → Prop}

theorem pure (a : α) : Mirrors p Rel Good (Pure.pure a) (Pure.pure a) := by
  intro i s t b s' h hc _
  cases hc
  exact ⟨t, rfl, h⟩

theorem bind (M : Mirror p Rel Good) {x y : Engine α} {f g : α → Engine β} (hx : Keeps p x)
    (hf : ∀ a, Keeps p (f a)) (hxy : Mirrors p Rel Good x y)
    (hfg : ∀ a, Mirrors p Rel Good (f a) (g a)) : Mirrors p Rel Good (x >>= f) (y >>= g) := by
  intro i s t b s' h hc hg
  obtain ⟨a, s₁, h₁, h₂⟩ := call_bind_ok p hc
  have hg₁ : Good s₁ := M.good h (hx.of_call h₁) ((hf a).of_call h₂) hg
  obtain ⟨t₁, ht₁, hr₁⟩ := hxy h h₁ hg₁
  obtain ⟨t₂, ht₂, hr₂⟩ := hfg a hr₁ h₂ hg
  refine ⟨t₂, ?_, hr₂⟩
  rw [call_bind, ht₁]
  exact ht₂

theorem foldlM (M : Mirror p Rel Good) {f g : β → α → Engine β} (hf : ∀ b a, Keeps p (f b a))
    (hfg : ∀ b a, Mirrors p Rel Good (f b a) (g b a)) (as : List α) (b : β) :
    Mirrors p Rel Good (as.foldlM f b) (as.foldlM g b) := by
  induction as generalizing b with
  | nil => exact pure b
  | cons a as ih =>
    rw [List.foldlM_cons, List.foldlM_cons]
    exact M.bind (hf b a) (keeps_foldlM hf as) (hfg b a) ih

theorem firstFound (M : Mirror p Rel Good) {f g : α → Engine (Option Schema)}
    (hf : ∀ a, Keeps p (f a)) (hfg : ∀ a, Mirrors p Rel Good (f a) (g a)) (as : List α) :
    Mirrors p Rel Good (Engine.firstFound f as) (Engine.firstFound g as) := by
  induction as with
  | nil => exact pure none
  | cons a as ih =>
    refine M.bind (hf a) (fun found => ?_) (hfg a) (fun found => ?_)
    · cases found with
      | some schema => exact keeps_pure _
      | none => exact keeps_firstFound hf as
    · cases found with
      | some schema => exact pure _
      | none => exact ih

section

variable (M : Mirror p Rel Good) {search search' : Search}
  (hk : ∀ name modulePath fromFile, Keeps p (search name modulePath fromFile))
  (hk' : ∀ name modulePath fromFile, Keeps p (search' name modulePath fromFile))
  (hs : ∀ name modulePath fromFile,
    Mirrors p Rel Good (search name modulePath fromFile) (search' name modulePath fromFile))
include M hk hs

theorem addImport (e : Extraction) (path : String) (schemas : Table String Schema)
    (b : ImportBinding) :
    Mirrors p Rel Good (Engine.addImport search e path schemas b)
      (Engine.addImport search' e path schemas b) := by
  intro i s t schemas' s' h hc hg
  cases call_addImport_ok_iff.1 hc with
  | passed hw => exact ⟨t, call_addImport_ok_iff.2 (.passed hw), h⟩
  | found hw hq =>
    obtain ⟨t₁, ht₁, hr₁⟩ := hs _ _ _ h hq hg
    exact ⟨t₁, call_addImport_ok_iff.2 (.found hw ht₁), hr₁⟩
  | missed hw hq =>
    have hg₁ := M.good h ((hk _ _ _).of_call hq) (.note p _ _ rfl) hg
    obtain ⟨t₁, ht₁, hr₁⟩ := hs _ _ _ h hq hg₁
    exact ⟨_, call_addImport_ok_iff.2 (.missed hw ht₁), M.note hr₁ _ _ _ _⟩

theorem derive (text path : String) :
    Mirrors p Rel Good (Engine.derive search text path) (Engine.derive search' text path) := by
  intro i s t m s' h hc hg
  obtain ⟨e, schemas, he, hm, hf⟩ := call_derive_ok_iff.1 hc
  have h₁ : Rel i (s.parsed p text path) (t.parsed p text path) := by
    obtain ⟨f, new, hf, -⟩ := s.parsed_eq_note p text path
    obtain ⟨g, new', hg, -⟩ := t.parsed_eq_note p text path
    rw [hf, hg]
    exact M.note h f new g new'
  obtain ⟨t₁, ht₁, hr₁⟩ := M.foldlM (keeps_addImport hk e path) (addImport M hk hs e path)
    e.bindings e.schemas h₁ hf hg
  exact ⟨t₁, call_derive_ok_iff.2 ⟨e, schemas, he, hm, ht₁⟩, hr₁⟩

theorem followReExports (m : SchemaMap) (name : String) :
    Mirrors p Rel Good (Engine.followReExports search m name)
      (Engine.followReExports search' m name) := by
  refine M.firstFound (keeps_follow hk name m.path) (fun r => ?_) m.reexports
  cases r.forwards name with
  | some source => exact hs source r.modulePath m.path
  | none => exact pure none

theorem searchMap {i : ι} {s t s' : EngineState} {name path : String} {found : Option Schema}
    (h : Rel i s t) (hp : s.inFlight.contains path = false)
    (hc : (searchMapBy (Engine.load search) search name path).call p (s.push path) =
      (.ok found, s'))
    (hg : Good s') :
    ∃ t', (searchMapBy (Engine.load search') search' name path).call p (t.push path) =
        (.ok found, t') ∧ Rel i s' t' := by
  have hload := M.load hk (derive M hk hs)
  cases call_searchMapBy_ok_iff.1 hc with
  | unreadable hl =>
    obtain ⟨t₁, ht₁, hr₁⟩ := hload h hp hl hg
    exact ⟨t₁, call_searchMapBy_ok_iff.2 (.unreadable ht₁), hr₁⟩
  | found hl hm =>
    obtain ⟨t₁, ht₁, hr₁⟩ := hload h hp hl hg
    exact ⟨t₁, call_searchMapBy_ok_iff.2 (.found ht₁ hm), hr₁⟩
  | @followed m _ s₁ _ hl hm hf =>
    have hg₁ : Good s₁ := M.good (M.push h hp) ((keeps_load hk path).of_call hl)
      ((keeps_followReExports hk m name).of_call hf) hg
    obtain ⟨t₁, ht₁, hr₁⟩ := hload h hp hl hg₁
    obtain ⟨t₂, ht₂, hr₂⟩ := followReExports M hk hs m name hr₁ hf hg
    exact ⟨t₂, call_searchMapBy_ok_iff.2 (.followed ht₁ hm ht₂), hr₂⟩

include hk'

theorem searchFile (name fromFile path : String) :
    Mirrors p Rel Good (Engine.searchFile search name fromFile path)
      (Engine.searchFile search' name fromFile path) := by
  intro i s t found s' h hc hg
  cases call_searchFileBy_ok_iff.1 hc with
  | met hp =>
    obtain ⟨htp, hr⟩ := M.meet h hp hg
    exact ⟨_, call_searchFileBy_ok_iff.2 (.met htp), hr⟩
  | absent hp hf => exact ⟨t, call_searchFileBy_ok_iff.2 (.absent (M.absent h hp) hf), h⟩
  | opened hp hf hm =>
    have hks := (keeps_searchMapBy hk (keeps_load hk) name path).of_call hm
    obtain ⟨t₁, ht₁, hr₁⟩ := searchMap M hk hs h hp hm (M.good_pop h hp hks hg)
    have hkt := (keeps_searchMapBy hk' (keeps_load hk') name path).of_call ht₁
    exact ⟨_, call_searchFileBy_ok_iff.2 (.opened (M.absent h hp) hf ht₁),
      M.pop h hp hks hkt hr₁⟩

theorem searchCandidates (name modulePath fromFile : String) :
    Mirrors p Rel Good (Engine.searchCandidates search name modulePath fromFile)
      (Engine.searchCandidates search' name modulePath fromFile) := by
  intro i s t found s' h hc hg
  obtain ⟨candidates, hcs, hf⟩ := call_searchCandidates_ok_iff.1 hc
  obtain ⟨t', ht', hr⟩ := M.firstFound (keeps_searchFile hk name fromFile)
    (searchFile M hk hk' hs name fromFile) candidates h hf hg
  exact ⟨t', call_searchCandidates_ok_iff.2 ⟨candidates, hcs, ht'⟩, hr⟩

end

theorem searchTo (M : Mirror p Rel Good) {depth depth' : Nat} (hd : depth ≤ depth')
    (name modulePath fromFile : String) :
    Mirrors p Rel Good (Engine.searchTo depth name modulePath fromFile)
      (Engine.searchTo depth' name modulePath fromFile) := by
  induction depth generalizing depth' name modulePath fromFile with
  | zero =>
    intro i s t found s' _ hc
    cases hc
  | succ depth ih =>
    obtain ⟨below, rfl⟩ : ∃ below, depth' = below + 1 := ⟨depth' - 1, by omega⟩
    exact searchCandidates M (keeps_searchTo depth) (keeps_searchTo below) (ih (by omega)) _ _ _

theorem search (M : Mirror p Rel Good) {depth : Nat} (hd : depth ≤ p.files.length + 1)
    (name modulePath fromFile : String) :
    Mirrors p Rel Good (Engine.searchTo depth name modulePath fromFile)
      (Engine.search name modulePath fromFile) := by
  intro i s t found s' h hc hg
  rw [call_search]
  exact M.searchTo hd name modulePath fromFile h hc hg

theorem search_self (M : Mirror p Rel Good) (name modulePath fromFile : String) :
    Mirrors p Rel Good (Engine.search name modulePath fromFile)
      (Engine.search name modulePath fromFile) := by
  intro i s t found s' h hc hg
  rw [call_search] at hc
  exact M.search (Nat.le_refl _) name modulePath fromFile h hc hg

end Mirror

end ContractInference
