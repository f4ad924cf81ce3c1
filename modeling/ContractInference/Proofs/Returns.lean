import ContractInference.Proofs.Call

/-!
# Calls that return

The ways in which an operation can return, one constructor for each. A proof about runs that return
goes through these cases and does not see the equations of the calls.
-/

namespace ContractInference.Engine

variable {p : Project} {search : Search} {s s' : EngineState}

theorem isWanted_eq_true_iff {e : Extraction} {schemas : Table String Schema} {b : ImportBinding} :
    isWanted e schemas b = true ↔ b.isTypeOnly = false ∧ Table.hasKey schemas b.localName = false ∧
      b.localName ∈ e.validated := by
  simp [isWanted, and_assoc]

inductive AddsImport (p : Project) (search : Search) (e : Extraction) (path : String)
    (schemas : Table String Schema) (b : ImportBinding) (s : EngineState) :
    Table String Schema → EngineState → Prop
  | passed : isWanted e schemas b = false → AddsImport p search e path schemas b s schemas s
  | found {schema : Schema} {s' : EngineState} : isWanted e schemas b = true →
    (search b.exportedName b.modulePath path).call p s = (.ok (some schema), s') →
    AddsImport p search e path schemas b s (Table.put schemas b.localName schema) s'
  | missed {s' : EngineState} : isWanted e schemas b = true →
    (search b.exportedName b.modulePath path).call p s = (.ok none, s') →
    AddsImport p search e path schemas b s schemas
      (s'.note (fun t => { t with unresolved := t.unresolved + 1 })
        [.unresolved b.exportedName b.modulePath path])

theorem call_addImport_ok_iff {e : Extraction} {path : String}
    {schemas schemas' : Table String Schema} {b : ImportBinding} :
    (addImport search e path schemas b).call p s = (.ok schemas', s') ↔
      AddsImport p search e path schemas b s schemas' s' := by
  rw [call_addImport, call_searchOrReport]
  constructor
  · intro h
    cases hw : isWanted e schemas b with
    | false =>
      rw [hw] at h
      cases h
      exact .passed hw
    | true =>
      rw [hw, if_pos rfl] at h
      rcases hq : (search b.exportedName b.modulePath path).call p s with ⟨_ | _ | _, _⟩ <;>
        rw [hq] at h <;> cases h
      · exact .missed hw hq
      · exact .found hw hq
  · intro h
    cases h with
    | passed hw => simp [hw]
    | found hw hq => simp [hw, hq]
    | missed hw hq => simp [hw, hq]

theorem call_derive_ok_iff {text path : String} {m : SchemaMap} :
    (derive search text path).call p s = (.ok m, s') ↔
      ∃ e schemas, p.extract text path = .ok e ∧ m = e.toMap path schemas ∧
        (e.bindings.foldlM (addImport search e path) e.schemas).call p (s.parsed p text path) =
          (.ok schemas, s') := by
  rw [call_derive]
  constructor
  · intro h
    cases he : p.extract text path with
    | error e =>
      rw [he] at h
      cases h
    | ok e =>
      rw [he] at h
      dsimp only at h
      rcases hf : (e.bindings.foldlM (addImport search e path) e.schemas).call p
          (s.parsed p text path) with ⟨_ | schemas, s₁⟩
      · rw [hf] at h
        cases h
      · rw [hf] at h
        cases h
        exact ⟨e, schemas, rfl, rfl, hf⟩
  · rintro ⟨e, schemas, he, rfl, hf⟩
    rw [he]
    dsimp only
    rw [hf]

inductive Loads (p : Project) (search : Search) (path : String) (s : EngineState) :
    Option SchemaMap → EngineState → Prop
  | hit {m : SchemaMap} : s.cache.get? path = some m →
    Loads p search path s (some m)
      (s.note (fun t => { t with cacheHits := t.cacheHits + 1 }) [.cacheHit path])
  | unreadable {reason : Failure} : s.cache.get? path = none →
    p.files.readText path = .error reason →
    Loads p search path s none (s.note id [.readFailed path reason.message])
  | skipped {text : String} {m : SchemaMap} {s₁ : EngineState} : s.cache.get? path = none →
    p.files.readText path = .ok text →
    (derive search text path).call p (s.enter path) = (.ok m, s₁) →
    s₁.inFlight.cutShort (s.frame path) = true →
    Loads p search path s (some m) ((s₁.exit (s.frame path)).note id [.cacheSkipped path])
  | stored {text : String} {m : SchemaMap} {s₁ : EngineState} : s.cache.get? path = none →
    p.files.readText path = .ok text →
    (derive search text path).call p (s.enter path) = (.ok m, s₁) →
    s₁.inFlight.cutShort (s.frame path) = false →
    Loads p search path s (some (s₁.cache.putIfAbsent path m).1)
      { s₁.exit (s.frame path) with cache := (s₁.cache.putIfAbsent path m).2 }

theorem call_load_ok_iff {path : String} {found : Option SchemaMap} :
    (load search path).call p s = (.ok found, s') ↔ Loads p search path s found s' := by
  rw [call_load]
  constructor
  · intro h
    cases hm : s.cache.get? path with
    | some m =>
      rw [hm] at h
      cases h
      exact .hit hm
    | none =>
      rw [hm] at h
      dsimp only at h
      cases hr : p.files.readText path with
      | error reason =>
        rw [hr] at h
        cases h
        exact .unreadable hm hr
      | ok text =>
        rw [hr] at h
        dsimp only at h
        rcases hd : (derive search text path).call p (s.enter path) with ⟨_ | m, s₁⟩
        · rw [hd] at h
          cases h
        · rw [hd] at h
          dsimp only at h
          cases hcut : s₁.inFlight.cutShort (s.frame path) with
          | true =>
            rw [hcut] at h
            cases h
            exact .skipped hm hr hd hcut
          | false =>
            rw [hcut] at h
            cases h
            exact .stored hm hr hd hcut
  · intro h
    cases h with
    | hit hm => rw [hm]
    | unreadable hm hr => rw [hm, hr]
    | skipped hm hr hd hcut =>
      rw [hm, hr]
      dsimp only
      rw [hd]
      dsimp only
      rw [hcut, if_pos rfl]
    | stored hm hr hd hcut =>
      rw [hm, hr]
      dsimp only
      rw [hd]
      dsimp only
      rw [hcut, if_neg Bool.false_ne_true]

inductive SearchesMap (p : Project) (load : String → Engine (Option SchemaMap)) (search : Search)
    (name path : String) (s : EngineState) : Option Schema → EngineState → Prop
  | unreadable {s' : EngineState} : (load path).call p s = (.ok none, s') →
    SearchesMap p load search name path s none s'
  | found {m : SchemaMap} {schema : Schema} {s' : EngineState} :
    (load path).call p s = (.ok (some m), s') → m.get? name = some schema →
    SearchesMap p load search name path s (some schema) s'
  | followed {m : SchemaMap} {found : Option Schema} {s₁ s' : EngineState} :
    (load path).call p s = (.ok (some m), s₁) → m.get? name = none →
    (followReExports search m name).call p s₁ = (.ok found, s') →
    SearchesMap p load search name path s found s'

theorem call_searchMapBy_ok_iff {load : String → Engine (Option SchemaMap)} {name path : String}
    {found : Option Schema} :
    (searchMapBy load search name path).call p s = (.ok found, s') ↔
      SearchesMap p load search name path s found s' := by
  rw [call_searchMapBy]
  constructor
  · intro h
    rcases hl : (load path).call p s with ⟨_ | _ | m, s₁⟩
    · rw [hl] at h
      cases h
    · rw [hl] at h
      cases h
      exact .unreadable hl
    · rw [hl] at h
      dsimp only at h
      cases hm : m.get? name with
      | some schema =>
        rw [hm] at h
        cases h
        exact .found hl hm
      | none =>
        rw [hm] at h
        exact .followed hl hm h
  · intro h
    cases h with
    | unreadable hl => rw [hl]
    | found hl hm =>
      rw [hl]
      dsimp only
      rw [hm]
    | followed hl hm hf =>
      rw [hl]
      dsimp only
      rw [hm]
      exact hf

inductive SearchesFile (p : Project) (load : String → Engine (Option SchemaMap)) (search : Search)
    (name fromFile path : String) (s : EngineState) : Option Schema → EngineState → Prop
  | met : s.inFlight.contains path = true →
    SearchesFile p load search name fromFile path s none (s.meet path name fromFile)
  | absent : s.inFlight.contains path = false → p.files.isFile path = false →
    SearchesFile p load search name fromFile path s none s
  | opened {found : Option Schema} {s₁ : EngineState} : s.inFlight.contains path = false →
    p.files.isFile path = true →
    (searchMapBy load search name path).call p (s.push path) = (.ok found, s₁) →
    SearchesFile p load search name fromFile path s found (s₁.pop path)

theorem call_searchFileBy_ok_iff {load : String → Engine (Option SchemaMap)}
    {name fromFile path : String} {found : Option Schema} :
    (searchFileBy load search name fromFile path).call p s = (.ok found, s') ↔
      SearchesFile p load search name fromFile path s found s' := by
  rw [call_searchFileBy, call_inFlight]
  constructor
  · intro h
    cases hp : s.inFlight.contains path with
    | true =>
      rw [hp] at h
      cases h
      exact .met hp
    | false =>
      rw [hp, if_neg Bool.false_ne_true] at h
      cases hf : p.files.isFile path with
      | false =>
        rw [hf] at h
        cases h
        exact .absent hp hf
      | true =>
        rw [hf, if_pos rfl] at h
        rcases hm : (searchMapBy load search name path).call p (s.push path) with ⟨_ | _, s₁⟩
        · rw [hm] at h
          cases h
        · rw [hm] at h
          cases h
          exact .opened hp hf hm
  · intro h
    cases h with
    | met hp => rw [hp, if_pos rfl]
    | absent hp hf => rw [hp, hf, if_neg Bool.false_ne_true, if_neg Bool.false_ne_true]
    | opened hp hf hm => rw [hp, hf, hm, if_neg Bool.false_ne_true, if_pos rfl]

theorem call_searchCandidates_ok_iff {name modulePath fromFile : String} {found : Option Schema} :
    (searchCandidates search name modulePath fromFile).call p s = (.ok found, s') ↔
      ∃ candidates,
        Candidates.paths p.settings.resolver modulePath fromFile name p.root = .ok candidates ∧
        (firstFound (searchFile search name fromFile) candidates).call p s = (.ok found, s') := by
  rw [call_searchCandidates]
  cases Candidates.paths p.settings.resolver modulePath fromFile name p.root with
  | error e => simp
  | ok candidates => simp

end ContractInference.Engine
