import ContractInference.Proofs.Session

/-!
# Agreement with the plain search

The plain search has neither a cache nor a chain of files in flight: it reads a file again each
time it comes to it, and on files that import each other it may not end. Its value, where it ends,
is the one that the search to a depth has from some depth on. Where the files have a rank that
falls along every link, the plain search ends and the engine gives its answers, whatever it was
asked before.
-/

namespace ContractInference

namespace Reference

/-- A computation that can fail, and that has no value if its depth does not suffice. -/
abbrev Plain (α : Type) := ExceptT Failure Option α

abbrev Find := String → String → String → Plain (Option Schema)

def ofExcept {α : Type} : Except Failure α → Plain α
  | .ok a => pure a
  | .error e => throw e

def addImport (find : Find) (e : Extraction) (path : String) (schemas : Table String Schema)
    (b : ImportBinding) : Plain (Table String Schema) :=
  if Engine.isWanted e schemas b then do
    match ← find b.exportedName b.modulePath path with
    | some schema => return Table.put schemas b.localName schema
    | none => return schemas
  else return schemas

/-- The map of a text: what the text says by itself, with the schemas of its imports. -/
def derive (p : Project) (find : Find) (text path : String) : Plain SchemaMap := do
  let e ← ofExcept (p.extract text path)
  let schemas ← e.bindings.foldlM (addImport find e path) e.schemas
  return e.toMap path schemas

def follow (find : Find) (name path : String) (r : ReExport) : Plain (Option Schema) :=
  match r.forwards name with
  | some source => find source r.modulePath path
  | none => return none

/-- Looks for a schema in the map of a file, or else where the file forwards its name to. -/
def lookIn (p : Project) (find : Find) (name path : String) : Plain (Option Schema) :=
  match p.files.readText path with
  | .error _ => return none
  | .ok text => do
    let m ← derive p find text path
    match m.get? name with
    | some schema => return some schema
    | none => m.reexports.findSomeM? (follow find name path)

/-- Looks for a schema in the files that a module's name can stand for, through at most `depth`
files in a row. -/
def find (p : Project) : Nat → Find
  | 0 => fun _ _ _ => .mk none
  | depth + 1 => fun name modulePath fromFile => do
    let candidates ← ofExcept (Candidates.paths p.settings.resolver modulePath fromFile name p.root)
    candidates.findSomeM? (lookIn p (find p depth) name)

def map (p : Project) (text path : String) (depth : Nat) : Plain SchemaMap :=
  derive p (find p depth) text path

/-- The answer to a request without a memory. -/
def serve (p : Project) (r : Request) (depth : Nat) : Plain Reply :=
  match r with
  | .scan text path => .map <$> map p text (Path.key path) depth
  | .resolve name modulePath fromFile =>
    .schema <$> find p depth name modulePath (Path.key fromFile)

/-- The computation ends with a value: it has the value from some depth on. -/
def Ends {α : Type} (x : Nat → Plain α) (a : α) : Prop := ∃ n, ∀ depth, n ≤ depth → x depth = pure a

namespace Ends

variable {α β : Type} {x : Nat → Plain α} {a : α}

theorem unique (h : Ends x a) {b : α} (hb : Ends x b) : a = b := by
  obtain ⟨n, hn⟩ := h
  obtain ⟨k, hk⟩ := hb
  have heq : (pure a : Plain α) = pure b :=
    (hn (max n k) (Nat.le_max_left _ _)).symm.trans (hk (max n k) (Nat.le_max_right _ _))
  cases heq
  rfl

protected theorem pure (a : α) : Ends (fun _ => pure a) a := ⟨0, fun _ _ => rfl⟩

theorem bind (h : Ends x a) {f : Nat → α → Plain β} {b : β} (hf : Ends (fun depth => f depth a) b) :
    Ends (fun depth => x depth >>= f depth) b := by
  obtain ⟨n, hn⟩ := h
  obtain ⟨k, hk⟩ := hf
  refine ⟨max n k, fun depth hle => ?_⟩
  dsimp only
  rw [hn depth (by omega), pure_bind]
  exact hk depth (by omega)

theorem map (h : Ends x a) (f : α → β) : Ends (fun depth => f <$> x depth) (f a) := by
  obtain ⟨n, hn⟩ := h
  refine ⟨n, fun depth hle => ?_⟩
  dsimp only
  rw [hn depth hle, map_pure]

theorem of_succ (h : Ends (fun depth => x (depth + 1)) a) : Ends x a := by
  obtain ⟨n, hn⟩ := h
  refine ⟨n + 1, fun depth hle => ?_⟩
  obtain ⟨k, rfl⟩ : ∃ k, depth = k + 1 := ⟨depth - 1, by omega⟩
  exact hn k (by omega)

end Ends

theorem exists_of_map {p : Project} {text path : String} {m : SchemaMap}
    (h : Ends (map p text path) m) :
    ∃ e schemas, p.extract text path = .ok e ∧ m = e.toMap path schemas := by
  obtain ⟨n, hn⟩ := h
  have h := hn n (Nat.le_refl n)
  rw [map, derive] at h
  cases he : p.extract text path with
  | error e =>
    rw [he] at h
    cases h
  | ok e =>
    rw [he] at h
    change (e.bindings.foldlM (addImport (find p n) e path) e.schemas >>= fun schemas =>
      pure (e.toMap path schemas)) = pure m at h
    rcases hf : e.bindings.foldlM (addImport (find p n) e path) e.schemas with _ | _ | schemas
    · rw [hf] at h
      cases h
    · rw [hf] at h
      cases h
    · rw [hf] at h
      cases h
      exact ⟨e, schemas, rfl, rfl⟩

end Reference

/-- A rank of files that falls along every link to a file that is there. -/
structure Ranked (p : Project) (rank : String → Nat) : Prop where
  imports : ∀ {path e b c}, p.Says path e → b ∈ e.bindings →
    p.IsCandidate b.modulePath path b.exportedName c → rank c < rank path
  reexports : ∀ {path e r name c}, p.Says path e → r ∈ e.reexports →
    p.IsCandidate r.modulePath path name c → rank c < rank path

namespace Ranked

variable {p : Project} {rank : String → Nat}

/-- All files that a module's name can stand for rank below the file that asks. -/
def falls (p : Project) (rank : String → Nat) (path modulePath name : String) : Bool :=
  match Candidates.paths p.settings.resolver modulePath path name p.root with
  | .error _ => true
  | .ok candidates => candidates.all fun c => !p.files.isFile c || rank c < rank path

/-- A check of one file. What a relative name can stand for does not depend on the schema that is
asked for, so one name stands for all. -/
def check (p : Project) (rank : String → Nat) (path : String) : Bool :=
  match p.files.readText path with
  | .error _ => true
  | .ok text =>
    match p.extract text path with
    | .error _ => true
    | .ok e =>
      e.bindings.all (fun b => falls p rank path b.modulePath b.exportedName) &&
        e.reexports.all fun r => Candidates.isRelative r.modulePath &&
          falls p rank path r.modulePath ""

theorem lt_of_falls {path modulePath name c : String} (h : falls p rank path modulePath name = true)
    (hc : p.IsCandidate modulePath path name c) : rank c < rank path := by
  obtain ⟨candidates, hcs, hmem, hf⟩ := hc
  rw [falls, hcs] at h
  simpa [hf] using List.all_eq_true.1 h c hmem

theorem isCandidate_of_isRelative {path modulePath name c : String}
    (h : Candidates.isRelative modulePath = true) (hc : p.IsCandidate modulePath path name c)
    (name' : String) : p.IsCandidate modulePath path name' c := by
  obtain ⟨candidates, hcs, hmem, hf⟩ := hc
  refine ⟨candidates, ?_, hmem, hf⟩
  simp only [Candidates.paths, Candidates.generate, h, if_true] at hcs ⊢
  exact hcs

/-- A rank that passes the check at every file falls along every link. -/
theorem of_check (h : ∀ path ∈ p.files.map Prod.fst, check p rank path = true) : Ranked p rank := by
  have hat : ∀ {path e}, p.Says path e →
      (∀ b ∈ e.bindings, falls p rank path b.modulePath b.exportedName = true) ∧
        ∀ r ∈ e.reexports, Candidates.isRelative r.modulePath = true ∧
          falls p rank path r.modulePath "" = true := by
    rintro path e ⟨text, ht, he⟩
    have hmem : path ∈ p.files.map Prod.fst := by
      simpa [Files.isFile, Table.hasKey] using Project.isFile_of_readText ht
    simpa [check, ht, he] using h path hmem
  constructor
  · intro path e b c hs hb hc
    exact lt_of_falls ((hat hs).1 b hb) hc
  · intro path e r name c hs hmem hc
    obtain ⟨hrel, hfalls⟩ := (hat hs).2 r hmem
    exact lt_of_falls hfalls (isCandidate_of_isRelative hrel hc "")

end Ranked

/-- No cycle was met, and what is cached is what the plain search gives. -/
structure Agrees (p : Project) (s : EngineState) : Prop where
  unbroken : s.stats.cyclesBroken = 0
  cached : ∀ {path m}, s.cache.get? path = some m →
    ∃ text, p.files.readText path = .ok text ∧ Reference.Ends (Reference.map p text path) m

namespace Agrees

variable {p : Project} {s s' : EngineState}

theorem congr (h : Agrees p s) (hs : s'.stats.cyclesBroken = s.stats.cyclesBroken)
    (hc : s'.cache = s.cache) : Agrees p s' :=
  ⟨hs.trans h.unbroken, fun hm => h.cached (by rwa [hc] at hm)⟩

theorem parsed (h : Agrees p s) (text path : String) : Agrees p (s.parsed p text path) := by
  obtain ⟨f, new, he, hf, -⟩ := s.parsed_eq_note p text path
  rw [he]
  exact h.congr (hf s.stats) rfl

theorem store (h : Agrees p s) {path text : String} {m : SchemaMap}
    (hr : p.files.readText path = .ok text) (hm : Reference.Ends (Reference.map p text path) m) :
    Agrees p { s with cache := (s.cache.putIfAbsent path m).2 } := by
  refine ⟨h.unbroken, fun {q m'} hq => ?_⟩
  rw [Cache.get?_putIfAbsent] at hq
  split at hq
  · subst q
    cases hp : s.cache.get? path with
    | some kept =>
      rw [hp] at hq
      cases hq
      exact h.cached hp
    | none =>
      rw [hp] at hq
      cases hq
      exact ⟨text, hr, hm⟩
  · exact h.cached hq

end Agrees

namespace Engine

open Reference (Plain Ends)

variable {α β : Type} {p : Project} {rank : String → Nat}

/-- Where the engine returns, the plain computation ends with what it returns. -/
def Matches (p : Project) (P : EngineState → Prop) (x : Engine α) (y : Nat → Plain α) : Prop :=
  ∀ ⦃s a s'⦄, P s → Agrees p s → x.call p s = (.ok a, s') → Ends y a ∧ Agrees p s'

/-- A condition that looks at the chain only. -/
def Stable (p : Project) (P : EngineState → Prop) : Prop := ∀ ⦃s s'⦄, Kept p s s' → P s → P s'

theorem matches_foldlM {P : EngineState → Prop} (hP : Stable p P) {f : β → α → Engine β}
    {g : Nat → β → α → Plain β} (hk : ∀ b a, Keeps p (f b a)) (as : List α)
    (h : ∀ a ∈ as, ∀ b, Matches p P (f b a) (fun depth => g depth b a)) (b : β) :
    Matches p P (as.foldlM f b) (fun depth => as.foldlM (g depth) b) := by
  induction as generalizing b with
  | nil =>
    intro s a s' _ hA hc
    cases hc
    exact ⟨.pure b, hA⟩
  | cons a as ih =>
    intro s r s' hs hA hc
    rw [List.foldlM_cons] at hc
    obtain ⟨b₁, s₁, h₁, h₂⟩ := call_bind_ok p hc
    obtain ⟨hb, hA₁⟩ := h a (by simp) b hs hA h₁
    obtain ⟨hr, hA₂⟩ :=
      ih (fun a' ha' => h a' (by simp [ha'])) b₁ (hP ((hk b a).of_call h₁) hs) hA₁ h₂
    simp only [List.foldlM_cons]
    exact ⟨hb.bind hr, hA₂⟩

theorem matches_firstFound {P : EngineState → Prop} (hP : Stable p P)
    {place : α → Engine (Option Schema)} {place' : Nat → α → Plain (Option Schema)}
    (hk : ∀ a, Keeps p (place a)) (as : List α)
    (h : ∀ a ∈ as, Matches p P (place a) (fun depth => place' depth a)) :
    Matches p P (firstFound place as) (fun depth => as.findSomeM? (place' depth)) := by
  induction as with
  | nil =>
    intro s a s' _ hA hc
    cases hc
    exact ⟨.pure none, hA⟩
  | cons a as ih =>
    intro s r s' hs hA hc
    rw [call_firstFound_cons] at hc
    simp only [List.findSomeM?_cons]
    rcases ha : (place a).call p s with ⟨_ | _ | schema, s₁⟩
    · rw [ha] at hc
      cases hc
    · rw [ha] at hc
      obtain ⟨hb, hA₁⟩ := h a (by simp) hs hA ha
      obtain ⟨hr, hA₂⟩ :=
        ih (fun a' ha' => h a' (by simp [ha'])) (hP ((hk a).of_call ha) hs) hA₁ hc
      exact ⟨hb.bind hr, hA₂⟩
    · rw [ha] at hc
      cases hc
      obtain ⟨hb, hA₁⟩ := h a (by simp) hs hA ha
      exact ⟨hb.bind (.pure (some schema)), hA₁⟩

/-- The files in flight are there and have at least a rank. -/
def InFlightFrom (p : Project) (rank : String → Nat) (n : Nat) (s : EngineState) : Prop :=
  ∀ q, s.inFlight.contains q = true → p.files.isFile q = true ∧ n ≤ rank q

/-- The files in flight are there and rank above all files that a name can stand for. -/
def Clear (p : Project) (rank : String → Nat) (name modulePath fromFile : String)
    (s : EngineState) : Prop :=
  ∀ q, s.inFlight.contains q = true → p.files.isFile q = true ∧
    ∀ c, p.IsCandidate modulePath fromFile name c → rank c < rank q

theorem stable_inFlightFrom (n : Nat) : Stable p (InFlightFrom p rank n) := by
  intro s s' hk hs q hq
  rw [hk.contains] at hq
  exact hs q hq

theorem stable_clear (name modulePath fromFile : String) :
    Stable p (Clear p rank name modulePath fromFile) := by
  intro s s' hk hs q hq
  rw [hk.contains] at hq
  exact hs q hq

theorem InFlightFrom.clear {path name modulePath : String} {s : EngineState}
    (hs : InFlightFrom p rank (rank path) s)
    (hc : ∀ c, p.IsCandidate modulePath path name c → rank c < rank path) :
    Clear p rank name modulePath path s := by
  intro q hq
  obtain ⟨hf, hle⟩ := hs q hq
  exact ⟨hf, fun c hcand => Nat.lt_of_lt_of_le (hc c hcand) hle⟩

theorem InFlightFrom.push {path : String} {s : EngineState} (hf : p.files.isFile path = true)
    (hs : ∀ q, s.inFlight.contains q = true → p.files.isFile q = true ∧ rank path ≤ rank q) :
    InFlightFrom p rank (rank path) (s.push path) := by
  intro q hq
  rw [EngineState.push, InFlight.contains_add] at hq
  simp only [Bool.or_eq_true, decide_eq_true_eq] at hq
  rcases hq with rfl | hq
  · exact ⟨hf, Nat.le_refl _⟩
  · exact hs q hq

section

variable {search : Search} (hr : Ranked p rank)
  (hk : ∀ name modulePath fromFile, Keeps p (search name modulePath fromFile))
  (hs : ∀ name modulePath fromFile, Matches p (Clear p rank name modulePath fromFile)
    (search name modulePath fromFile)
    (fun depth => Reference.find p depth name modulePath fromFile))
include hr hk hs

omit hk in
theorem matches_addImport {path : String} {e : Extraction} (he : p.Says path e)
    {b : ImportBinding} (hb : b ∈ e.bindings) (schemas : Table String Schema) :
    Matches p (InFlightFrom p rank (rank path)) (addImport search e path schemas b)
      (fun depth => Reference.addImport (Reference.find p depth) e path schemas b) := by
  intro s a s' hP hA hc
  have hclear : Clear p rank b.exportedName b.modulePath path s :=
    hP.clear fun c hcand => hr.imports he hb hcand
  simp only [Reference.addImport]
  cases call_addImport_ok_iff.1 hc with
  | passed hw =>
    simp only [hw, Bool.false_eq_true, if_false]
    exact ⟨.pure schemas, hA⟩
  | @found schema _ hw hq =>
    obtain ⟨hf, hA₁⟩ := hs _ _ _ hclear hA hq
    simp only [hw, if_true]
    exact ⟨hf.bind (.pure (Table.put schemas b.localName schema)), hA₁⟩
  | missed hw hq =>
    obtain ⟨hf, hA₁⟩ := hs _ _ _ hclear hA hq
    simp only [hw, if_true]
    exact ⟨hf.bind (.pure schemas), hA₁.congr rfl rfl⟩

theorem matches_derive {text path : String} (ht : p.files.readText path = .ok text) :
    Matches p (InFlightFrom p rank (rank path)) (derive search text path)
      (Reference.map p text path) := by
  intro s m s' hP hA hc
  obtain ⟨e, schemas, he, rfl, hf⟩ := call_derive_ok_iff.1 hc
  have hP₁ := stable_inFlightFrom (rank path) (.parsed p s text path) hP
  obtain ⟨hg, hA₁⟩ := matches_foldlM (stable_inFlightFrom (rank path))
    (keeps_addImport hk e path) e.bindings
    (fun b hb schemas => matches_addImport hr hs ⟨text, ht, he⟩ hb schemas) e.schemas
    hP₁ (hA.parsed text path) hf
  have hmap : Ends (fun depth => e.bindings.foldlM
      (Reference.addImport (Reference.find p depth) e path) e.schemas >>= fun schemas =>
        pure (e.toMap path schemas)) (e.toMap path schemas) := hg.bind (.pure _)
  obtain ⟨n, hn⟩ := hmap
  refine ⟨⟨n, fun depth hle => ?_⟩, hA₁⟩
  rw [Reference.map, Reference.derive, he]
  exact hn depth hle

/-- A file that is read on the way has the map that the plain search gives it. -/
theorem load_agrees {path : String} {s s' : EngineState} {found : Option SchemaMap}
    (hP : InFlightFrom p rank (rank path) s) (hA : Agrees p s)
    (hc : (load search path).call p s = (.ok found, s')) :
    Agrees p s' ∧
      ((found = none ∧ ∃ e, p.files.readText path = .error e) ∨
        ∃ m text, found = some m ∧ p.files.readText path = .ok text ∧
          Ends (Reference.map p text path) m) := by
  have hderive : ∀ {text m s₁}, p.files.readText path = .ok text →
      (derive search text path).call p (s.enter path) = (.ok m, s₁) →
      Ends (Reference.map p text path) m ∧ Agrees p s₁ := fun ht hd =>
    matches_derive hr hk hs ht (s := s.enter path) hP (hA.congr rfl rfl) hd
  cases call_load_ok_iff.1 hc with
  | hit hm =>
    obtain ⟨text, ht, hmap⟩ := hA.cached hm
    exact ⟨hA.congr rfl rfl, .inr ⟨_, text, rfl, ht, hmap⟩⟩
  | unreadable _ ht => exact ⟨hA.congr rfl rfl, .inl ⟨rfl, _, ht⟩⟩
  | skipped _ ht hd _ =>
    obtain ⟨hmap, hA₁⟩ := hderive ht hd
    exact ⟨hA₁.congr rfl rfl, .inr ⟨_, _, rfl, ht, hmap⟩⟩
  | @stored text m s₁ _ ht hd _ =>
    obtain ⟨hmap, hA₁⟩ := hderive ht hd
    have hA₂ : Agrees p (s₁.exit (s.frame path)) := hA₁.congr rfl rfl
    refine ⟨hA₂.store ht hmap, .inr ⟨_, text, rfl, ht, ?_⟩⟩
    rw [Cache.putIfAbsent_fst]
    -- An entry that is there already wins, but it was made from the same text.
    cases hkept : s₁.cache.get? path with
    | none => exact hmap
    | some kept =>
      obtain ⟨text', ht', hmap'⟩ := hA₁.cached hkept
      rw [ht] at ht'
      cases ht'
      exact hmap'

omit hk in
theorem matches_follow {path : String} {e : Extraction} (he : p.Says path e) {r : ReExport}
    (hmem : r ∈ e.reexports) (name : String) :
    Matches p (InFlightFrom p rank (rank path))
      (match r.forwards name with
        | some source => search source r.modulePath path
        | none => return none)
      (fun depth => Reference.follow (Reference.find p depth) name path r) := by
  intro s a s' hP hA hc
  simp only [Reference.follow]
  cases hf : r.forwards name with
  | none =>
    rw [hf] at hc
    cases hc
    exact ⟨.pure none, hA⟩
  | some source =>
    rw [hf] at hc
    exact hs source r.modulePath path (hP.clear fun c hcand => hr.reexports he hmem hcand) hA hc

theorem matches_searchMap (name path : String) :
    Matches p (InFlightFrom p rank (rank path)) (searchMapBy (load search) search name path)
      (fun depth => Reference.lookIn p (Reference.find p depth) name path) := by
  intro s a s' hP hA hc
  simp only [Reference.lookIn]
  cases call_searchMapBy_ok_iff.1 hc with
  | unreadable hl =>
    obtain ⟨hA₁, ⟨-, e, he⟩ | ⟨m, -, hnone, -⟩⟩ := load_agrees hr hk hs hP hA hl
    · simp only [he]
      exact ⟨.pure none, hA₁⟩
    · cases hnone
  | found hl hm =>
    obtain ⟨hA₁, ⟨hnone, -⟩ | ⟨m, text, hsome, ht, hmap⟩⟩ := load_agrees hr hk hs hP hA hl
    · cases hnone
    · cases hsome
      simp only [ht]
      refine ⟨hmap.bind ?_, hA₁⟩
      simp only [hm]
      exact .pure _
  | followed hl hm hf =>
    obtain ⟨hA₁, ⟨hnone, -⟩ | ⟨m, text, hsome, ht, hmap⟩⟩ := load_agrees hr hk hs hP hA hl
    · cases hnone
    · cases hsome
      obtain ⟨e, schemas, he, rfl⟩ := Reference.exists_of_map hmap
      obtain ⟨hfound, hA₂⟩ := matches_firstFound (stable_inFlightFrom (rank path))
        (keeps_follow hk name path) _ (fun r hmem => matches_follow hr hs ⟨text, ht, he⟩ hmem name)
        (stable_inFlightFrom _ ((keeps_load hk path).of_call hl) hP) hA₁ hf
      simp only [ht]
      refine ⟨hmap.bind ?_, hA₂⟩
      simp only [hm]
      exact hfound

theorem matches_searchFile {name modulePath fromFile path : String} {candidates : List String}
    (hcs : Candidates.paths p.settings.resolver modulePath fromFile name p.root = .ok candidates)
    (hmem : path ∈ candidates) :
    Matches p (Clear p rank name modulePath fromFile) (searchFile search name fromFile path)
      (fun depth => Reference.lookIn p (Reference.find p depth) name path) := by
  intro s a s' hP hA hc
  cases call_searchFileBy_ok_iff.1 hc with
  | met hin =>
    -- A candidate in flight would rank below itself.
    obtain ⟨hf, hlt⟩ := hP path hin
    exact absurd (hlt path ⟨candidates, hcs, hmem, hf⟩) (Nat.lt_irrefl _)
  | absent _ hf =>
    simp only [Reference.lookIn]
    cases ht : p.files.readText path with
    | error e => exact ⟨.pure none, hA⟩
    | ok text =>
      rw [Project.isFile_of_readText ht] at hf
      cases hf
  | opened _ hf hm =>
    have hpush : InFlightFrom p rank (rank path) (s.push path) :=
      InFlightFrom.push hf fun q hq =>
        ⟨(hP q hq).1, Nat.le_of_lt ((hP q hq).2 path ⟨candidates, hcs, hmem, hf⟩)⟩
    obtain ⟨hl, hA₁⟩ := matches_searchMap hr hk hs name path hpush (hA.congr rfl rfl) hm
    exact ⟨hl, hA₁.congr rfl rfl⟩

theorem matches_searchCandidates (name modulePath fromFile : String) :
    Matches p (Clear p rank name modulePath fromFile)
      (searchCandidates search name modulePath fromFile)
      (fun depth => Reference.find p depth name modulePath fromFile) := by
  intro s a s' hP hA hc
  obtain ⟨candidates, hcs, hf⟩ := call_searchCandidates_ok_iff.1 hc
  obtain ⟨hfound, hA₁⟩ := matches_firstFound (stable_clear name modulePath fromFile)
    (keeps_searchFile hk name fromFile) candidates
    (fun c hmem => matches_searchFile hr hk hs hcs hmem) hP hA hf
  refine ⟨.of_succ ?_, hA₁⟩
  simp only [Reference.find, hcs]
  exact hfound

end

theorem matches_searchTo (hr : Ranked p rank) (depth : Nat) (name modulePath fromFile : String) :
    Matches p (Clear p rank name modulePath fromFile) (searchTo depth name modulePath fromFile)
      (fun depth => Reference.find p depth name modulePath fromFile) := by
  induction depth generalizing name modulePath fromFile with
  | zero =>
    intro s a s' _ _ hc
    cases hc
  | succ depth ih => exact matches_searchCandidates hr (keeps_searchTo depth) ih _ _ _

theorem matches_search (hr : Ranked p rank) (name modulePath fromFile : String) :
    Matches p (Clear p rank name modulePath fromFile) (search name modulePath fromFile)
      (fun depth => Reference.find p depth name modulePath fromFile) := by
  intro s a s' hP hA hc
  rw [call_search] at hc
  exact matches_searchTo hr _ _ _ _ hP hA hc

theorem serve_agrees (hr : Ranked p rank) {r : Request} (hd : r.FromDisk p) {s s' : EngineState}
    {a : Reply} (hs : s.Idle ∧ Agrees p s) (hc : r.serve.call p s = (.ok a, s')) :
    Ends (Reference.serve p r) a ∧ s'.Idle ∧ Agrees p s' := by
  obtain ⟨hidle, hA⟩ := hs
  cases r with
  | scan text path =>
    obtain ⟨m, hm, rfl⟩ := call_map_ok hc
    obtain ⟨s₁, h₁, rfl⟩ := call_scanFile_ok hm
    have hP : InFlightFrom p rank (rank (Path.key path)) (s.push (Path.key path)) :=
      InFlightFrom.push (Project.isFile_of_readText hd) fun q hq => by simp [hidle.contains] at hq
    obtain ⟨hmap, hA₁⟩ :=
      matches_derive hr keeps_search (matches_search hr) hd hP (hA.congr rfl rfl) h₁
    exact ⟨hmap.map Reply.map, idle_scanFile hidle hm,
      (hA₁.congr rfl rfl : Agrees p (s₁.pop _)).store hd hmap⟩
  | resolve name modulePath fromFile =>
    obtain ⟨found, hf, rfl⟩ := call_map_ok hc
    obtain ⟨s₁, f, new, h₁, rfl, hb⟩ := call_resolveSchema_ok hf
    obtain ⟨hfind, hA₁⟩ :=
      matches_search hr _ _ _ (fun q hq => by simp [hidle.contains] at hq) hA h₁
    exact ⟨hfind.map Reply.schema, idle_resolveSchema hidle hf, hA₁.congr (hb _) rfl⟩

/-- On files with a rank, an engine that has answered any requests has answered them as the plain
search does. -/
theorem session_eq_reference (hr : Ranked p rank) {requests : List Request}
    (hd : ∀ r ∈ requests, r.FromDisk p) {replies : List Reply} {s : EngineState}
    (hc : (session requests).call p {} = (.ok replies, s)) :
    List.Forall₂ (fun r a => Ends (Reference.serve p r) a) requests replies ∧
      s.stats.cyclesBroken = 0 ∧
      ∀ {path m}, s.cache.get? path = some m →
        ∃ text, p.files.readText path = .ok text ∧ Ends (Reference.map p text path) m := by
  have hstart : ({} : EngineState).Idle ∧ Agrees p {} := ⟨rfl, rfl, fun h => nomatch h⟩
  obtain ⟨⟨-, hA⟩, hall⟩ := session_induction
    (fun r hmem _ _ _ hs h => serve_agrees hr (hd r hmem) hs h) hstart hc
  exact ⟨hall, hA.unbroken, hA.cached⟩

/-- A route that takes a schema through a barrel. -/
def layered : Project :=
  .ofTexts [("/app/a.ts", "import {X} from './b';X.parse(1)"), ("/app/b.ts", "export * from './c'"),
    ("/app/c.ts", "export const X=z.object({})")]

def layeredRequests : List Request :=
  [.scan "import {X} from './b';X.parse(1)" "/app/a.ts", .resolve "X" "./b" "/app/a.ts",
    .scan "import {X} from './b';X.parse(1)" "/app/../app/a.ts"]

theorem session_eq_reference_layered :
    ∃ replies s, (session layeredRequests).call layered {} = (.ok replies, s) ∧
      replies.map Reply.names = [["X"], ["X"], ["X"]] ∧
      List.Forall₂ (fun r a => Ends (Reference.serve layered r) a) layeredRequests replies := by
  have hr : Ranked layered fun path =>
      if path = "/app/a.ts" then 2 else if path = "/app/b.ts" then 1 else 0 :=
    .of_check (by decide +kernel)
  have hd : ∀ r ∈ layeredRequests, r.FromDisk layered := by
    decide +kernel
  have hn : ((session layeredRequests).call layered {}).1.toOption.map (·.map Reply.names) =
      some [["X"], ["X"], ["X"]] := by
    decide +kernel
  rcases hc : (session layeredRequests).call layered {} with ⟨_ | replies, s⟩
  · rw [hc] at hn
    cases hn
  · rw [hc] at hn
    exact ⟨replies, s, rfl, Option.some.inj hn, (session_eq_reference hr hd hc).1⟩

end Engine

end ContractInference
