import ContractInference.Proofs.Invariant
import ContractInference.Proofs.Session
import ContractInference.Proofs.Tables
import Mathlib.Data.Set.Insert

/-!
# The engine without a cache

The same engine, except that it reads a file again each time it comes to it. What it finds does
not depend on what it was asked before: links lead to it that do not come to a file twice.
-/

namespace ContractInference

namespace Extraction

/-- The name that a file's map has for what the file offers under a name. -/
def keyOf (e : Extraction) (name : String) : String :=
  match e.defaultExport with
  | some d => if name == "default" then d else name
  | none => name

theorem get?_toMap (e : Extraction) (path : String) (schemas : Table String Schema)
    (name : String) : (e.toMap path schemas).get? name = Table.get? schemas (e.keyOf name) := by
  unfold SchemaMap.get? keyOf
  simp only [toMap]
  cases e.defaultExport with
  | none => rfl
  | some d =>
    dsimp only
    split <;> rfl

/-- An import whose schema is looked for, unless its name has one. -/
def Follows (e : Extraction) (b : ImportBinding) : Prop :=
  b ∈ e.bindings ∧ b.isTypeOnly = false ∧ b.localName ∈ e.validated

end Extraction

/-- Links lead from a file to a schema and come to none of the files of a set, nor to a file
twice. -/
inductive Finds (p : Project) : Set String → String → String → String → Prop
  | declared {G : Set String} {name modulePath fromFile c : String} {e : Extraction} :
    p.IsCandidate modulePath fromFile name c → c ∉ G → p.Says c e →
    Table.hasKey e.schemas (e.keyOf name) = true → Finds p G name modulePath fromFile
  | imported {G : Set String} {name modulePath fromFile c : String} {e : Extraction}
    {b : ImportBinding} :
    p.IsCandidate modulePath fromFile name c → c ∉ G → p.Says c e → e.Follows b →
    b.localName = e.keyOf name → Finds p (insert c G) b.exportedName b.modulePath c →
    Finds p G name modulePath fromFile
  | forwarded {G : Set String} {name modulePath fromFile c source : String} {e : Extraction}
    {r : ReExport} :
    p.IsCandidate modulePath fromFile name c → c ∉ G → p.Says c e → r ∈ e.reexports →
    r.forwards name = some source → Finds p (insert c G) source r.modulePath c →
    Finds p G name modulePath fromFile

/-- A file declares a name, or imports it along links that come to none of the files of a set. -/
def Holds (p : Project) (G : Set String) (path : String) (e : Extraction) (key : String) : Prop :=
  Table.hasKey e.schemas key = true ∨
    ∃ b, e.Follows b ∧ b.localName = key ∧ Finds p G b.exportedName b.modulePath path

/-- A file has a name in its map, or forwards it from where links lead to it. -/
def Offers (p : Project) (G : Set String) (path : String) (e : Extraction) (name : String) : Prop :=
  Holds p G path e (e.keyOf name) ∨
    ∃ r ∈ e.reexports, ∃ source, r.forwards name = some source ∧ Finds p G source r.modulePath path

section

variable {p : Project} {G H : Set String} {name modulePath fromFile path key : String}
  {e : Extraction}

theorem finds_iff : Finds p G name modulePath fromFile ↔
    ∃ c e, p.IsCandidate modulePath fromFile name c ∧ c ∉ G ∧ p.Says c e ∧
      Offers p (insert c G) c e name := by
  constructor
  · intro h
    cases h with
    | declared hc hG he hkey => exact ⟨_, _, hc, hG, he, .inl (.inl hkey)⟩
    | imported hc hG he hb hkey h => exact ⟨_, _, hc, hG, he, .inl (.inr ⟨_, hb, hkey, h⟩)⟩
    | forwarded hc hG he hr hs h => exact ⟨_, _, hc, hG, he, .inr ⟨_, hr, _, hs, h⟩⟩
  · rintro ⟨c, e, hc, hG, he, (hkey | ⟨b, hb, hkey, h⟩) | ⟨r, hr, source, hs, h⟩⟩
    · exact .declared hc hG he hkey
    · exact .imported hc hG he hb hkey h
    · exact .forwarded hc hG he hr hs h

theorem Finds.antitone (h : Finds p G name modulePath fromFile) (hGH : H ⊆ G) :
    Finds p H name modulePath fromFile := by
  induction h generalizing H with
  | declared hc hG he hkey => exact .declared hc (fun hH => hG (hGH hH)) he hkey
  | imported hc hG he hb hkey _ ih =>
    exact .imported hc (fun hH => hG (hGH hH)) he hb hkey (ih (Set.insert_subset_insert hGH))
  | forwarded hc hG he hr hs _ ih =>
    exact .forwarded hc (fun hH => hG (hGH hH)) he hr hs (ih (Set.insert_subset_insert hGH))

theorem Holds.antitone (h : Holds p G path e key) (hGH : H ⊆ G) : Holds p H path e key := by
  rcases h with hkey | ⟨b, hb, hkey, h⟩
  · exact .inl hkey
  · exact .inr ⟨b, hb, hkey, h.antitone hGH⟩

end

namespace Engine

/-- The search through files, for a way to get their maps. -/
def searchBy (load : Search → String → Engine (Option SchemaMap)) : Nat → Search
  | 0 => fun _ _ _ => throw .depthExceeded
  | depth + 1 => fun name modulePath fromFile => do
    let p ← read
    let candidates ← ofExcept (Candidates.paths p.settings.resolver modulePath fromFile name p.root)
    firstFound (searchFileBy (load (searchBy load depth)) (searchBy load depth) name fromFile)
      candidates

theorem searchTo_eq_searchBy (depth : Nat) : searchTo depth = searchBy load depth := by
  induction depth with
  | zero => rfl
  | succ depth ih =>
    rw [searchTo, searchBy, ← ih]
    rfl

end Engine

namespace Uncached

open Engine

/-- The map of a file in flight, always derived and never stored. -/
def load (search : Search) (path : String) : Engine (Option SchemaMap) := do
  match (← read).files.readText path with
  | .error reason =>
    record (.readFailed path reason.message)
    return none
  | .ok text => return some (← tracked path (derive search text path)).1

def search : Search := fun name modulePath fromFile => do
  searchBy load ((← read).files.length + 1) name modulePath fromFile

def scanFile (text path : String) : Engine SchemaMap :=
  inFlight (Path.key path) (derive search text (Path.key path))

def resolveSchema (name modulePath fromFile : String) : Engine (Option Schema) :=
  searchOrReport search name modulePath (Path.key fromFile)

variable (p : Project) (s : EngineState)

theorem call_load (search : Search) (path : String) :
    (load search path).call p s =
      match p.files.readText path with
      | .error reason => (.ok none, s.note id [.readFailed path reason.message])
      | .ok text =>
        match (derive search text path).call p (s.enter path) with
        | (.error e, s₁) => (.error e, s₁.exit (s.frame path))
        | (.ok m, s₁) => (.ok (some m), s₁.exit (s.frame path)) := by
  rw [load, call_bind, call_read]
  dsimp only
  cases p.files.readText path with
  | error reason => rfl
  | ok text =>
    dsimp only
    rw [call_bind, call_tracked]
    rcases (derive search text path).call p (s.enter path) with ⟨_ | m, s₁⟩ <;> rfl

theorem call_searchBy_succ (load : Search → String → Engine (Option SchemaMap)) (depth : Nat)
    (name modulePath fromFile : String) :
    (searchBy load (depth + 1) name modulePath fromFile).call p s =
      match Candidates.paths p.settings.resolver modulePath fromFile name p.root with
      | .error e => (.error e, s)
      | .ok candidates =>
        (firstFound (searchFileBy (load (searchBy load depth)) (searchBy load depth) name fromFile)
          candidates).call p s := by
  rw [searchBy, call_bind, call_read]
  dsimp only
  rw [call_bind, call_ofExcept]
  cases Candidates.paths p.settings.resolver modulePath fromFile name p.root <;> rfl

theorem call_search (name modulePath fromFile : String) :
    (search name modulePath fromFile).call p s =
      (searchBy load (p.files.length + 1) name modulePath fromFile).call p s := by
  rw [search, call_bind, call_read]

end Uncached

def EngineState.chain (s : EngineState) : Set String := { q | s.inFlight.contains q = true }

theorem EngineState.chain_push (s : EngineState) (path : String) :
    (s.push path).chain = insert path s.chain := by
  ext q
  simp only [chain, push, InFlight.contains_add, Set.mem_ofPred_eq, Set.mem_insert_iff,
    Bool.or_eq_true, decide_eq_true_eq]
  exact or_congr eq_comm Iff.rfl

theorem Kept.chain {p : Project} {s s' : EngineState} (h : Kept p s s') : s'.chain = s.chain := by
  simp only [EngineState.chain, h.contains]

theorem EngineState.Idle.chain {s : EngineState} (h : s.Idle) : s.chain = ∅ := by
  simp [EngineState.chain, h.contains]

theorem Extraction.follows_of_isWanted {e : Extraction} {schemas : Table String Schema}
    {b : ImportBinding} (hb : b ∈ e.bindings) (h : Engine.isWanted e schemas b = true) :
    e.Follows b := by
  obtain ⟨htype, -, hval⟩ := Engine.isWanted_eq_true_iff.1 h
  exact ⟨hb, htype, hval⟩

namespace Engine

variable {α : Type} {p : Project}

theorem exists_of_firstFound {place : α → Engine (Option Schema)} (hk : ∀ a, Keeps p (place a))
    {as : List α} {s s' : EngineState} {schema : Schema}
    (hc : (firstFound place as).call p s = (.ok (some schema), s')) :
    ∃ a ∈ as, ∃ s₁ s₂, Kept p s s₁ ∧ (place a).call p s₁ = (.ok (some schema), s₂) := by
  obtain ⟨a, hmem, s₁, hk₁, ha⟩ := found_of_firstFound (I := Kept p s)
    (fun a s₁ h => h.trans (hk a s₁)) (.refl p s) hc
  exact ⟨a, hmem, s₁, s', hk₁, ha⟩

/-- What a search finds, links lead to that avoid the files in flight. -/
def Grounded (p : Project) (search : Search) : Prop :=
  ∀ ⦃name modulePath fromFile s schema s'⦄,
    (search name modulePath fromFile).call p s = (.ok (some schema), s') →
      Finds p s.chain name modulePath fromFile

section

variable {search : Search}
  (hk : ∀ name modulePath fromFile, Keeps p (search name modulePath fromFile))
  (hs : Grounded p search)
include hs

theorem holds_addImport {e : Extraction} {path : String} {schemas schemas' : Table String Schema}
    {b : ImportBinding} {s s' : EngineState} (hb : b ∈ e.bindings)
    (hold : ∀ key, Table.hasKey schemas key = true → Holds p s.chain path e key)
    (hc : (addImport search e path schemas b).call p s = (.ok schemas', s')) :
    ∀ key, Table.hasKey schemas' key = true → Holds p s.chain path e key := by
  cases call_addImport_ok_iff.1 hc with
  | passed _ => exact hold
  | found hw hq =>
    intro key hkey
    rw [Table.hasKey_put, Bool.or_eq_true, decide_eq_true_eq] at hkey
    rcases hkey with rfl | hkey
    · exact .inr ⟨b, Extraction.follows_of_isWanted hb hw, rfl, hs hq⟩
    · exact hold key hkey
  | missed _ _ => exact hold

include hk

theorem holds_foldlM {e : Extraction} {path : String} {bs : List ImportBinding}
    {schemas schemas' : Table String Schema} {s s' : EngineState} (hbs : ∀ b ∈ bs, b ∈ e.bindings)
    (hold : ∀ key, Table.hasKey schemas key = true → Holds p s.chain path e key)
    (hc : (bs.foldlM (addImport search e path) schemas).call p s = (.ok schemas', s')) :
    ∀ key, Table.hasKey schemas' key = true → Holds p s.chain path e key := by
  induction bs generalizing schemas s with
  | nil =>
    cases hc
    exact hold
  | cons b bs ih =>
    rw [List.foldlM_cons] at hc
    obtain ⟨schemas₁, s₁, h₁, h₂⟩ := call_bind_ok p hc
    have hold₁ := holds_addImport hs (hbs b (by simp)) hold h₁
    have hchain : s₁.chain = s.chain := ((keeps_addImport hk e path schemas b).of_call h₁).chain
    rw [← hchain] at hold₁ ⊢
    exact ih (fun b' hb' => hbs b' (by simp [hb'])) hold₁ h₂

theorem holds_derive {text path : String} {m : SchemaMap} {s s' : EngineState}
    (hc : (derive search text path).call p s = (.ok m, s')) :
    ∃ e schemas, p.extract text path = .ok e ∧ m = e.toMap path schemas ∧
      ∀ key, Table.hasKey schemas key = true → Holds p s.chain path e key := by
  obtain ⟨e, schemas, he, hm, hf⟩ := call_derive_ok_iff.1 hc
  have hold := holds_foldlM hk hs (fun b hb => hb) (fun key hkey => .inl hkey) hf
  rw [(Kept.parsed p s text path).chain] at hold
  exact ⟨e, schemas, he, hm, hold⟩

end

end Engine

namespace Uncached

open Engine

variable {p : Project}

section

variable {search : Search}
  (hk : ∀ name modulePath fromFile, Keeps p (search name modulePath fromFile))
include hk

theorem keeps_load (path : String) : Keeps p (load search path) := by
  intro s
  rw [call_load]
  cases p.files.readText path with
  | error reason =>
    dsimp only
    exact .note p s _ rfl
  | ok text =>
    dsimp only
    rcases hc : (derive search text path).call p (s.enter path) with ⟨_ | m, s₁⟩
    · exact ((keeps_derive hk text path).of_call hc).exit
    · exact ((keeps_derive hk text path).of_call hc).exit

variable (hs : Grounded p search)
include hs

theorem holds_load {path : String} {m : SchemaMap} {s s' : EngineState}
    (hc : (load search path).call p s = (.ok (some m), s')) :
    ∃ e schemas, p.Says path e ∧ m = e.toMap path schemas ∧
      ∀ key, Table.hasKey schemas key = true → Holds p s.chain path e key := by
  rw [call_load] at hc
  cases ht : p.files.readText path with
  | error reason =>
    rw [ht] at hc
    cases hc
  | ok text =>
    rw [ht] at hc
    dsimp only at hc
    rcases hd : (derive search text path).call p (s.enter path) with ⟨_ | m₁, s₁⟩
    · rw [hd] at hc
      cases hc
    · rw [hd] at hc
      cases hc
      obtain ⟨e, schemas, he, hm, hold⟩ := holds_derive hk hs hd
      exact ⟨e, schemas, ⟨text, ht, he⟩, hm, hold⟩

theorem offers_searchMap {name path : String} {schema : Schema} {s s' : EngineState}
    (hc : (searchMapBy (load search) search name path).call p s = (.ok (some schema), s')) :
    ∃ e, p.Says path e ∧ Offers p s.chain path e name := by
  cases call_searchMapBy_ok_iff.1 hc with
  | found hl hm =>
    obtain ⟨e, schemas, he, rfl, hold⟩ := holds_load hk hs hl
    rw [Extraction.get?_toMap] at hm
    refine ⟨e, he, .inl (hold _ ?_)⟩
    rw [Table.hasKey_eq_isSome, hm]
    rfl
  | followed hl _ hf =>
    obtain ⟨e, schemas, he, rfl, -⟩ := holds_load hk hs hl
    obtain ⟨r, hr, s₂, s₃, hk₂, hfound⟩ := exists_of_firstFound (keeps_follow hk name path) hf
    cases hsource : r.forwards name with
    | none =>
      rw [hsource] at hfound
      cases hfound
    | some source =>
      rw [hsource] at hfound
      have hchain : s₂.chain = s.chain := (((keeps_load hk path).of_call hl).trans hk₂).chain
      exact ⟨e, he, .inr ⟨r, hr, source, hsource, hchain ▸ hs hfound⟩⟩

end

theorem keeps_searchBy (depth : Nat) (name modulePath fromFile : String) :
    Keeps p (searchBy load depth name modulePath fromFile) := by
  induction depth generalizing name modulePath fromFile with
  | zero => exact fun s => .refl p s
  | succ depth ih =>
    intro s
    rw [call_searchBy_succ]
    cases Candidates.paths p.settings.resolver modulePath fromFile name p.root with
    | error e => exact .refl p s
    | ok candidates =>
      exact keeps_firstFound (keeps_searchFileBy ih (keeps_load ih) name fromFile) candidates s

theorem grounded_searchBy (depth : Nat) : Grounded p (searchBy load depth) := by
  induction depth with
  | zero =>
    intro name modulePath fromFile s schema s' hc
    cases hc
  | succ depth ih =>
    intro name modulePath fromFile s schema s' hc
    have hk := keeps_searchBy (p := p) depth
    rw [call_searchBy_succ] at hc
    cases hcs : Candidates.paths p.settings.resolver modulePath fromFile name p.root with
    | error e =>
      rw [hcs] at hc
      cases hc
    | ok candidates =>
      rw [hcs] at hc
      obtain ⟨c, hmem, s₁, s₂, hk₁, hfound⟩ :=
        exists_of_firstFound (keeps_searchFileBy hk (keeps_load hk) name fromFile) hc
      cases call_searchFileBy_ok_iff.1 hfound with
      | opened hin hf hm =>
        -- Below the candidate the links avoid it as well, since it is in flight by then.
        obtain ⟨e, he, hoff⟩ := offers_searchMap hk ih hm
        rw [EngineState.chain_push, hk₁.chain] at hoff
        have hG : c ∉ s.chain := by
          rw [← hk₁.chain]
          simp [EngineState.chain, hin]
        exact finds_iff.2 ⟨c, e, ⟨candidates, hcs, hmem, hf⟩, hG, he, hoff⟩

theorem keeps_search (name modulePath fromFile : String) :
    Keeps p (search name modulePath fromFile) := by
  intro s
  rw [call_search]
  exact keeps_searchBy _ name modulePath fromFile s

theorem grounded_search : Grounded p search := by
  intro name modulePath fromFile s schema s' hc
  rw [call_search] at hc
  exact grounded_searchBy _ hc

/-- The map that a scan gives an engine without a cache has no names but those that links lead
to. -/
theorem holds_scanFile {text path : String} {m : SchemaMap} {s s' : EngineState} (hs : s.Idle)
    (hc : (scanFile text path).call p s = (.ok m, s')) :
    ∃ e, p.extract text (Path.key path) = .ok e ∧
      ∀ name ∈ m.names, Holds p {Path.key path} (Path.key path) e name := by
  rw [scanFile, call_inFlight] at hc
  rcases hd : (derive search text (Path.key path)).call p (s.push (Path.key path)) with ⟨_ | m₁, s₁⟩
  · rw [hd] at hc
    cases hc
  · rw [hd] at hc
    cases hc
    obtain ⟨e, schemas, he, rfl, hold⟩ := holds_derive keeps_search grounded_search hd
    rw [EngineState.chain_push, hs.chain, insert_empty_eq] at hold
    refine ⟨e, he, fun name hname => hold name ?_⟩
    simpa [SchemaMap.names, Table.keys, Table.hasKey, Extraction.toMap] using hname

theorem finds_resolveSchema {name modulePath fromFile : String} {schema : Schema}
    {s s' : EngineState} (hs : s.Idle)
    (hc : (resolveSchema name modulePath fromFile).call p s = (.ok (some schema), s')) :
    Finds p ∅ name modulePath (Path.key fromFile) := by
  rw [resolveSchema, call_searchOrReport] at hc
  rcases hq : (search name modulePath (Path.key fromFile)).call p s with ⟨_ | _ | found, s₁⟩
  · rw [hq] at hc
    cases hc
  · rw [hq] at hc
    cases hc
  · rw [← hs.chain]
    exact grounded_search hq

end Uncached

end ContractInference
