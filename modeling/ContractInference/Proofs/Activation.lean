import ContractInference.Proofs.CutShort
import ContractInference.Proofs.Fallible
import ContractInference.Proofs.Invariant
import ContractInference.Proofs.Termination
import Mathlib

/-!
# Work inside work

A search looks into one file after the other. A file that is looked into is loaded, a file that is
loaded may have to be derived, and a derivation searches for what the file imports. Whatever the
outcome, each piece of work leaves the chain of files as it found it; a failure inside is a failure
of all the work around it, and of the file that was being derived nothing is kept.
-/

namespace ContractInference

open Engine

/-- A piece of the engine's work. -/
inductive Task where
  | search (name modulePath fromFile : String)
  /-- To look for a schema in one of the files that a module's name can stand for. -/
  | file (name fromFile path : String)
  | load (path : String)
  | derive (text path : String)

def Task.run : Task → Engine Unit
  | .search name modulePath fromFile => (fun _ => ()) <$> Engine.search name modulePath fromFile
  | .file name fromFile path => (fun _ => ()) <$> searchFile Engine.search name fromFile path
  | .load path => (fun _ => ()) <$> Engine.load Engine.search path
  | .derive text path => (fun _ => ()) <$> Engine.derive Engine.search text path

/-- A piece of work that takes place, with the state in which it begins. -/
structure Activation where
  task : Task
  start : EngineState

namespace Activation

def call (p : Project) (a : Activation) : Except Failure Unit × EngineState :=
  a.task.run.call p a.start

def stop (p : Project) (a : Activation) : EngineState := (a.call p).2

end Activation

/-- The second piece of work takes place in the first one, and in none in between. -/
inductive Inside (p : Project) : Activation → Activation → Prop
  /-- The files before did not have the schema. -/
  | tried {name modulePath fromFile c : String} {before after : List String} {s t : EngineState} :
    Candidates.paths p.settings.resolver modulePath fromFile name p.root =
      .ok (before ++ c :: after) →
    (firstFound (searchFile Engine.search name fromFile) before).call p s = (.ok none, t) →
    Inside p ⟨.search name modulePath fromFile, s⟩ ⟨.file name fromFile c, t⟩
  | opened {name fromFile path : String} {s : EngineState} :
    s.inFlight.contains path = false → p.files.isFile path = true →
    Inside p ⟨.file name fromFile path, s⟩ ⟨.load path, s.push path⟩
  /-- The file's map does not have the schema, and neither have the modules that the file forwards
  the name to before this one. -/
  | forwarded {name fromFile path source : String} {m : SchemaMap} {r : ReExport}
    {before after : List ReExport} {s t u : EngineState} :
    s.inFlight.contains path = false → p.files.isFile path = true →
    (Engine.load Engine.search path).call p (s.push path) = (.ok (some m), t) →
    m.get? name = none → m.reexports = before ++ r :: after →
    (followReExports Engine.search { m with reexports := before } name).call p t = (.ok none, u) →
    r.forwards name = some source →
    Inside p ⟨.file name fromFile path, s⟩ ⟨.search source r.modulePath m.path, u⟩
  /-- The file is not in the cache and can be read. -/
  | derived {path text : String} {s : EngineState} :
    s.cache.get? path = none → p.files.readText path = .ok text →
    Inside p ⟨.load path, s⟩ ⟨.derive text path, s.enter path⟩
  /-- The imports before this one have been searched for. -/
  | imported {text path : String} {e : Extraction} {b : ImportBinding}
    {before after : List ImportBinding} {schemas : Table String Schema} {s t : EngineState} :
    p.extract text path = .ok e → e.bindings = before ++ b :: after →
    (before.foldlM (addImport Engine.search e path) e.schemas).call p (s.parsed p text path) =
      (.ok schemas, t) →
    isWanted e schemas b = true →
    Inside p ⟨.derive text path, s⟩ ⟨.search b.exportedName b.modulePath path, t⟩

namespace Engine

variable {α : Type} {p : Project} {s t : EngineState}

theorem call_map_error_iff {β : Type} {f : α → β} {x : Engine α} {e : Failure} :
    (f <$> x).call p s = (.error e, t) ↔ x.call p s = (.error e, t) := by
  rw [call_map]
  rcases x.call p s with ⟨_ | _, _⟩ <;> simp

theorem call_firstFound_append {place : α → Engine (Option Schema)} {before : List α}
    (h : (firstFound place before).call p s = (.ok none, t)) (rest : List α) :
    (firstFound place (before ++ rest)).call p s = (firstFound place rest).call p t := by
  induction before generalizing s with
  | nil =>
    cases h
    rfl
  | cons a before ih =>
    rw [call_firstFound_cons] at h
    rw [List.cons_append, call_firstFound_cons]
    rcases ha : (place a).call p s with ⟨_ | _ | schema, s₁⟩
    · rw [ha] at h
      cases h
    · rw [ha] at h
      exact ih h
    · rw [ha] at h
      cases h

theorem spares_search {q : String} (name modulePath fromFile : String) :
    Spares p q (search name modulePath fromFile) := by
  intro s hq
  rw [call_search]
  exact spares_searchTo _ name modulePath fromFile s hq

theorem call_scanDocument (p : Project) (s : EngineState) (text path : String) :
    ∃ new, (scanDocument text path).call p s =
        (.ok (Sdl.schemaMap (Path.key path) text), s.note (·.counted (Path.key path)) new) ∧
      new.filterMap Event.met? = [] := by
  have hc : (countParse (Path.key path)).call p s =
      (.ok (), { s with stats := s.stats.counted (Path.key path) }) := rfl
  rw [scanDocument, call_bind, hc]
  dsimp only
  generalize Sdl.schemaMap (Path.key path) text = m
  generalize (Sdl.parseDocument? text).isNone = refused
  generalize (m.isEmpty && !text.toList.all isBlank) = hollow
  have hnote : ∀ new, s.note (·.counted (Path.key path)) new =
      { s with stats := s.stats.counted (Path.key path), events := s.events ++ new } := fun _ => rfl
  cases refused <;> cases hollow
  · exact ⟨[], by rw [hnote, List.append_nil]; rfl, rfl⟩
  · exact ⟨[.documentWithoutTypes (Path.key path)], rfl, rfl⟩
  · exact ⟨[.documentRefused (Path.key path)], rfl, rfl⟩
  · refine ⟨[.documentRefused (Path.key path)] ++ [.documentWithoutTypes (Path.key path)], ?_, rfl⟩
    rw [hnote, ← List.append_assoc]
    rfl

theorem keeps_run (task : Task) : Keeps p task.run := by
  intro s
  cases task with
  | search name modulePath fromFile =>
    rw [Task.run, call_map_state]
    exact keeps_search name modulePath fromFile s
  | file name fromFile path =>
    rw [Task.run, call_map_state]
    exact keeps_searchFile keeps_search name fromFile path s
  | load path =>
    rw [Task.run, call_map_state]
    exact keeps_load keeps_search path s
  | derive text path =>
    rw [Task.run, call_map_state]
    exact keeps_derive keeps_search text path s

end Engine

/-- The files of the chain have the depths from zero on, in the order in which they were put on it,
and none of them is on it twice. -/
def EngineState.Stacked (s : EngineState) : Prop :=
  ∃ files : List String, files.Nodup ∧ s.inFlight.depths = files.zipIdx

theorem EngineState.Stacked.push {s : EngineState} (h : s.Stacked) {path : String}
    (hp : s.inFlight.contains path = false) : (s.push path).Stacked := by
  obtain ⟨files, hn, hs⟩ := h
  have hmem : path ∉ files := by
    rw [InFlight.contains_eq_isSome, hs, Table.get?_zipIdx, Option.isSome_map,
      Option.isSome_eq_false_iff, Option.isNone_iff_eq_none] at hp
    exact List.idxOf?_eq_none_iff.1 hp
  refine ⟨files ++ [path], List.nodup_append.2 ⟨hn, by simp, ?_⟩, ?_⟩
  · rintro q hq _ hsingle rfl
    exact hmem (List.mem_singleton.1 hsingle ▸ hq)
  · rw [EngineState.push, InFlight.depths_add hp, InFlight.size, hs]
    simp [List.zipIdx_append]

theorem Kept.stacked {p : Project} {s s' : EngineState} (hk : Kept p s s') (h : s.Stacked) :
    s'.Stacked := by
  obtain ⟨files, hn, hs⟩ := h
  exact ⟨files, hn, hk.depths.trans hs⟩

theorem Kept.inFlight_pop {p : Project} {s s₁ : EngineState} {path : String}
    (hs : s.inFlight = {}) (h : Kept p (s.push path) s₁) : (s₁.pop path).inFlight = {} := by
  have hidle : s.Idle := by rw [EngineState.Idle, hs]
  have hd : (s₁.pop path).inFlight.depths = [] := (h.depths_pop (hidle.contains path)).trans hidle
  have hf : (s₁.pop path).inFlight.floor = none := by
    simp only [EngineState.pop, InFlight.discard] at hd ⊢
    rw [hd]
    rfl
  cases hin : (s₁.pop path).inFlight
  simp_all

theorem Engine.sustains_inFlight_eq {p : Project} (name modulePath fromFile : String) :
    Sustains p (·.inFlight = {}) (Engine.search name modulePath fromFile) := by
  have hfile : ∀ path, Sustains p (·.inFlight = {})
      (searchFile Engine.search name fromFile path) := by
    intro path s hs
    have hin : s.inFlight.contains path = false := by rw [hs]; rfl
    rw [searchFile_eq, call_searchFileBy, hin, if_neg Bool.false_ne_true]
    split
    · rw [call_inFlight]
      exact (keeps_searchMapBy keeps_search (keeps_load keeps_search) name path _).inFlight_pop hs
    · exact hs
  intro s hs
  rw [← searchCandidates_search, call_searchCandidates]
  cases Candidates.paths p.settings.resolver modulePath fromFile name p.root with
  | error e => exact hs
  | ok candidates => exact sustains_firstFound hfile candidates hs

/-- The file that has to be in flight for a piece of work. -/
def Task.held? : Task → Option String
  | .load path => some path
  | .derive _ path => some path
  | _ => none

/-- What holds of a piece of work in a call that began in the given state. -/
structure Orderly (s : EngineState) (a : Activation) : Prop where
  stacked : a.start.Stacked
  grown : ∀ {path m}, s.cache.get? path = some m → a.start.cache.get? path = some m
  held : ∀ {path}, a.task.held? = some path → a.start.inFlight.contains path = true
  fresh : ∀ {text path}, a.task = .derive text path →
    a.start.cache.get? path = s.cache.get? path

theorem Orderly.of_held? {s : EngineState} {a : Activation} (hstacked : a.start.Stacked)
    (hgrown : ∀ {path m}, s.cache.get? path = some m → a.start.cache.get? path = some m)
    (hheld : a.task.held? = none) : Orderly s a where
  stacked := hstacked
  grown := hgrown
  held h := by
    rw [hheld] at h
    cases h
  fresh h := by
    rw [h] at hheld
    cases hheld

namespace Inside

variable {p : Project} {a b : Activation} {s : EngineState}

theorem orderly (h : Inside p a b) (ha : Orderly s a) : Orderly s b := by
  cases h with
  | tried _ hbefore =>
    have hk : Kept p _ _ :=
      (keeps_firstFound (keeps_searchFile keeps_search _ _) _).of_call hbefore
    exact .of_held? (hk.stacked ha.stacked) (fun hm => hk.cached (ha.grown hm)) rfl
  | opened hin _ =>
    refine ⟨ha.stacked.push hin, ha.grown, ?_, ?_⟩
    · rintro _ ⟨⟩
      simp [EngineState.push, InFlight.contains_add]
    · rintro _ _ ⟨⟩
  | forwarded hin _ hl _ _ hbefore _ =>
    have hk : Kept p _ _ := ((keeps_load keeps_search _).of_call hl).trans
      ((keeps_followReExports keeps_search _ _).of_call hbefore)
    exact .of_held? (hk.stacked (ha.stacked.push hin)) (fun hm => hk.cached (ha.grown hm)) rfl
  | @derived path _ _ hm _ =>
    refine ⟨ha.stacked, ha.grown, ?_, ?_⟩
    · rintro _ ⟨⟩
      exact ha.held rfl
    · rintro _ _ ⟨⟩
      have hnone : s.cache.get? path = none := by
        rw [Option.eq_none_iff_forall_ne_some]
        intro m hs
        rw [ha.grown hs] at hm
        cases hm
      exact hm.trans hnone.symm
  | @imported text path e _ _ _ _ s _ _ _ hbefore _ =>
    have hk : Kept p s _ := (Kept.parsed p s text path).trans
      ((keeps_foldlM (keeps_addImport keeps_search e path) _ _).of_call hbefore)
    exact .of_held? (hk.stacked ha.stacked) (fun hm => hk.cached (ha.grown hm)) rfl

/-- A failure is not caught on its way out, and nothing is stored on it. -/
theorem fails (h : Inside p a b) {e : Failure} {u : EngineState} (hb : b.call p = (.error e, u)) :
    ∃ u', a.call p = (.error e, u') ∧ u'.cache = u.cache := by
  cases h with
  | tried hcs hbefore =>
    replace hb := call_map_error_iff.1 hb
    refine ⟨u, call_map_error_iff.2 ?_, rfl⟩
    rw [← searchCandidates_search, call_searchCandidates, hcs]
    dsimp only
    rw [call_firstFound_append hbefore, call_firstFound_cons, hb]
  | @opened _ _ path _ hin hf =>
    replace hb := call_map_error_iff.1 hb
    refine ⟨u.pop path, call_map_error_iff.2 ?_, rfl⟩
    rw [searchFile_eq, call_searchFileBy, hin, hf, if_neg Bool.false_ne_true, if_pos rfl,
      call_inFlight, call_searchMapBy, hb]
  | @forwarded _ _ path _ m r before after _ _ _ hin hf hl hm hr hbefore hs =>
    replace hb := call_map_error_iff.1 hb
    refine ⟨u.pop path, call_map_error_iff.2 ?_, rfl⟩
    rw [searchFile_eq, call_searchFileBy, hin, hf, if_neg Bool.false_ne_true, if_pos rfl,
      call_inFlight, call_searchMapBy, hl]
    dsimp only
    rw [hm]
    dsimp only [followReExports] at hbefore ⊢
    rw [hr, call_firstFound_append hbefore, call_firstFound_cons, hs, hb]
  | @derived path text s hm hr =>
    replace hb := call_map_error_iff.1 hb
    refine ⟨u.exit (s.frame path), call_map_error_iff.2 ?_, rfl⟩
    rw [call_load, hm]
    dsimp only
    rw [hr]
    dsimp only
    rw [hb]
  | imported he hbs hbefore hw =>
    replace hb := call_map_error_iff.1 hb
    refine ⟨u, call_map_error_iff.2 ?_, rfl⟩
    rw [call_derive, he]
    dsimp only
    rw [hbs, List.foldlM_append, call_bind, hbefore]
    dsimp only
    rw [List.foldlM_cons, call_bind, call_addImport, hw, if_pos rfl, call_searchOrReport, hb]

end Inside

/-- What an engine can be asked for. -/
inductive Operation where
  | scan (text path : String)
  | document (text path : String)
  | resolve (name modulePath fromFile : String)
  | bind (text path : String)

namespace Operation

def run : Operation → Engine Unit
  | .scan text path => (fun _ => ()) <$> scanFile text path
  | .document text path => (fun _ => ()) <$> scanDocument text path
  | .resolve name modulePath fromFile => (fun _ => ()) <$> resolveSchema name modulePath fromFile
  | .bind text path => (fun _ => ()) <$> bindContracts text path

/-- The work that an operation begins with, all other work being inside it. -/
def root? (s : EngineState) : Operation → Option Activation
  | .scan text path | .bind text path =>
    some ⟨.derive text (Path.key path), s.push (Path.key path)⟩
  | .resolve name modulePath fromFile => some ⟨.search name modulePath (Path.key fromFile), s⟩
  | .document .. => none

def Performs (p : Project) (s : EngineState) (op : Operation) (a : Activation) : Prop :=
  ∃ root, op.root? s = some root ∧ Relation.ReflTransGen (Inside p) root a

variable {p : Project} {s : EngineState}

theorem call_bind (p : Project) (s : EngineState) (text path : String) :
    (Operation.bind text path).run.call p s = (Operation.scan text path).run.call p s := by
  rw [run, run, call_map, call_map, bindContracts, Engine.call_bind]
  rcases (scanFile text path).call p s with ⟨_ | _, _⟩ <;> rfl

/-- What holds of the states that scanning, resolving and counting lead to holds of the state that
any operation leads to. -/
theorem state_cases {I : EngineState → Prop}
    (scan : ∀ text path, I ((scanFile text path).call p s).2)
    (resolve : ∀ name modulePath fromFile, I ((resolveSchema name modulePath fromFile).call p s).2)
    (count : ∀ path new, new.filterMap Event.met? = [] → I (s.note (·.counted path) new))
    (op : Operation) : I (op.run.call p s).2 := by
  cases op with
  | scan text path =>
    rw [run, call_map_state]
    exact scan text path
  | bind text path =>
    rw [call_bind, run, call_map_state]
    exact scan text path
  | resolve name modulePath fromFile =>
    rw [run, call_map_state]
    exact resolve name modulePath fromFile
  | document text path =>
    obtain ⟨new, hc, hnew⟩ := call_scanDocument p s text path
    rw [run, call_map_state, hc]
    exact count (Path.key path) new hnew

theorem orderly_root {op : Operation} {root : Activation} (hs : s.inFlight = {})
    (h : op.root? s = some root) : Orderly s root := by
  have hstacked : s.Stacked := ⟨[], List.nodup_nil, by rw [hs]; rfl⟩
  have hidle : s.Idle := by rw [EngineState.Idle, hs]
  have hscan : ∀ text path, Orderly s ⟨.derive text path, s.push path⟩ := by
    intro text path
    refine ⟨hstacked.push (hidle.contains path), id, ?_, fun _ => rfl⟩
    rintro _ ⟨⟩
    simp [EngineState.push, InFlight.contains_add]
  cases op with
  | scan text path =>
    cases h
    exact hscan text (Path.key path)
  | bind text path =>
    cases h
    exact hscan text (Path.key path)
  | resolve name modulePath fromFile =>
    cases h
    exact .of_held? hstacked id rfl
  | document text path => cases h

theorem orderly {op : Operation} {a : Activation} (hs : s.inFlight = {}) (h : op.Performs p s a) :
    Orderly s a := by
  obtain ⟨root, hroot, h⟩ := h
  induction h with
  | refl => exact orderly_root hs hroot
  | tail _ hin ih => exact hin.orderly ih

theorem fails_root {op : Operation} {root : Activation} (h : op.root? s = some root) {e : Failure}
    {u : EngineState} (hr : root.call p = (.error e, u)) :
    ∃ u', op.run.call p s = (.error e, u') ∧ u'.cache = u.cache := by
  have hscan : ∀ text path, (Engine.derive search text (Path.key path)).call p
      (s.push (Path.key path)) = (.error e, u) →
      (Operation.scan text path).run.call p s = (.error e, u.pop (Path.key path)) := by
    intro text path hd
    rw [run, call_map_error_iff, call_scanFile, call_inFlight, hd]
  cases op with
  | scan text path =>
    cases h
    exact ⟨_, hscan text path (call_map_error_iff.1 hr), rfl⟩
  | bind text path =>
    cases h
    exact ⟨_, (call_bind p s text path).trans (hscan text path (call_map_error_iff.1 hr)), rfl⟩
  | resolve name modulePath fromFile =>
    cases h
    refine ⟨u, ?_, rfl⟩
    rw [run, call_map_error_iff, resolveSchema, call_searchOrReport, call_map_error_iff.1 hr]
  | document text path => cases h

theorem fails {op : Operation} {a : Activation} (h : op.Performs p s a) {e : Failure}
    {u : EngineState} (ha : a.call p = (.error e, u)) :
    ∃ u', op.run.call p s = (.error e, u') ∧ u'.cache = u.cache := by
  obtain ⟨root, hroot, h⟩ := h
  induction h generalizing u with
  | refl => exact fails_root hroot ha
  | tail _ hin ih =>
    obtain ⟨u₁, h₁, hc₁⟩ := hin.fails ha
    obtain ⟨u₂, h₂, hc₂⟩ := ih h₁
    exact ⟨u₂, h₂, hc₂.trans hc₁⟩

theorem inFlight_eq (hs : s.inFlight = {}) (op : Operation) :
    (op.run.call p s).2.inFlight = {} := by
  refine state_cases (I := (·.inFlight = {})) (fun text path => ?_)
    (fun name modulePath fromFile => ?_) (fun _ _ _ => hs) op
  · have hk := keeps_derive (p := p) keeps_search text (Path.key path) (s.push (Path.key path))
    have hpop := hk.inFlight_pop hs
    rw [call_scanFile, call_inFlight]
    rcases hd : (Engine.derive search text (Path.key path)).call p (s.push (Path.key path))
      with ⟨_ | m, s₁⟩ <;>
    · rw [hd] at hpop
      exact hpop
  · have hq := sustains_inFlight_eq (p := p) name modulePath (Path.key fromFile) hs
    rw [resolveSchema, call_searchOrReport]
    rcases hc : (search name modulePath (Path.key fromFile)).call p s with ⟨_ | _ | _, s₁⟩ <;>
    · rw [hc] at hq
      exact hq

end Operation

namespace Engine

variable {p : Project} {s : EngineState}

/-- An operation that begins with an empty chain leaves it empty, whatever its outcome. All work
that takes place in its course begins with the files of the chain at the depths from zero on, in the
order in which they were put on it, and leaves them so. A derivation that fails makes the operation
fail, and nothing was stored for its file. -/
theorem chain_restored (hs : s.inFlight = {}) (op : Operation) :
    (op.run.call p s).2.inFlight = {} ∧
      ∀ {a : Activation}, op.Performs p s a →
        a.start.Stacked ∧ (a.stop p).inFlight.depths = a.start.inFlight.depths ∧
        ∀ {text path : String} {e : Failure} {u : EngineState},
          a.task = .derive text path → a.call p = (.error e, u) →
            (op.run.call p s).1 = .error e ∧
              (op.run.call p s).2.cache.get? path = s.cache.get? path := by
  refine ⟨op.inFlight_eq hs, fun {a} ha => ?_⟩
  have horderly : Orderly s a := Operation.orderly hs ha
  refine ⟨horderly.stacked, (keeps_run a.task a.start).depths, ?_⟩
  intro text path e u htask hc
  obtain ⟨u', hop, hcache⟩ := Operation.fails ha hc
  have hin : a.start.inFlight.contains path = true := horderly.held (by rw [htask]; rfl)
  have hspared : u.cache.get? path = a.start.cache.get? path := by
    rw [Activation.call, htask, Task.run, call_map_error_iff] at hc
    exact (spares_derive keeps_search spares_search text path).of_call hin hc
  rw [hop]
  refine ⟨rfl, ?_⟩
  rw [hcache, hspared]
  exact horderly.fresh htask

/-- A file that imports from a module whose name stands for a template that cannot be filled in. -/
def brittle : Project :=
  { Project.ofTexts [("/app/b.ts", routeText)] with
    settings := { resolver := { fallbackCandidates := ["\x7bkind\x7d"] } } }

def brittleText : String := "import {B} from './b';B.parse(1)"

def brittleImport : ImportBinding :=
  { localName := "B", modulePath := "./b", imported := some "B" }

/-- The state in which the scan of a file goes on to what the file imports. -/
def brittleState : EngineState :=
  (({} : EngineState).push "/app/a.ts").parsed brittle brittleText "/app/a.ts"

/-- The derivation of the second file inside the scan of the first one. -/
def brittleDerivation : Activation :=
  ⟨.derive routeText "/app/b.ts", (brittleState.push "/app/b.ts").enter "/app/b.ts"⟩

theorem performs_brittleDerivation :
    (Operation.scan brittleText "/app/a.ts").Performs brittle {} brittleDerivation := by
  have hkey : Path.key "/app/a.ts" = "/app/a.ts" := by
    decide +kernel
  have hextract : (brittle.extract brittleText "/app/a.ts").toOption.map (fun e =>
      (e.bindings, isWanted e e.schemas brittleImport)) = some ([brittleImport], true) := by
    decide +kernel
  have hpaths : (Candidates.paths brittle.settings.resolver "./b" "/app/a.ts" "B"
      brittle.root).toOption.map List.head? = some (some "/app/b.ts") := by
    decide +kernel
  have hdisk : (Request.scan routeText "/app/b.ts").FromDisk brittle ∧
      Path.key "/app/b.ts" = "/app/b.ts" := by
    decide +kernel
  have hstate : brittleState.inFlight.contains "/app/b.ts" = false ∧
      brittle.files.isFile "/app/b.ts" = true := by
    decide +kernel
  obtain ⟨e, he, hread⟩ := exists_of_toOption hextract
  obtain ⟨hbindings, hw⟩ := Prod.mk.inj hread
  obtain ⟨candidates, hcs, hhead⟩ := exists_of_toOption hpaths
  obtain ⟨rest, rfl⟩ := List.head?_eq_some_iff.1 hhead
  rw [Request.FromDisk, hdisk.2] at hdisk
  refine ⟨_, rfl, ?_⟩
  rw [hkey]
  -- There is one import, and the first file that it can stand for is the one that is there.
  replace hbindings : e.bindings = [] ++ brittleImport :: [] := hbindings
  rw [← List.nil_append (_ :: rest)] at hcs
  have himported : Inside brittle _ ⟨.search "B" "./b" "/app/a.ts", brittleState⟩ :=
    .imported he hbindings rfl hw
  have htried : Inside brittle _ ⟨.file "B" "/app/a.ts" "/app/b.ts", brittleState⟩ :=
    .tried hcs rfl
  have hopened : Inside brittle ⟨.file "B" "/app/a.ts" "/app/b.ts", brittleState⟩
      ⟨.load "/app/b.ts", brittleState.push "/app/b.ts"⟩ := .opened hstate.1 hstate.2
  have hderived : Inside brittle _ brittleDerivation :=
    .derived (by rw [EngineState.push, brittleState, EngineState.parsed_cache]; rfl) hdisk.1
  exact .tail (.tail (.tail (.single himported) htried) hopened) hderived

theorem chain_restored_brittle :
    ∃ e u, brittleDerivation.start.inFlight.depths = [("/app/a.ts", 0), ("/app/b.ts", 1)] ∧
      brittleDerivation.call brittle = (.error e, u) ∧
      ((Operation.scan brittleText "/app/a.ts").run.call brittle {}).1 = .error e ∧
      ((Operation.scan brittleText "/app/a.ts").run.call brittle {}).2.inFlight = {} ∧
      ((Operation.scan brittleText "/app/a.ts").run.call brittle {}).2.cache.get? "/app/b.ts" =
        none := by
  have hfails : (brittleDerivation.call brittle).1.toOption.isNone = true ∧
      brittleDerivation.start.inFlight.depths = [("/app/a.ts", 0), ("/app/b.ts", 1)] := by
    decide +kernel
  obtain ⟨hempty, hwork⟩ :=
    chain_restored (p := brittle) (s := {}) rfl (.scan brittleText "/app/a.ts")
  obtain ⟨-, -, haborted⟩ := hwork performs_brittleDerivation
  rcases hc : brittleDerivation.call brittle with ⟨e | _, u⟩
  · obtain ⟨herror, hcache⟩ := haborted rfl hc
    exact ⟨e, u, hfails.2, rfl, herror, hempty, hcache⟩
  · rw [hc] at hfails
    cases hfails.1

end Engine

end ContractInference
