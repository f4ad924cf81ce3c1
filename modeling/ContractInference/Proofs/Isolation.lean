import ContractInference.Proofs.Invariant
import ContractInference.Proofs.Session
import Mathlib.Data.List.Basic

/-!
# A file's own schemas

The map of a file begins with what the file's text says by itself. The schemas of imports come
after it, in the order of the imports, and the other files of a project decide about nothing but
these.
-/

namespace ContractInference

/-- The names under which a file looks for schemas of other files: those of its imports that are
more than types, that it does not declare and that it validates. -/
def Extraction.importedNames (e : Extraction) : List String :=
  (e.bindings.filter fun b => !b.isTypeOnly && !Table.hasKey e.schemas b.localName &&
    e.validated.contains b.localName).map (·.localName)

namespace Project

theorem extract_congr {p q : Project} (hf : p.frontEnd = q.frontEnd)
    (hs : p.settings = q.settings) : p.extract = q.extract := by
  funext text path
  unfold extract
  rw [hf, hs]

theorem extract_files (p : Project) (files : Files) :
    { p with files := files }.extract = p.extract := extract_congr rfl rfl

end Project

namespace Engine

variable {p : Project} {search : Search} {e : Extraction} {path : String}

theorem isWanted_of_append {schemas extra : Table String Schema} {b : ImportBinding}
    (h : isWanted e (schemas ++ extra) b = true) : isWanted e schemas b = true := by
  rw [isWanted_eq_true_iff] at h ⊢
  refine ⟨h.1, ?_, h.2.2⟩
  have hk := h.2.1
  rw [Table.hasKey, List.any_append, Bool.or_eq_false_iff] at hk
  exact hk.1

/-- Importing adds schemas at the end, for names that had none, in the order of the imports. What
is true of a schema when it is found, and stays true, is true of it in the end. -/
theorem foldlM_addImport_append {I : EngineState → Prop}
    {F : ImportBinding → Schema → EngineState → Prop}
    (hI : ∀ schemas b, Sustains p I (addImport search e path schemas b))
    (hF : ∀ b schema schemas b', Sustains p (F b schema) (addImport search e path schemas b'))
    (hfound : ∀ {b schema s s'}, I s →
      (search b.exportedName b.modulePath path).call p s = (.ok (some schema), s') → F b schema s')
    {bs : List ImportBinding} {schemas schemas' : Table String Schema} {s s' : EngineState}
    (hs : I s) (hc : (bs.foldlM (addImport search e path) schemas).call p s = (.ok schemas', s')) :
    ∃ extra, schemas' = schemas ++ extra ∧
      (Table.keys extra).Sublist ((bs.filter (isWanted e schemas)).map (·.localName)) ∧
      ∀ name schema, (name, schema) ∈ extra → ∃ b ∈ bs, isWanted e schemas b = true ∧
        b.localName = name ∧ F b schema s' := by
  induction bs generalizing schemas s with
  | nil =>
    cases hc
    exact ⟨[], (List.append_nil _).symm, .slnil, fun _ _ hmem => nomatch hmem⟩
  | cons b bs ih =>
    rw [List.foldlM_cons] at hc
    obtain ⟨schemas₁, s₁, h₁, h₂⟩ := call_bind_ok p hc
    have hs₁ : I s₁ := (hI schemas b).of_call hs h₁
    rw [call_addImport_ok_iff] at h₁
    cases h₁ with
    | passed hw =>
      obtain ⟨extra, rfl, hsub, hall⟩ := ih hs₁ h₂
      refine ⟨extra, rfl, ?_, ?_⟩
      · rwa [List.filter_cons_of_neg (by simp [hw])]
      · intro name schema hmem
        obtain ⟨b', hb', h⟩ := hall name schema hmem
        exact ⟨b', List.mem_cons_of_mem b hb', h⟩
    | missed hw hq =>
      obtain ⟨extra, rfl, hsub, hall⟩ := ih hs₁ h₂
      refine ⟨extra, rfl, ?_, ?_⟩
      · rw [List.filter_cons_of_pos hw, List.map_cons]
        exact hsub.cons _
      · intro name schema hmem
        obtain ⟨b', hb', h⟩ := hall name schema hmem
        exact ⟨b', List.mem_cons_of_mem b hb', h⟩
    | @found schema _ hw hq =>
      -- The name has a schema from here on, so that later imports of it are passed over.
      have hput := Table.put_eq_append (isWanted_eq_true_iff.1 hw).2.1 schema
      obtain ⟨extra, rfl, hsub, hall⟩ := ih hs₁ h₂
      rw [hput] at hsub hall ⊢
      have hfilter : (bs.filter (isWanted e (schemas ++ [(b.localName, schema)]))).Sublist
          (bs.filter (isWanted e schemas)) :=
        List.monotone_filter_right bs fun _ => isWanted_of_append
      refine ⟨(b.localName, schema) :: extra, by simp, ?_, ?_⟩
      · rw [List.filter_cons_of_pos hw, List.map_cons]
        exact (hsub.trans (hfilter.map _)).cons_cons _
      · intro name schema' hmem
        rcases List.mem_cons.1 hmem with heq | hmem
        · cases heq
          have hlast := (sustains_foldlM (hF b schema) bs _).of_call (hfound hs hq) h₂
          exact ⟨b, List.mem_cons_self, hw, rfl, hlast⟩
        · obtain ⟨b', hb', hw', h⟩ := hall name schema' hmem
          exact ⟨b', List.mem_cons_of_mem b hb', isWanted_of_append hw', h⟩

theorem derive_append {s s' : EngineState} {text : String} {m : SchemaMap}
    (h : (derive search text path).call p s = (.ok m, s')) :
    ∃ e extra, p.extract text path = .ok e ∧ m = e.toMap path (e.schemas ++ extra) ∧
      (Table.keys extra).Sublist e.importedNames := by
  obtain ⟨e, schemas, he, rfl, hf⟩ := call_derive_ok_iff.1 h
  obtain ⟨extra, rfl, hsub, -⟩ := foldlM_addImport_append (I := fun _ => True)
    (F := fun _ _ _ => True) (fun _ _ _ h => h) (fun _ _ _ _ _ h => h) (fun _ _ => trivial)
    trivial hf
  exact ⟨e, extra, he, rfl, hsub⟩

theorem scanFile_append {s s' : EngineState} {text : String} {m : SchemaMap}
    (h : (scanFile text path).call p s = (.ok m, s')) :
    ∃ e extra, p.extract text (Path.key path) = .ok e ∧
      m = e.toMap (Path.key path) (e.schemas ++ extra) ∧
      (Table.keys extra).Sublist e.importedNames := by
  obtain ⟨s₁, hd, -⟩ := call_scanFile_ok h
  exact derive_append hd

/-- Two engines with the same settings and any files, in any states, scan a text. Their maps agree
on everything but the schemas of imports, which come last and in the order of the imports. -/
theorem scanFile_isolated {files files' : Files} {s s' t t' : EngineState} {text : String}
    {m n : SchemaMap} (hm : (scanFile text path).call { p with files := files } s = (.ok m, s'))
    (hn : (scanFile text path).call { p with files := files' } t = (.ok n, t')) :
    m.reexports = n.reexports ∧ m.defaultExport = n.defaultExport ∧ m.validated = n.validated ∧
      ∃ e extra extra', p.extract text (Path.key path) = .ok e ∧
        m.schemas = e.schemas ++ extra ∧ n.schemas = e.schemas ++ extra' ∧
        (Table.keys extra).Sublist e.importedNames ∧
        (Table.keys extra').Sublist e.importedNames := by
  obtain ⟨e, extra, he, rfl, hsub⟩ := scanFile_append hm
  obtain ⟨e', extra', he', rfl, hsub'⟩ := scanFile_append hn
  rw [Project.extract_files] at he he'
  obtain rfl : e = e' := Except.ok.inj (he.symm.trans he')
  exact ⟨rfl, rfl, rfl, e, extra, extra', he, rfl, rfl, hsub, hsub'⟩

def routeOfUser : String := "import {X} from './b';X.parse(1);const R=z.object({})"

def users : Project := .ofTexts [("/app/b.ts", "export const X=z.object({})")]

/-- The file that is imported is there in one project and missing in the other. -/
theorem scanFile_isolated_missing :
    ∃ m s n t, (scanFile routeOfUser "/app/a.ts").call users {} = (.ok m, s) ∧
      (scanFile routeOfUser "/app/a.ts").call (.ofTexts []) {} = (.ok n, t) ∧
      m.names = ["R", "X"] ∧ n.names = ["R"] ∧ m.validated = n.validated := by
  have hcalls : ((scanFile routeOfUser "/app/a.ts").call users {}).1.toOption.map (·.names) =
        some ["R", "X"] ∧
      ((scanFile routeOfUser "/app/a.ts").call (.ofTexts []) {}).1.toOption.map (·.names) =
        some ["R"] := by
    decide +kernel
  obtain ⟨m, s, hm, hnames⟩ := call_ok_of_map hcalls.1
  obtain ⟨n, t, hn, hnames'⟩ := call_ok_of_map hcalls.2
  obtain ⟨-, -, hvalidated, -⟩ := scanFile_isolated (p := {}) hm hn
  exact ⟨m, s, n, t, hm, hn, hnames, hnames', hvalidated⟩

end Engine

end ContractInference
