import ContractInference.Proofs.Isolation
import ContractInference.Proofs.Uncached
import ContractInference.Proofs.WriteOnce

/-!
# Exported schemas

A schema that a file declares is found in the file under the name that it is declared by, and as the
default if it is the default. A name that a list of exports gives it is not recorded.
-/

namespace ContractInference

namespace Links

/-- A statement that exports what the program has itself. -/
def isOwnExport (n : Node) : Bool :=
  n.isKind "export_statement" && ((n.child? "source").bind Tree.stringValue?).isNone

/-- The expression that a statement makes the default. -/
def defaultOf? (n : Node) : Option Node :=
  if isOwnExport n && n.hasChildKind "default" then n.child? "value" else none

def listed (n : Node) : List (String × String) :=
  if isOwnExport n && !n.hasChildKind "default" then
    (exportSpecifiers n).map fun (name, alias?) => (name, alias?.getD name)
  else []

def declaredName? (declarator : Node) : Option String :=
  if declarator.isKind "variable_declarator" then
    ((declarator.child? "name").filter (·.isKind "identifier")).map (·.text)
  else none

def declared (n : Node) : List String :=
  if isOwnExport n && !n.hasChildKind "default" then
    match n.child? "declaration" with
    | some d =>
      if d.isKind "lexical_declaration" || d.isKind "variable_declaration" then
        d.namedChildren.filterMap declaredName?
      else [d.childText "name"]
    | none => []
  else []

/-- A program exports one of its names as it is, or as the default. -/
inductive Exposes (program : Node) (name : String) : String → Prop
  | declared {n : Node} : n ∈ program.children → name ∈ declared n → Exposes program name name
  | listed {n : Node} : n ∈ program.children → (name, name) ∈ listed n → Exposes program name name
  | default {n value : Node} : n ∈ program.children → defaultOf? n = some value →
    value.isKind "identifier" = true → value.text = name → Exposes program name "default"

theorem Exposes.eq_or_eq {program : Node} {name exported : String}
    (h : Exposes program name exported) : exported = name ∨ exported = "default" := by
  cases h with
  | declared _ _ => exact .inl rfl
  | listed _ _ => exact .inl rfl
  | default _ _ _ _ => exact .inr rfl

/-- A program exports one of its names under another one that a list gives it. -/
def Renames (program : Node) (name exported : String) : Prop :=
  exported ≠ name ∧ ∃ n ∈ program.children, (name, exported) ∈ listed n

/-- A name that is exported stands for nothing in a program but one of its names, of which the
program has the given schemas. -/
@[mk_iff]
structure BoundOnlyTo (program : Node) (schemas : Table String Schema) (name exported : String) :
    Prop where
  schema : exported ≠ name → Table.get? schemas exported = none
  imported : exported ≠ name → ∀ b ∈ imports program, b.localName ≠ exported
  listed : ∀ n ∈ program.children, ∀ e ∈ listed n, e.2 = exported → e.1 = name
  default : exported = "default" → ∀ n ∈ program.children, ∀ value ∈ defaultOf? n,
    value.isKind "identifier" = true ∧ value.text = name
  forwarded : ∀ n ∈ program.children, n.isKind "export_statement" = true →
    ∀ source ∈ (n.child? "source").bind Tree.stringValue?, ∀ r ∈ forwardsFrom source n,
      r.exported ≠ some exported

instance (program : Node) (schemas : Table String Schema) (name exported : String) :
    Decidable (BoundOnlyTo program schemas name exported) :=
  decidable_of_iff _ (boundOnlyTo_iff program schemas name exported).symm

variable {program : Node} {bindings : List ImportBinding} {name exported : String}

theorem bindingOf?_eq_none (h : ∀ b ∈ bindings, b.localName ≠ name) :
    bindingOf? bindings name = none := by
  rw [bindingOf?, List.find?_eq_none]
  intro b hb
  simpa using h b (List.mem_reverse.1 hb)

theorem forwardImported_eq_none (h : ∀ b ∈ bindings, b.localName ≠ name) (exported : String) :
    forwardImported bindings name exported = none := by
  rw [forwardImported, bindingOf?_eq_none h, Option.map_none]

variable (bindings) in
theorem addExport_of_defaultOf?_none (e : Exports) {n : Node} (h : defaultOf? n = none) :
    (addExport bindings e n).defaultExport = e.defaultExport ∧
      (addExport bindings e n).defaultValue = e.defaultValue := by
  unfold addExport
  split
  · rename_i hkind
    split
    · exact ⟨rfl, rfl⟩
    · rename_i hsource
      split
      · rename_i hdefault
        have hvalue : n.child? "value" = none := by
          simpa [defaultOf?, isOwnExport, hkind, hsource, hdefault] using h
        rw [hvalue]
        exact ⟨rfl, rfl⟩
      · exact ⟨rfl, rfl⟩
  · exact ⟨rfl, rfl⟩

theorem addExport_of_defaultOf?_some (e : Exports) {n value : Node}
    (h : defaultOf? n = some value) :
    addExport bindings e n = addDefaultExport bindings e value := by
  unfold defaultOf? isOwnExport at h
  split at h
  · rename_i hn
    simp only [Bool.and_eq_true, Option.isNone_iff_eq_none] at hn
    obtain ⟨⟨hkind, hsource⟩, hdefault⟩ := hn
    rw [addExport, if_pos hkind, hsource]
    dsimp only
    rw [if_pos hdefault, h]
  · cases h

/-- A local name that alone is made the default is the default, if it is made so at all. -/
theorem exports_default (hname : ∀ b ∈ bindings, b.localName ≠ name)
    (honly : ∀ n ∈ program.children, ∀ value ∈ defaultOf? n,
      value.isKind "identifier" = true ∧ value.text = name) :
    (exports program bindings).defaultValue = none ∧
      (exports program bindings).defaultExport =
        if program.children.any fun n => (defaultOf? n).isSome then some name else none := by
  -- The statements are taken from the left; a default that was found stays.
  suffices hfold : ∀ (ns : List Node) (e : Exports), (∀ n ∈ ns, n ∈ program.children) →
      (ns.foldl (addExport bindings) e).defaultValue = e.defaultValue ∧
        (ns.foldl (addExport bindings) e).defaultExport =
          if ns.any fun n => (defaultOf? n).isSome then some name else e.defaultExport from
    hfold program.children {} fun _ h => h
  intro ns
  induction ns with
  | nil => exact fun e _ => ⟨rfl, rfl⟩
  | cons n ns ih =>
    intro e hmem
    have hrest : ∀ n' ∈ ns, n' ∈ program.children := fun n' h => hmem n' (List.mem_cons_of_mem n h)
    rw [List.foldl_cons, List.any_cons]
    cases hn : defaultOf? n with
    | none =>
      obtain ⟨he, hv⟩ := addExport_of_defaultOf?_none bindings e hn
      obtain ⟨hvalue, hexport⟩ := ih (addExport bindings e n) hrest
      exact ⟨hvalue.trans hv, by rw [hexport, he]; rfl⟩
    | some value =>
      obtain ⟨hkind, rfl⟩ := honly n (hmem n List.mem_cons_self) value hn
      rw [addExport_of_defaultOf?_some e hn, addDefaultExport, if_pos hkind,
        forwardImported_eq_none hname]
      obtain ⟨hvalue, hexport⟩ := ih { e with defaultExport := some value.text } hrest
      exact ⟨hvalue, by rw [hexport]; exact ite_self _⟩

theorem forwards_eq_none {r : ReExport} (h : r.exported ≠ none) (hne : r.exported ≠ some name) :
    r.forwards name = none := by
  unfold ReExport.forwards
  cases he : r.exported with
  | none => exact absurd he h
  | some given =>
    have hgiven : given ≠ name := fun hg => hne (he.trans (congrArg some hg))
    simp [hgiven]

theorem mem_reexports_addExport {e : Exports} {n : Node} {r : ReExport}
    (h : r ∈ (addExport bindings e n).reexports) :
    r ∈ e.reexports ∨
      (∃ source, n.isKind "export_statement" = true ∧
        (n.child? "source").bind Tree.stringValue? = some source ∧ r ∈ forwardsFrom source n) ∨
      (∃ value, defaultOf? n = some value ∧ value.isKind "identifier" = true ∧
        forwardImported bindings value.text "default" = some r) ∨
      ∃ name exported, (name, exported) ∈ listed n ∧
        forwardImported bindings name exported = some r := by
  unfold addExport at h
  split at h
  · rename_i hkind
    split at h
    · rename_i source hsource
      rcases List.mem_append.1 h with h | h
      · exact .inl h
      · exact .inr (.inl ⟨source, hkind, hsource, h⟩)
    · rename_i hsource
      have hown : isOwnExport n = true := by simp [isOwnExport, hkind, hsource]
      split at h
      · rename_i hdefault
        split at h
        · rename_i value hvalue
          have hdef : defaultOf? n = some value := by
            rw [defaultOf?, hown, hdefault]
            exact hvalue
          unfold addDefaultExport at h
          split at h
          · rename_i hident
            split at h
            · rename_i r' hr'
              rcases List.mem_append.1 h with h | h
              · exact .inl h
              · rw [List.mem_singleton.1 h]
                exact .inr (.inr (.inl ⟨value, hdef, hident, hr'⟩))
            · exact .inl h
          · exact .inl h
        · exact .inl h
      · rename_i hdefault
        rcases List.mem_append.1 h with h | h
        · exact .inl h
        · obtain ⟨⟨name, alias?⟩, hmem, hr⟩ := List.mem_filterMap.1 h
          refine .inr (.inr (.inr ⟨name, alias?.getD name, ?_, hr⟩))
          rw [listed, hown, Bool.eq_false_iff.2 hdefault]
          exact List.mem_map.2 ⟨(name, alias?), hmem, rfl⟩
  · exact .inl h

/-- A name that stands for a local name only is not forwarded to any module by name. -/
theorem exported_ne_of_boundOnlyTo {schemas : Table String Schema}
    (hname : ∀ b ∈ bindings, b.localName ≠ name) (h : BoundOnlyTo program schemas name exported)
    {r : ReExport} (hr : r ∈ (exports program bindings).reexports) :
    r.exported ≠ some exported := by
  suffices hfold : ∀ (ns : List Node) (e : Exports), (∀ n ∈ ns, n ∈ program.children) →
      (∀ r ∈ e.reexports, r.exported ≠ some exported) →
      ∀ r ∈ (ns.foldl (addExport bindings) e).reexports, r.exported ≠ some exported from
    hfold program.children {} (fun _ h => h) nofun r hr
  intro ns
  induction ns with
  | nil => exact fun e _ he => he
  | cons n ns ih =>
    intro e hmem he
    rw [List.foldl_cons]
    refine ih _ (fun n' h' => hmem n' (List.mem_cons_of_mem n h')) fun r hr => ?_
    have hn : n ∈ program.children := hmem n List.mem_cons_self
    rcases mem_reexports_addExport hr with hr | ⟨source, hkind, hsource, hr⟩ |
      ⟨value, hvalue, -, hr⟩ | ⟨other, given, hlisted, hr⟩
    · exact he r hr
    · exact h.forwarded n hn hkind source hsource r hr
    · rintro hexported
      obtain ⟨b, hb, rfl⟩ := Option.map_eq_some_iff.1 hr
      obtain ⟨-, rfl⟩ := h.default (Option.some.inj hexported).symm n hn value hvalue
      rw [bindingOf?_eq_none hname] at hb
      cases hb
    · rintro hexported
      obtain ⟨b, hb, rfl⟩ := Option.map_eq_some_iff.1 hr
      obtain rfl : given = exported := Option.some.inj hexported
      obtain rfl : other = name := h.listed n hn (other, given) hlisted rfl
      rw [bindingOf?_eq_none hname] at hb
      cases hb

end Links

namespace Extraction

open Links

/-- What a file says by itself: what it declares, and its links, with a default that is an
expression. -/
theorem ofTree_ok {s : Settings} {tree : SourceTree} {e : Extraction}
    (h : ofTree s tree = .ok e) :
    ∃ own, declared s tree = .ok own ∧ e.bindings = imports tree.root ∧
      e.reexports = (exports tree.root (imports tree.root)).reexports ∧
      (e.schemas = own.schemas ∧
          e.defaultExport = (exports tree.root (imports tree.root)).defaultExport ∨
        (exports tree.root (imports tree.root)).defaultValue ≠ none ∧
          e.defaultExport = some "default" ∧
          ∃ schema, e.schemas = Table.put own.schemas "default" schema) := by
  unfold ofTree at h
  cases hown : declared s tree with
  | error err =>
    rw [hown] at h
    cases h
  | ok own =>
    rw [hown] at h
    change withDefault s _ _ = .ok e at h
    refine ⟨own, rfl, ?_⟩
    unfold withDefault at h
    split at h
    · rename_i n hvalue
      cases hs : Builder.schema? s.builder n (some "default") with
      | error err =>
        rw [hs] at h
        cases h
      | ok found =>
        rw [hs] at h
        cases found with
        | none =>
          cases h
          exact ⟨rfl, rfl, .inl ⟨rfl, rfl⟩⟩
        | some schema =>
          cases h
          exact ⟨rfl, rfl, .inr ⟨by rw [hvalue]; exact nofun, rfl, schema, rfl⟩⟩
    · cases h
      exact ⟨rfl, rfl, .inl ⟨rfl, rfl⟩⟩

variable {s : Settings} {tree : SourceTree} {e own : Extraction} {name exported : String}

theorem keyOf_default (e : Extraction) : e.keyOf "default" = e.defaultExport.getD "default" := by
  unfold keyOf
  cases e.defaultExport <;> rfl

theorem keyOf_of_ne (e : Extraction) (h : name ≠ "default") : e.keyOf name = name := by
  unfold keyOf
  cases e.defaultExport <;> simp [h]

/-- A name that is offered as it is or as the default has the schema of the name. -/
theorem get?_keyOf_of_exposes {schema : Schema} (h : ofTree s tree = .ok e)
    (hown : declared s tree = .ok own) (hschema : Table.get? own.schemas name = some schema)
    (hname : ∀ b ∈ imports tree.root, b.localName ≠ name)
    (hexposes : Exposes tree.root name exported)
    (honly : BoundOnlyTo tree.root own.schemas name exported) :
    Table.get? e.schemas (e.keyOf exported) = some schema := by
  obtain ⟨own', hown', -, -, hcases⟩ := ofTree_ok h
  obtain rfl : own = own' := Except.ok.inj (hown.symm.trans hown')
  by_cases hdefault : exported = "default"
  · obtain ⟨hvalue, hexport⟩ := exports_default hname (honly.default hdefault)
    rcases hcases with ⟨hs, hd⟩ | ⟨hne, -⟩
    · have hkey : e.keyOf exported = name := by
        rw [hdefault, keyOf_default, hd, hexport]
        cases hexposes with
        | declared _ _ => split <;> simp [hdefault]
        | listed _ _ => split <;> simp [hdefault]
        | @default n value hn hvalue _ _ =>
          have hany : (tree.root.children.any fun n => (defaultOf? n).isSome) = true :=
            List.any_eq_true.2 ⟨n, hn, by rw [hvalue]; rfl⟩
          rw [hany]
          rfl
      rw [hs, hkey, hschema]
    · exact absurd hvalue hne
  · obtain rfl : exported = name := hexposes.eq_or_eq.resolve_right hdefault
    rw [keyOf_of_ne e hdefault]
    rcases hcases with ⟨hs, -⟩ | ⟨-, -, schema', hs⟩
    · rw [hs, hschema]
    · rw [hs, Table.get?_put, if_neg (Ne.symm hdefault), hschema]

/-- A name that stands for a local name with another name has nothing. -/
theorem get?_keyOf_of_renames (h : ofTree s tree = .ok e) (hown : declared s tree = .ok own)
    (hname : ∀ b ∈ imports tree.root, b.localName ≠ name) (hne : exported ≠ name)
    (hexposes : ¬ Exposes tree.root name exported)
    (honly : BoundOnlyTo tree.root own.schemas name exported) :
    e.keyOf exported = exported ∧ Table.get? e.schemas exported = none := by
  obtain ⟨own', hown', -, -, hcases⟩ := ofTree_ok h
  obtain rfl : own = own' := Except.ok.inj (hown.symm.trans hown')
  have hnone : Table.get? own.schemas exported = none := honly.schema hne
  by_cases hdefault : exported = "default"
  · obtain ⟨hvalue, hexport⟩ := exports_default hname (honly.default hdefault)
    have hany : (tree.root.children.any fun n => (defaultOf? n).isSome) = false := by
      rw [List.any_eq_false]
      intro n hn hsome
      obtain ⟨value, hv⟩ := Option.isSome_iff_exists.1 hsome
      obtain ⟨hkind, htext⟩ := honly.default hdefault n hn value hv
      exact hexposes (hdefault ▸ .default hn hv hkind htext)
    rcases hcases with ⟨hs, hd⟩ | ⟨hvalue', -⟩
    · refine ⟨?_, by rw [hs, hnone]⟩
      rw [hdefault, keyOf_default, hd, hexport, hany]
      rfl
    · exact absurd hvalue hvalue'
  · refine ⟨keyOf_of_ne e hdefault, ?_⟩
    rcases hcases with ⟨hs, -⟩ | ⟨-, -, schema', hs⟩
    · rw [hs, hnone]
    · rw [hs, Table.get?_put, if_neg (Ne.symm hdefault), hnone]

/-- The map has what the file says by itself, followed by schemas of imports. -/
def Extends (e : Extraction) (path : String) (m : SchemaMap) : Prop :=
  ∃ extra, m = e.toMap path (e.schemas ++ extra) ∧ (Table.keys extra).Sublist e.importedNames

theorem Extends.get?_of_some {path : String} {m : SchemaMap} {schema : Schema}
    (h : e.Extends path m) (hs : Table.get? e.schemas (e.keyOf name) = some schema) :
    m.get? name = some schema := by
  obtain ⟨extra, rfl, -⟩ := h
  rw [get?_toMap, Table.get?_append, hs]
  rfl

theorem Extends.get?_eq_none {path : String} {m : SchemaMap} (h : e.Extends path m)
    (hs : Table.get? e.schemas (e.keyOf name) = none)
    (hb : ∀ b ∈ e.bindings, b.localName ≠ e.keyOf name) : m.get? name = none := by
  obtain ⟨extra, rfl, hkeys⟩ := h
  rw [get?_toMap, Table.get?_append, hs, Option.none_or, Option.eq_none_iff_forall_ne_some]
  intro schema hextra
  have hmem : e.keyOf name ∈ e.importedNames :=
    hkeys.subset (List.mem_map.2 ⟨_, Table.mem_of_get? hextra, rfl⟩)
  obtain ⟨b, hmem, hb'⟩ := List.mem_map.1 hmem
  exact hb b (List.mem_filter.1 hmem).1 hb'

end Extraction

namespace Project

variable {p : Project}

/-- The file can be read, and its text has the tree. -/
def HasTree (p : Project) (path : String) (tree : SourceTree) : Prop :=
  ∃ text, p.files.readText path = .ok text ∧
    SourceTree.parse p.frontEnd p.settings.parsing.maxErrorRatio (Path.ofString path) text =
      .ok tree

theorem HasTree.ofTree {path : String} {tree : SourceTree} {e : Extraction}
    (h : p.HasTree path tree) (he : p.Says path e) : Extraction.ofTree p.settings tree = .ok e := by
  obtain ⟨text, ht, htree⟩ := h
  obtain ⟨text', ht', he⟩ := he
  obtain rfl : text = text' := Except.ok.inj (ht.symm.trans ht')
  unfold extract at he
  rw [htree] at he
  exact he

/-- The first of the files that a module's name can stand for that is there. -/
def IsFirst (p : Project) (modulePath fromFile name path : String) : Prop :=
  ∃ before after, Candidates.paths p.settings.resolver modulePath fromFile name p.root =
      .ok (before ++ path :: after) ∧
    (∀ c ∈ before, p.files.isFile c = false) ∧ p.files.isFile path = true

end Project

/-- What is kept of a file has what the file says by itself. -/
def EngineState.Faithful (s : EngineState) (p : Project) (path : String) : Prop :=
  ∀ ⦃m⦄, s.cache.get? path = some m → ∃ e, p.Says path e ∧ e.Extends path m

/-- A text of the file that is given is the one that the file has. -/
def Operation.FromDisk (p : Project) (path : String) : Operation → Prop
  | .scan text q | .bind text q => Path.key q = path → p.files.readText path = .ok text
  | .document .. | .resolve .. => True

namespace Engine

variable {p : Project} {path : String} {s s' : EngineState}

theorem extends_of_derive {search : Search} {text : String} {m : SchemaMap}
    (hd : (derive search text path).call p s = (.ok m, s'))
    (ht : p.files.readText path = .ok text) : ∃ e, p.Says path e ∧ e.Extends path m := by
  obtain ⟨e, extra, he, hm, hkeys⟩ := derive_append hd
  exact ⟨e, ⟨text, ht, he⟩, extra, hm, hkeys⟩

theorem faithful_store {search : Search} {text q : String} {m : SchemaMap}
    (hd : (derive search text q).call p s = (.ok m, s'))
    (ht : q = path → p.files.readText path = .ok text) (h : s'.Faithful p path) :
    EngineState.Faithful { s' with cache := (s'.cache.putIfAbsent q m).2 } p path := by
  intro m' hm
  rw [Cache.get?_putIfAbsent] at hm
  split at hm
  · subst q
    rcases Option.or_eq_some_iff.1 hm with hm | ⟨-, ⟨⟩⟩
    · exact h hm
    · exact extends_of_derive hd (ht rfl)
  · exact h hm

theorem invariant_faithful {search : Search}
    (hk : ∀ name modulePath fromFile, Keeps p (search name modulePath fromFile))
    (hs : ∀ name modulePath fromFile,
      Sustains p (·.Faithful p path) (search name modulePath fromFile)) :
    Invariant p search (·.Faithful p path) where
  keeps := hk
  sustains := hs
  congr h _ hc _ := fun m hm => h (hc ▸ hm)
  parsed h := fun m hm => h (by rwa [EngineState.parsed_cache] at hm)
  push _ h := h
  pop _ _ _ h := h
  store _ _ _ hr hd _ h := faithful_store hd (fun hq => hq ▸ hr) h

theorem invariant_faithful_search : Invariant p search (·.Faithful p path) := by
  refine invariant_faithful keeps_search (sustains_search fun depth => ?_)
  induction depth with
  | zero => exact sustains_searchTo_zero
  | succ depth ih => exact (invariant_faithful (keeps_searchTo depth) ih).searchCandidates

theorem faithful_run {op : Operation} (hd : op.FromDisk p path) (h : s.Faithful p path) :
    (op.run.call p s).2.Faithful p path := by
  have hinv : Invariant p search (·.Faithful p path) := invariant_faithful_search
  have hscan : ∀ text q, (Path.key q = path → p.files.readText path = .ok text) →
      ((scanFile text q).call p s).2.Faithful p path := by
    intro text q ht
    have hderive := hinv.derive text (Path.key q) (s := s.push (Path.key q)) h
    rw [call_scanFile, call_inFlight]
    rcases hc : (derive search text (Path.key q)).call p (s.push (Path.key q)) with ⟨_ | m, s₁⟩
    · rw [hc] at hderive
      exact hderive
    · rw [hc] at hderive
      have hstored := faithful_store hc ht hderive
      exact hstored
  cases op with
  | scan text q =>
    rw [Operation.run, call_map_state]
    exact hscan text q hd
  | bind text q =>
    rw [Operation.call_bind, Operation.run, call_map_state]
    exact hscan text q hd
  | resolve name modulePath fromFile =>
    rw [Operation.run, call_map_state]
    exact sustains_searchOrReport hinv.sustains hinv.congr name modulePath (Path.key fromFile) h
  | document text q =>
    obtain ⟨new, hc, -⟩ := call_scanDocument p s text q
    rw [Operation.run, call_map_state, hc]
    exact h

theorem faithful_after {ops : List Operation} (hd : ∀ op ∈ ops, op.FromDisk p path)
    (h : s.Faithful p path) : (Operation.after p s ops).Faithful p path := by
  induction ops generalizing s with
  | nil => exact h
  | cons op ops ih =>
    obtain ⟨hop, hd⟩ := List.forall_mem_cons.1 hd
    exact ih hd (faithful_run hop h)

theorem extends_of_load {m : SchemaMap} (h : s.Faithful p path)
    (hl : (load search path).call p (s.push path) = (.ok (some m), s')) :
    ∃ e, p.Says path e ∧ e.Extends path m := by
  cases call_load_ok_iff.1 hl with
  | hit hm => exact h hm
  | skipped _ hr hd _ => exact extends_of_derive hd hr
  | @stored text m s₁ _ hr hd _ =>
    have henter : ((s.push path).enter path).Faithful p path := h
    have hs₁ : s₁.Faithful p path := by
      have hderive := invariant_faithful_search.derive text path henter
      rwa [hd] at hderive
    refine faithful_store hd (fun _ => hr) hs₁ ?_
    rw [Cache.get?_putIfAbsent, if_pos rfl, Cache.putIfAbsent_fst]
    cases s₁.cache.get? path <;> rfl

section

variable {name modulePath fromFile text : String} {found : Option Schema}
  (hr : p.files.readText path = .ok text) (h : s.Faithful p path)
  (hin : s.inFlight.contains path = false)
include hr h hin

/-- What is looked for in a file that can be opened is looked for in a map that has what the file
says, and then where the file forwards the name to. -/
theorem searchFile_ok (hc : (searchFile search name fromFile path).call p s = (.ok found, s')) :
    ∃ e m, p.Says path e ∧ e.Extends path m ∧
      ((∃ schema, m.get? name = some schema ∧ found = some schema) ∨
        m.get? name = none ∧
          ∃ s₁ s₂, (followReExports search m name).call p s₁ = (.ok found, s₂)) := by
  cases call_searchFileBy_ok_iff.1 hc with
  | met hp =>
    rw [hin] at hp
    cases hp
  | absent _ hf =>
    rw [Project.isFile_of_readText hr] at hf
    cases hf
  | opened _ _ hmap =>
    cases call_searchMapBy_ok_iff.1 hmap with
    | unreadable hl =>
      cases call_load_ok_iff.1 hl with
      | unreadable _ hr' =>
        rw [hr] at hr'
        cases hr'
    | found hl hm =>
      obtain ⟨e, he, hext⟩ := extends_of_load h hl
      exact ⟨e, _, he, hext, .inl ⟨_, hm, rfl⟩⟩
    | followed hl hm hf =>
      obtain ⟨e, he, hext⟩ := extends_of_load h hl
      exact ⟨e, _, he, hext, .inr ⟨hm, _, _, hf⟩⟩

theorem searchFile_eq_some {schema : Schema}
    (hs : ∀ e, p.Says path e → Table.get? e.schemas (e.keyOf name) = some schema)
    (hc : (searchFile search name fromFile path).call p s = (.ok found, s')) :
    found = some schema := by
  obtain ⟨e, m, he, hm, ⟨schema', hget, rfl⟩ | ⟨hget, -⟩⟩ := searchFile_ok hr h hin hc
  · rw [← hget, hm.get?_of_some (hs e he)]
  · rw [hm.get?_of_some (hs e he)] at hget
    cases hget

theorem searchFile_eq_none
    (hs : ∀ e, p.Says path e → Table.get? e.schemas (e.keyOf name) = none ∧
      (∀ b ∈ e.bindings, b.localName ≠ e.keyOf name) ∧ ∀ r ∈ e.reexports, r.forwards name = none)
    (hc : (searchFile search name fromFile path).call p s = (.ok found, s')) : found = none := by
  obtain ⟨e, m, he, hm, hcases⟩ := searchFile_ok hr h hin hc
  obtain ⟨hnone, hb, hforwards⟩ := hs e he
  rcases hcases with ⟨schema, hget, -⟩ | ⟨-, s₁, s₂, hf⟩
  · rw [hm.get?_eq_none hnone hb] at hget
    cases hget
  · obtain ⟨extra, rfl, -⟩ := hm
    cases found with
    | none => rfl
    | some schema =>
      obtain ⟨r, hmem, s₃, -, hr'⟩ := found_of_firstFound (I := fun _ => True)
        (fun _ _ _ => trivial) trivial hf
      rw [hforwards r hmem] at hr'
      cases hr'

end

theorem call_firstFound_absent {cs : List String} (hcs : ∀ c ∈ cs, p.files.isFile c = false)
    (name fromFile : String) (s : EngineState) :
    ∃ t, (firstFound (searchFile search name fromFile) cs).call p s = (.ok none, t) ∧
      t.cache = s.cache ∧ t.inFlight.depths = s.inFlight.depths := by
  induction cs generalizing s with
  | nil => exact ⟨s, rfl, rfl, rfl⟩
  | cons c cs ih =>
    obtain ⟨hc, hcs⟩ := List.forall_mem_cons.1 hcs
    obtain ⟨s₁, hone, hcache, hdepths⟩ : ∃ s₁,
        (searchFile search name fromFile c).call p s = (.ok none, s₁) ∧ s₁.cache = s.cache ∧
          s₁.inFlight.depths = s.inFlight.depths := by
      rw [searchFile_eq, call_searchFileBy, hc]
      cases s.inFlight.contains c with
      | true => exact ⟨s.meet c name fromFile, rfl, rfl, rfl⟩
      | false => exact ⟨s, rfl, rfl, rfl⟩
    obtain ⟨t, hrest, htc, htd⟩ := ih hcs s₁
    refine ⟨t, ?_, htc.trans hcache, htd.trans hdepths⟩
    rw [call_firstFound_cons, hone]
    exact hrest

section

variable {name modulePath fromFile text : String} {found : Option Schema}
  (hr : p.files.readText path = .ok text) (h : s.Faithful p path)
  (hin : s.inFlight.contains path = false)
include hr h hin

theorem search_eq_some {schema : Schema} (hfirst : p.IsFirst modulePath fromFile name path)
    (hs : ∀ e, p.Says path e → Table.get? e.schemas (e.keyOf name) = some schema)
    (hc : (search name modulePath fromFile).call p s = (.ok found, s')) : found = some schema := by
  obtain ⟨before, after, hpaths, hbefore, -⟩ := hfirst
  obtain ⟨t, ht, hcache, hdepths⟩ := call_firstFound_absent hbefore name fromFile s
  rw [← searchCandidates_search, call_searchCandidates, hpaths] at hc
  dsimp only at hc
  rw [call_firstFound_append ht, call_firstFound_cons] at hc
  have hft : t.Faithful p path := fun m hm => h (hcache ▸ hm)
  have hint : t.inFlight.contains path = false := by
    rwa [InFlight.contains, hdepths]
  rcases hfile : (searchFile search name fromFile path).call p t with ⟨_ | found', t₁⟩
  · rw [hfile] at hc
    cases hc
  · obtain rfl := searchFile_eq_some hr hft hint hs hfile
    rw [hfile] at hc
    cases hc
    rfl

theorem search_eq_none (honly : ∀ c, p.IsCandidate modulePath fromFile name c → c = path)
    (hs : ∀ e, p.Says path e → Table.get? e.schemas (e.keyOf name) = none ∧
      (∀ b ∈ e.bindings, b.localName ≠ e.keyOf name) ∧ ∀ r ∈ e.reexports, r.forwards name = none)
    (hc : (search name modulePath fromFile).call p s = (.ok found, s')) : found = none := by
  cases found with
  | none => rfl
  | some schema =>
    rw [← searchCandidates_search] at hc
    obtain ⟨candidates, hpaths, hc⟩ := call_searchCandidates_ok_iff.1 hc
    have hsustains : ∀ c, Sustains p (fun t => t.Faithful p path ∧ t.inFlight.contains path = false)
        (searchFile search name fromFile c) := by
      intro c t ⟨hft, hint⟩
      refine ⟨invariant_faithful_search.searchFile name fromFile c hft, ?_⟩
      rw [(keeps_searchFile keeps_search name fromFile c t).contains]
      exact hint
    obtain ⟨c, hmem, t, ⟨hft, hint⟩, hfile⟩ := found_of_firstFound hsustains ⟨h, hin⟩ hc
    -- A file that is not there gives nothing, and neither does the one that is.
    cases hf : p.files.isFile c with
    | false =>
      cases call_searchFileBy_ok_iff.1 hfile with
      | opened _ hf' _ =>
        rw [hf] at hf'
        cases hf'
    | true =>
      obtain rfl := honly c ⟨candidates, hpaths, hmem, hf⟩
      exact searchFile_eq_none hr hft hint hs hfile

end

/-- A file declares a schema under a name that it does not import, and exports it under a name that
stands for nothing else. Whatever was done before, as long as the texts given for the file were its
own, the schema is found wherever the file is the first that is there, if the name is exported as it
is or as the default. Under a name that a list gives it, it is not found. A search can only end
otherwise if a text or a path template makes it fail. -/
theorem resolveSchema_of_exposes {tree : SourceTree} {own : Extraction} {name exported : String}
    {schema : Schema} (htree : p.HasTree path tree)
    (hown : Extraction.declared p.settings tree = .ok own)
    (hschema : Table.get? own.schemas name = some schema)
    (hname : ∀ b ∈ Links.imports tree.root, b.localName ≠ name)
    (honly : Links.BoundOnlyTo tree.root own.schemas name exported) :
    (∀ {ops : List Operation}, (∀ op ∈ ops, op.FromDisk p path) →
      (Operation.after p {} ops).Faithful p path ∧ (Operation.after p {} ops).inFlight = {}) ∧
    ∀ {s : EngineState} {modulePath fromFile : String}, s.Faithful p path →
      s.inFlight.contains path = false →
      p.IsFirst modulePath (Path.key fromFile) exported path →
      (Links.Exposes tree.root name exported →
        (∃ s', (resolveSchema exported modulePath fromFile).call p s = (.ok (some schema), s')) ∨
        ∃ err s', (resolveSchema exported modulePath fromFile).call p s = (.error err, s') ∧
          p.Raises err) ∧
      (Links.Renames tree.root name exported → ¬ Links.Exposes tree.root name exported →
        (∀ r ∈ (Links.exports tree.root (Links.imports tree.root)).reexports, r.exported ≠ none) →
        (∀ c, p.IsCandidate modulePath (Path.key fromFile) exported c → c = path) →
        (∃ s', (resolveSchema exported modulePath fromFile).call p s = (.ok none, s')) ∨
        ∃ err s', (resolveSchema exported modulePath fromFile).call p s = (.error err, s') ∧
          p.Raises err) := by
  obtain ⟨text, hr, -⟩ := id htree
  refine ⟨fun hd => ⟨faithful_after hd nofun, ?_⟩,
    fun {s} {modulePath} {fromFile} h hin hfirst => ?_⟩
  · exact Operation.after_induction (I := (·.inFlight = {})) (fun op hs => op.inFlight_eq hs) _ rfl
  rcases hc : (resolveSchema exported modulePath fromFile).call p s with ⟨err | found, s'⟩
  · have hraises := fails_resolveSchema _ _ _ hc
    exact ⟨fun _ => .inr ⟨err, s', rfl, hraises⟩, fun _ _ _ _ => .inr ⟨err, s', rfl, hraises⟩⟩
  · obtain ⟨s₁, f, new, hsearch, -, -⟩ := call_resolveSchema_ok hc
    refine ⟨fun hexposes => .inl ⟨s', ?_⟩, fun hrenames hnot hnamed hcandidates => .inl ⟨s', ?_⟩⟩
    · have hget : ∀ e, p.Says path e → Table.get? e.schemas (e.keyOf exported) = some schema :=
        fun e he => Extraction.get?_keyOf_of_exposes (htree.ofTree he) hown hschema hname hexposes
          honly
      rw [search_eq_some hr h hin hfirst hget hsearch]
    · have hget : ∀ e, p.Says path e → Table.get? e.schemas (e.keyOf exported) = none ∧
          (∀ b ∈ e.bindings, b.localName ≠ e.keyOf exported) ∧
            ∀ r ∈ e.reexports, r.forwards exported = none := by
        intro e he
        have hof := htree.ofTree he
        obtain ⟨hkey, hnone⟩ :=
          Extraction.get?_keyOf_of_renames hof hown hname hrenames.1 hnot honly
        obtain ⟨-, -, hbindings, hreexports, -⟩ := Extraction.ofTree_ok hof
        rw [hkey, hbindings, hreexports]
        refine ⟨hnone, honly.imported hrenames.1, fun r hmem => ?_⟩
        exact Links.forwards_eq_none (hnamed r hmem)
          (Links.exported_ne_of_boundOnlyTo hname honly hmem)
      rw [search_eq_none hr h hin hcandidates hget hsearch]

/-- A schema that is the default and also exported under another name. -/
def exportsText : String := "const L=z.object(\x7b\x7d);export \x7bL as E\x7d;export default L"

def exporter : Project := .ofTexts [("/app/a.ts", exportsText)]

def exporterChecks (tree : SourceTree) (own : Extraction) : Bool :=
  (Table.get? own.schemas "L").isSome && (Links.imports tree.root).isEmpty &&
    (Links.exports tree.root (Links.imports tree.root)).reexports.isEmpty &&
    decide (Links.BoundOnlyTo tree.root own.schemas "L" "default") &&
    decide (Links.BoundOnlyTo tree.root own.schemas "L" "E") &&
    (tree.root.children.any fun n => (Links.listed n).contains ("L", "E")) &&
    tree.root.children.any fun n => (Links.defaultOf? n).any fun value =>
      value.isKind "identifier" && value.text == "L"

theorem readText_exporter : exporter.files.readText "/app/a.ts" = .ok exportsText := by
  have hdisk : (Request.scan exportsText "/app/a.ts").FromDisk exporter ∧
      Path.key "/app/a.ts" = "/app/a.ts" := by
    decide +kernel
  rw [Request.FromDisk, hdisk.2] at hdisk
  exact hdisk.1

theorem hasTree_exporter :
    ∃ tree own, exporter.HasTree "/app/a.ts" tree ∧
      Extraction.declared exporter.settings tree = .ok own ∧ exporterChecks tree own = true := by
  have hparse : (SourceTree.parse exporter.frontEnd exporter.settings.parsing.maxErrorRatio
      (Path.ofString "/app/a.ts") exportsText).toOption.map (fun tree =>
        (Extraction.declared exporter.settings tree).toOption.map (exporterChecks tree)) =
      some (some true) := by
    decide +kernel
  rcases htree : SourceTree.parse exporter.frontEnd exporter.settings.parsing.maxErrorRatio
    (Path.ofString "/app/a.ts") exportsText with fault | tree
  · rw [htree] at hparse
    cases hparse
  · rw [htree] at hparse
    obtain ⟨own, hown, hchecks⟩ := exists_of_toOption (Option.some.inj hparse)
    exact ⟨tree, own, ⟨exportsText, readText_exporter, htree⟩, hown, hchecks⟩

theorem isFirst_exporter {name : String} (h : name ∈ ["default", "E"]) :
    exporter.IsFirst "./a" (Path.key "/app/m.ts") name "/app/a.ts" := by
  have hpaths : ∀ name ∈ ["default", "E"], (Candidates.paths exporter.settings.resolver "./a"
      (Path.key "/app/m.ts") name exporter.root).toOption.map List.head? =
        some (some "/app/a.ts") := by
    decide +kernel
  obtain ⟨candidates, hcs, hhead⟩ := exists_of_toOption (hpaths name h)
  obtain ⟨rest, rfl⟩ := List.head?_eq_some_iff.1 hhead
  exact ⟨[], rest, hcs, nofun, by decide +kernel⟩

theorem resolveSchema_of_exposes_exporter :
    ∃ schema s s', (resolveSchema "default" "./a" "/app/m.ts").call exporter
        (Operation.after exporter {} [.scan exportsText "/app/a.ts"]) = (.ok (some schema), s) ∧
      (resolveSchema "E" "./a" "/app/m.ts").call exporter {} = (.ok none, s') := by
  obtain ⟨tree, own, htree, hown, hchecks⟩ := hasTree_exporter
  simp only [exporterChecks, Bool.and_eq_true, decide_eq_true_eq, List.any_eq_true,
    Option.isSome_iff_exists, Option.any_eq_true, List.isEmpty_iff, List.contains_iff_mem,
    beq_iff_eq] at hchecks
  obtain ⟨⟨⟨⟨⟨⟨⟨schema, hL⟩, himports⟩, hreexports⟩, honly⟩, honlyE⟩, n, hn, hlisted⟩,
    n', hn', value, hvalue, hkind, htext⟩ := hchecks
  have himported : ∀ b ∈ Links.imports tree.root, b.localName ≠ "L" := by
    rw [himports]
    intro b hb
    cases hb
  have hdisk : ∀ op ∈ [Operation.scan exportsText "/app/a.ts"],
      op.FromDisk exporter "/app/a.ts" := by
    intro op hop
    rw [List.mem_singleton.1 hop]
    exact fun _ => readText_exporter
  have hcalls : ((resolveSchema "default" "./a" "/app/m.ts").call exporter
        (Operation.after exporter {} [.scan exportsText "/app/a.ts"])).1.toOption.isSome = true ∧
      ((resolveSchema "E" "./a" "/app/m.ts").call exporter {}).1.toOption.isSome = true := by
    decide +kernel
  obtain ⟨hrun, hfound⟩ := resolveSchema_of_exposes htree hown hL himported honly
  obtain ⟨-, hmissed⟩ := resolveSchema_of_exposes htree hown hL himported honlyE
  obtain ⟨hfaithful, hempty⟩ := hrun hdisk
  obtain ⟨hdefault, -⟩ := hfound hfaithful (by rw [hempty]; rfl) (isFirst_exporter (by decide))
  have hfresh : ({} : EngineState).Faithful exporter "/app/a.ts" := by
    intro m hm
    cases hm
  obtain ⟨-, hrename⟩ := hmissed hfresh rfl (isFirst_exporter (by decide))
  have hnot : ¬ Links.Exposes tree.root "L" "E" := fun h => absurd h.eq_or_eq (by decide)
  have hcandidates : ∀ c, exporter.IsCandidate "./a" (Path.key "/app/m.ts") "E" c →
      c = "/app/a.ts" := by
    rintro c ⟨-, -, -, hf⟩
    simpa [exporter, Project.ofTexts, Files.isFile, Table.hasKey, eq_comm] using hf
  rcases hdefault (.default hn' hvalue hkind htext) with ⟨s, hs⟩ | ⟨err, s, hs, -⟩
  · have hnone : ∀ r ∈ (Links.exports tree.root (Links.imports tree.root)).reexports,
        r.exported ≠ none := by
      rw [hreexports]
      intro r hr
      cases hr
    rcases hrename ⟨by decide, n, hn, hlisted⟩ hnot hnone hcandidates
      with ⟨s', hs'⟩ | ⟨err, s', hs', -⟩
    · exact ⟨schema, s, s', hs, hs'⟩
    · rw [hs'] at hcalls
      cases hcalls.2
  · rw [hs] at hcalls
    cases hcalls.1

/-- A schema is declared and exported under another name. -/
def aliasing : Project :=
  .ofTexts [("/app/a.ts", "const L=z.object(\x7b\x7d);export \x7bL as E\x7d;")]

theorem resolveSchema_aliasing :
    ((resolveSchema "L" "./a" "/app/m.ts").call aliasing {}).1.toOption.map Option.isSome =
        some true ∧
      ((resolveSchema "E" "./a" "/app/m.ts").call aliasing {}).1.toOption.map Option.isSome =
        some false := by
  decide +kernel

end Engine

end ContractInference
