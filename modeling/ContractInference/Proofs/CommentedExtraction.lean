import ContractInference.Proofs.Call
import ContractInference.Proofs.Comments
import ContractInference.Proofs.Traversal

/-!
# Extraction from trees with comments

A file with comments has the imports, the exports, the builder schemas and the validated names of
the same file without them. Only what a type declaration says may differ: its name stays.
-/

namespace ContractInference

open ContractInference.Tree

namespace Links

theorem namedImport_bare (source : String) (typeOnly : Bool) (spec : Node) :
    namedImport source typeOnly spec.bare = namedImport source typeOnly spec := by
  simp [namedImport, hasChildKind_bare spec (k := "type") (by decide)]

theorem clauseImports_bare (source : String) (typeOnly : Bool) (part : Node) :
    clauseImports source typeOnly part.bare = clauseImports source typeOnly part := by
  have hnamed : part.bare.children.filterMap (namedImport source typeOnly) =
      part.children.filterMap (namedImport source typeOnly) := by
    rw [filterMap_children_bare]
    · simp only [namedImport_bare]
    · intro t ht
      simp [namedImport, isKind, ht]
  rw [clauseImports, clauseImports, isKind_bare, isKind_bare, text_bare, hnamed]

theorem statementImports_bare (n : Node) : statementImports n.bare = statementImports n := by
  have hclauses : n.bare.children.filter (·.isKind "import_clause") =
      (n.children.filter (·.isKind "import_clause")).map bare :=
    filter_children_bare n (p := fun t => t.kind == "import_clause") (by simp_all)
  have hparts : ∀ (source : String) (typeOnly : Bool) (clause : Node),
      clause.bare.children.flatMap (clauseImports source typeOnly) =
        clause.children.flatMap (clauseImports source typeOnly) := by
    intro source typeOnly clause
    rw [flatMap_children_bare]
    · simp only [clauseImports_bare]
    · intro t ht
      simp [clauseImports, isKind, ht]
  rw [statementImports, statementImports, child?_bare, hclauses,
    hasChildKind_bare n (k := "type") (by decide)]
  cases n.child? "source" with
  | none => rfl
  | some source => simp [List.flatMap_map, hparts]

theorem patternImport_bare (source : String) (property : Node) :
    patternImport source property.bare = patternImport source property := by
  rw [patternImport, patternImport, isKind_bare, isKind_bare, text_bare, childText_bare,
    child?_bare]
  cases property.child? "value" <;> simp

theorem requiredModule?_bare (value : Node) :
    requiredModule? value.bare = requiredModule? value := by
  rw [requiredModule?, requiredModule?, isKind_bare, childText_bare, child?_bare]
  cases value.child? "arguments" with
  | none => rfl
  | some args =>
    have hstrings : args.bare.namedChildren.filter (·.isKind "string") =
        (args.namedChildren.filter (·.isKind "string")).map bare :=
      filter_namedChildren_bare args (p := fun t => t.kind == "string") (by simp_all)
    simp only [Option.map_some, ← List.head?_filter, hstrings, List.head?_map]
    cases (args.namedChildren.filter (·.isKind "string")).head? <;> simp

theorem declaratorImports_bare (declarator : Node) :
    declaratorImports declarator.bare = declaratorImports declarator := by
  have hproperties : ∀ (source : String) (pattern : Node),
      pattern.bare.namedChildren.filterMap (patternImport source) =
        pattern.namedChildren.filterMap (patternImport source) := by
    intro source pattern
    rw [filterMap_namedChildren_bare]
    · simp only [patternImport_bare]
    · intro t ht
      simp [patternImport, isKind, ht]
  rw [declaratorImports, declaratorImports, isKind_bare, child?_bare, child?_bare]
  cases declarator.child? "value" with
  | none => rfl
  | some value =>
    simp only [Option.map_some, Option.bind_some, requiredModule?_bare]
    cases requiredModule? value with
    | none => rfl
    | some source => cases declarator.child? "name" <;> simp [hproperties]

@[simp] theorem imports_bare (n : Node) : imports n.bare = imports n := by
  have hdeclarators : ∀ t : Node, t.bare.namedChildren.flatMap declaratorImports =
      t.namedChildren.flatMap declaratorImports := by
    intro t
    rw [flatMap_namedChildren_bare]
    · simp only [declaratorImports_bare]
    · intro t ht
      simp [declaratorImports, isKind, ht]
  rw [imports, flatMap_children_bare]
  · simp only [isKind_bare, statementImports_bare, hdeclarators, imports]
  · intro t ht
    simp [isKind, ht]

theorem exportSpecifiers_bare (n : Node) : exportSpecifiers n.bare = exportSpecifiers n := by
  have hclauses : n.bare.children.filter (·.isKind "export_clause") =
      (n.children.filter (·.isKind "export_clause")).map bare :=
    filter_children_bare n (p := fun t => t.kind == "export_clause") (by simp_all)
  rw [exportSpecifiers, hclauses, List.flatMap_map, exportSpecifiers]
  congr 1
  funext clause
  rw [filterMap_children_bare]
  · simp only [isKind_bare, childText_bare]
  · intro t ht
    simp [isKind, ht]

theorem forwardsFrom_bare (source : String) (n : Node) :
    forwardsFrom source n.bare = forwardsFrom source n := by
  rw [forwardsFrom, forwardsFrom, exportSpecifiers_bare, hasChildKind_bare n (by decide),
    hasChildKind_bare n (by decide)]

/-- The expression that is the default without its comments. -/
def Exports.bare (e : Exports) : Exports := { e with defaultValue := e.defaultValue.map Tree.bare }

theorem addDefaultExport_bare (bindings : List ImportBinding) (e : Exports) (value : Node) :
    addDefaultExport bindings e.bare value.bare = (addDefaultExport bindings e value).bare := by
  rw [addDefaultExport, addDefaultExport, isKind_bare, text_bare]
  split
  · cases forwardImported bindings value.text "default" <;> rfl
  · rfl

theorem addExport_bare (bindings : List ImportBinding) (e : Exports) (n : Node) :
    addExport bindings e.bare n.bare = (addExport bindings e n).bare := by
  have hsource : ((n.child? "source").map Tree.bare).bind stringValue? =
      (n.child? "source").bind stringValue? := by
    cases n.child? "source" <;> simp
  rw [addExport, addExport, isKind_bare, child?_bare, child?_bare, hsource,
    hasChildKind_bare n (by decide), exportSpecifiers_bare]
  split
  · cases (n.child? "source").bind stringValue? with
    | some source =>
      dsimp only
      rw [forwardsFrom_bare]
      rfl
    | none =>
      dsimp only
      split
      · cases n.child? "value" with
        | none => rfl
        | some value => exact addDefaultExport_bare bindings e value
      · rfl
  · rfl

theorem exports_bare (n : Node) (bindings : List ImportBinding) :
    exports n.bare bindings = (exports n bindings).bare := by
  suffices hfold : ∀ (ts : List Node) (e : Exports),
      (bareAll ts).foldl (addExport bindings) e.bare = (ts.foldl (addExport bindings) e).bare by
    cases n
    exact hfold _ {}
  intro ts
  induction ts with
  | nil => exact fun e => rfl
  | cons t ts ih =>
    intro e
    rw [bareAll]
    split
    · rename_i hcomment
      have hskip : addExport bindings e t = e := by
        have hkind : t.kind = "comment" := by simpa using kind_of_isComment hcomment
        simp [addExport, isKind, hkind]
      rw [List.foldl_cons, hskip, ih]
    · rw [List.foldl_cons, List.foldl_cons, addExport_bare, ih]

end Links

namespace Tree

theorem bareAll_append (ts us : List Node) : bareAll (ts ++ us) = bareAll ts ++ bareAll us := by
  simp [bareAll_eq]

/-- The nodes of trees without comments are the nodes of the trees, but for the comments. -/
theorem visit_bareAll (ts : List Node) :
    visit (bareAll ts) = ((visit ts).filter (!·.bare.isComment)).map bare := by
  fun_induction visit ts with
  | case1 => simp [bareAll, visit]
  | case2 t rest ih =>
    rw [bareAll_append] at ih
    have hchildren : t.bare.children = bareAll t.children := by
      cases t
      rfl
    rw [bareAll]
    cases hcomment : t.bare.isComment with
    | true =>
      have hnone : bareAll t.children = [] := by
        simp only [isComment, hchildren, Bool.and_eq_true, List.isEmpty_iff] at hcomment
        exact hcomment.2
      rw [hnone, List.nil_append] at ih
      simp [hcomment, ih]
    | false =>
      rw [if_neg (by simp), visit, hchildren, ih]
      simp [hcomment]

theorem visit_append (ts us : List Node) : visit (ts ++ us) = visit ts ++ visit us := by
  simp only [visit_eq_preorderAll, preorderAll_append]

theorem mem_visit_cons {t u : Node} {ts : List Node} :
    u ∈ visit (t :: ts) ↔ u = t ∨ u ∈ visit t.children ∨ u ∈ visit ts := by
  rw [visit, visit_append, List.mem_cons, List.mem_append]

theorem forall_visit_cons {P : Node → Prop} {t : Node} {ts : List Node} :
    (∀ u ∈ visit (t :: ts), P u) ↔
      P t ∧ (∀ u ∈ visit t.children, P u) ∧ ∀ u ∈ visit ts, P u := by
  rw [visit, visit_append, List.forall_mem_cons, List.forall_mem_append]

theorem Commented.exists_corresponding {ts us : List Node} (h : Commented ts us) :
    ∀ t ∈ visit ts, ∃ u ∈ visit us, Corresponding ts us t u := by
  induction h with
  | nil => simp [visit]
  | node tag hchildren hrest ihchildren ihrest =>
    intro t ht
    rcases mem_visit_cons.1 ht with rfl | ht | ht
    · exact ⟨_, mem_visit_cons.2 (.inl rfl), .here tag hchildren hrest⟩
    · obtain ⟨u, hu, hcorr⟩ := ihchildren t ht
      exact ⟨u, mem_visit_cons.2 (.inr (.inl hu)), .inside tag hcorr hrest⟩
    · obtain ⟨u, hu, hcorr⟩ := ihrest t ht
      exact ⟨u, mem_visit_cons.2 (.inr (.inr hu)), .later tag hchildren hcorr⟩
  | comment text _ ih =>
    intro t ht
    obtain ⟨u, hu, hcorr⟩ := ih t ht
    exact ⟨u, mem_visit_cons.2 (.inr (.inr hu)), .comment text hcorr⟩

/-- A comment is no error, so that a tree is as clean with comments as it is without them. -/
theorem Commented.clean {ts us : List Node} (h : Commented ts us)
    (hclean : ∀ t ∈ visit ts, t.label.isError = false) :
    ∀ u ∈ visit us, u.label.isError = false := by
  induction h with
  | nil => exact hclean
  | node tag _ _ ihchildren ihrest =>
    obtain ⟨htag, hchildren, hrest⟩ := forall_visit_cons.1 hclean
    exact forall_visit_cons.2 ⟨htag, ihchildren hchildren, ihrest hrest⟩
  | comment text _ ih =>
    refine forall_visit_cons.2 ⟨rfl, ?_, ih hclean⟩
    intro u hu
    rw [show (Tree.comment text).children = [] from rfl, visit] at hu
    cases hu

theorem errors_census {n : Node} (h : ∀ t ∈ n.nodes, t.label.isError = false) :
    n.census.errors = 0 := by
  rw [nodes_eq_preorder] at h
  rw [census_eq]
  exact List.countP_eq_zero.2 fun t ht => by simp [h t ht]

end Tree

def Schema.ofBuilder? (s : Schema) : Option Schema := if s.source = .builder then some s else none

/-- What a file says, without what its type declarations say. -/
structure BuilderPart where
  /-- All names with a schema, and the schemas that builder chains describe. -/
  schemas : Table String (Option Schema)
  validated : List String
  bindings : List ImportBinding
  reexports : List ReExport
  defaultExport : Option String

namespace Extraction

def builderPart (e : Extraction) : BuilderPart :=
  { schemas := e.schemas.map fun x => (x.1, x.2.ofBuilder?), validated := e.validated,
    bindings := e.bindings, reexports := e.reexports, defaultExport := e.defaultExport }

theorem map_builderPart_bind {α β : Type} {view : α → β} {x y : Except Failure α}
    {f g : α → Except Failure Extraction} (h : view <$> x = view <$> y)
    (hfg : ∀ a a', view a = view a' → builderPart <$> f a = builderPart <$> g a') :
    builderPart <$> (x >>= f) = builderPart <$> (y >>= g) := by
  cases x with
  | error e =>
    cases y with
    | error e' =>
      cases h
      rfl
    | ok a' => cases h
  | ok a =>
    cases y with
    | error e' => cases h
    | ok a' => exact hfg a a' (Except.ok.inj h)

theorem validatedName?_bare (b : BuilderSettings) (n : Node) :
    validatedName? b n.bare = validatedName? b n := by
  rw [validatedName?, validatedName?, chain_bare]

theorem declaredSchema?_bare (b : BuilderSettings) (n : Node) :
    declaredSchema? b n.bare = declaredSchema? b n := by
  rw [declaredSchema?, declaredSchema?, child?_bare, child?_bare]
  cases n.child? "name" with
  | none => rfl
  | some name => cases n.child? "value" <;> simp

theorem declaration_bare (d : DeclarationSettings) (n : Node) :
    (Declaration.schema? d n.bare).map (fun x => (x.1, x.2.ofBuilder?)) =
      (Declaration.schema? d n).map fun x => (x.1, x.2.ofBuilder?) := by
  rw [Declaration.schema?, Declaration.schema?]
  simp only [childText_bare, kind_bare, isKind_bare, child?_bare]
  split
  · rfl
  · split
    · rfl
    · split
      · rfl
      · cases n.child? "value" with
        | none => rfl
        | some value =>
          simp only [Option.map_some, isKind_bare]
          split <;> rfl

theorem visit_comment (s : Settings) (typed : Bool) (e : Extraction) {n : Node}
    (h : n.kind = "comment") : visit s typed e n = .ok e := by
  simp [visit, isKind, isCall, h, Declaration.kinds]

theorem builderPart_put (e : Extraction) (name : String) (schema : Schema) :
    builderPart { e with schemas := Table.put e.schemas name schema } =
      { e.builderPart with
        schemas := Table.put e.builderPart.schemas name schema.ofBuilder? } := by
  simp only [builderPart, Table.map_put]

theorem builderPart_putNew (e : Extraction) (name : String) (schema : Schema) :
    builderPart { e with schemas := Table.putNew e.schemas name schema } =
      { e.builderPart with
        schemas := Table.putNew e.builderPart.schemas name schema.ofBuilder? } := by
  simp only [builderPart, Table.map_putNew]

theorem visit_bare (s : Settings) (typed : Bool) {e e' : Extraction}
    (h : e.builderPart = e'.builderPart) (n : Node) :
    builderPart <$> visit s typed e n.bare = builderPart <$> visit s typed e' n := by
  have hkeep : (Except.ok e.builderPart : Except Failure _) = .ok e'.builderPart := by rw [h]
  rw [visit, visit, isKind_bare, kind_bare, isCall_bare, declaredSchema?_bare, validatedName?_bare]
  split
  · rcases declaredSchema? s.builder n with f | _ | ⟨name, schema⟩
    · rfl
    · exact hkeep
    · refine congrArg Except.ok ?_
      rw [builderPart_put, builderPart_put, h]
  · split
    · have hdeclared := declaration_bare s.declarations n
      generalize Declaration.schema? s.declarations n.bare = x at hdeclared ⊢
      generalize Declaration.schema? s.declarations n = x' at hdeclared ⊢
      rcases x with _ | ⟨name, schema⟩ <;> rcases x' with _ | ⟨name', schema'⟩
      · exact hkeep
      · cases hdeclared
      · cases hdeclared
      · obtain ⟨rfl, hschema⟩ : name = name' ∧ schema.ofBuilder? = schema'.ofBuilder? := by
          simpa using hdeclared
        refine congrArg Except.ok ?_
        rw [builderPart_putNew, builderPart_putNew, hschema, h]
    · split
      · have hvalidated : e.validated = e'.validated := congrArg BuilderPart.validated h
        cases validatedName? s.builder n with
        | none => exact hkeep
        | some name =>
          refine congrArg Except.ok ?_
          rw [hvalidated]
          split
          · exact h
          · exact congrArg (fun part => { part with validated := e'.validated ++ [name] }) h
      · exact hkeep

theorem foldlM_visit_bare (s : Settings) (typed : Bool) (ts : List Node) {e e' : Extraction}
    (h : e.builderPart = e'.builderPart) :
    builderPart <$> ((ts.filter (!·.bare.isComment)).map bare).foldlM (visit s typed) e =
      builderPart <$> ts.foldlM (visit s typed) e' := by
  induction ts generalizing e e' with
  | nil => exact congrArg Except.ok h
  | cons t ts ih =>
    cases hcomment : t.bare.isComment with
    | true =>
      have hkind : t.kind = "comment" := by simpa using kind_of_isComment hcomment
      rw [List.filter_cons_of_neg (by simp [hcomment]), List.foldlM_cons,
        visit_comment s typed e' hkind]
      exact ih h
    | false =>
      rw [List.filter_cons_of_pos (by simp [hcomment]), List.map_cons, List.foldlM_cons,
        List.foldlM_cons]
      exact map_builderPart_bind (visit_bare s typed h t) fun a a' ha => ih ha

theorem declared_bare (s : Settings) (tree : SourceTree) :
    builderPart <$> declared s { tree with root := tree.root.bare } =
      builderPart <$> declared s tree := by
  have hnodes : ∀ n : Node, n.nodes = n :: Tree.visit n.children := by
    intro n
    rw [nodes, Tree.visit, List.append_nil]
  have hchildren : tree.root.bare.children = bareAll tree.root.children := by
    cases tree.root
    rfl
  rw [declared, declared, hnodes, hnodes tree.root, hchildren, visit_bareAll, List.foldlM_cons,
    List.foldlM_cons]
  refine map_builderPart_bind (visit_bare s _ rfl tree.root) fun a a' ha => ?_
  exact foldlM_visit_bare s _ _ ha

theorem withDefault_bare (s : Settings) (value : Option Node) {e e' : Extraction}
    (h : e.builderPart = e'.builderPart) :
    builderPart <$> withDefault s (value.map bare) e = builderPart <$> withDefault s value e' := by
  cases value with
  | none => exact congrArg Except.ok h
  | some n =>
    rw [Option.map_some, withDefault, withDefault, Builder.schema?_bare]
    rcases Builder.schema? s.builder n (some "default") with f | _ | schema
    · rfl
    · exact congrArg Except.ok h
    · have hput := congrArg (fun part : BuilderPart =>
        { part with schemas := Table.put part.schemas "default" schema.ofBuilder? }) h
      refine congrArg Except.ok ?_
      rw [← builderPart_put, ← builderPart_put] at hput
      exact congrArg (fun part => { part with defaultExport := some "default" }) hput

/-- A file says the same with comments and without them, type declarations apart. -/
theorem ofTree_bare (s : Settings) (tree : SourceTree) :
    builderPart <$> ofTree s { tree with root := tree.root.bare } =
      builderPart <$> ofTree s tree := by
  refine map_builderPart_bind (declared_bare s tree) fun e e' he => ?_
  dsimp only
  rw [Links.imports_bare, Links.exports_bare]
  refine withDefault_bare s _ ?_
  exact congrArg (fun part : BuilderPart =>
    { part with bindings := Links.imports tree.root
                reexports := (Links.exports tree.root (Links.imports tree.root)).reexports
                defaultExport :=
                  (Links.exports tree.root (Links.imports tree.root)).defaultExport }) he

theorem extract_of_clean (p : Project) {n : Node} (h : ∀ t ∈ n.nodes, t.label.isError = false)
    (text path : String) :
    { p with frontEnd := fun _ _ => n }.extract text path =
      match Language.ofPath (Path.ofString path) with
      | .error _ => .ok {}
      | .ok language =>
        ofTree p.settings { language, path := (Path.ofString path).text, root := n } := by
  have hparse : SourceTree.parse (fun _ _ => n) p.settings.parsing.maxErrorRatio
      (Path.ofString path) text = (fun language =>
        { language, path := (Path.ofString path).text, root := n : SourceTree }) <$>
          Language.ofPath (Path.ofString path) := by
    unfold SourceTree.parse
    cases Language.ofPath (Path.ofString path) with
    | error fault => rfl
    | ok language => exact if_pos (by simp [SourceTree.accepts, SourceTree.census, errors_census h])
  unfold Project.extract
  rw [hparse]
  cases Language.ofPath (Path.ofString path) <;> rfl

/-- Comments change neither what is read from any node, nor what is found in a file, its type
declarations apart. -/
theorem unchanged_by_comments {n m : Node} (h : Commented [n] [m])
    (hclean : ∀ t ∈ n.nodes, t.label.isError = false) :
    (∀ t ∈ n.nodes, ∃ u ∈ m.nodes, Corresponding [n] [m] t u) ∧
    (∀ t u, Corresponding [n] [m] t u → ∀ b,
      (∀ name, Builder.field? b name t = Builder.field? b name u) ∧
        ∀ name, Builder.schema? b t name = Builder.schema? b u name) ∧
    (∀ (p : Project) (text text' path : String),
      builderPart <$> { p with frontEnd := fun _ _ => n }.extract text path =
        builderPart <$> { p with frontEnd := fun _ _ => m }.extract text' path) ∧
    Links.imports n = Links.imports m ∧
    ∀ bindings, (Links.exports n bindings).reexports = (Links.exports m bindings).reexports ∧
      (Links.exports n bindings).defaultExport = (Links.exports m bindings).defaultExport ∧
      (Links.exports n bindings).defaultValue.map label =
        (Links.exports m bindings).defaultValue.map label := by
  refine ⟨h.exists_corresponding, ?_, ?_, ?_, ?_⟩
  · intro t u hcorr b
    have hbare : t.bare = u.bare := hcorr.commented.bare_eq
    refine ⟨fun name => ?_, fun name => ?_⟩
    · rw [← Builder.field?_bare, hbare, Builder.field?_bare]
    · rw [← Builder.schema?_bare, hbare, Builder.schema?_bare]
  · intro p text text' path
    rw [extract_of_clean p hclean, extract_of_clean p (h.clean hclean)]
    cases Language.ofPath (Path.ofString path) with
    | error fault => rfl
    | ok language =>
      have hn := ofTree_bare p.settings ⟨language, (Path.ofString path).text, n⟩
      have hm := ofTree_bare p.settings ⟨language, (Path.ofString path).text, m⟩
      dsimp only at hn hm ⊢
      rw [← hn, ← hm, h.bare_eq]
  · rw [← Links.imports_bare, h.bare_eq, Links.imports_bare]
  · intro bindings
    have hexports : (Links.exports n bindings).bare = (Links.exports m bindings).bare := by
      rw [← Links.exports_bare, h.bare_eq, Links.exports_bare]
    have hlabel : ∀ value : Option Node, (value.map bare).map label = value.map label := by
      intro value
      cases value <;> simp
    have hreexports := congrArg Links.Exports.reexports hexports
    have hdefault := congrArg Links.Exports.defaultExport hexports
    have hvalue := congrArg (fun e => e.defaultValue.map label) hexports
    refine ⟨hreexports, hdefault, ?_⟩
    rw [← hlabel, ← hlabel (Links.exports m bindings).defaultValue]
    exact hvalue

end Extraction

namespace Tree

mutual

/-- The tree with a comment before every node below the root and after the last child of each. -/
def sprinkled : Node → Node
  | .node tag ts => .node tag (sprinkledAll ts)

def sprinkledAll : List Node → List Node
  | [] => [comment "// last"]
  | t :: ts => comment "/* next */" :: t.sprinkled :: sprinkledAll ts

end

theorem commented_sprinkledAll (ts : List Node) : Commented ts (sprinkledAll ts) := by
  induction hn : sizeAll ts using Nat.strongRecOn generalizing ts with
  | ind size ih =>
    subst hn
    rcases ts with _ | ⟨⟨tag, cs⟩, ts⟩
    · exact .comment _ .nil
    · have hcs : sizeAll cs < sizeAll (.node tag cs :: ts) := by
        simp only [sizeAll, Tree.size]
        omega
      have hts : sizeAll ts < sizeAll (.node tag cs :: ts) := by
        simp only [sizeAll, Tree.size]
        omega
      exact .comment _ (.node tag (ih _ hcs cs rfl) (ih _ hts ts rfl))

theorem commented_sprinkled (n : Node) : Commented [n] [n.sprinkled] := by
  cases n
  exact .node _ (commented_sprinkledAll _) .nil

end Tree

namespace Extraction

/-- A file that imports, declares, validates and exports. -/
def sample : Node :=
  Grammar.parse Language.typescript.dialect
    ("import \x7bB as C\x7d from './b'; export const A = z.object(\x7ba: z.string().min(1)\x7d);" ++
      "interface I \x7bx: y\x7d; C.parse(1); export default z.enum(['u', 'v']);")

theorem unchanged_by_comments_sample :
    Commented [sample] [sample.sprinkled] ∧ (∀ t ∈ sample.nodes, t.label.isError = false) ∧
    (∀ t u, Corresponding [sample] [sample.sprinkled] t u → ∀ b,
      (∀ name, Builder.field? b name t = Builder.field? b name u) ∧
        ∀ name, Builder.schema? b t name = Builder.schema? b u name) ∧
    ((builderPart <$> { frontEnd := fun _ _ => sample.sprinkled : Project }.extract ""
        "/a.ts").toOption.map fun part => (part.schemas.map fun x => (x.1, x.2.isSome),
          part.validated, part.bindings.length, part.defaultExport)) =
      some ([("A", true), ("I", false), ("default", true)], ["C"], 1, some "default") := by
  obtain ⟨hclean, hpart⟩ : (∀ t ∈ sample.nodes, t.label.isError = false) ∧
      ((builderPart <$> { frontEnd := fun _ _ => sample : Project }.extract ""
        "/a.ts").toOption.map fun part => (part.schemas.map fun x => (x.1, x.2.isSome),
          part.validated, part.bindings.length, part.defaultExport)) =
        some ([("A", true), ("I", false), ("default", true)], ["C"], 1, some "default") := by
    decide +kernel
  have hcommented := commented_sprinkled sample
  obtain ⟨-, hnodes, hextract, -⟩ := unchanged_by_comments hcommented hclean
  refine ⟨hcommented, hclean, hnodes, ?_⟩
  rw [← hextract {} "" "" "/a.ts"]
  exact hpart

end Extraction

end ContractInference
