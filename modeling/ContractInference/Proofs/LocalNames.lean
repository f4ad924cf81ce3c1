import ContractInference.Extraction
import ContractInference.Proofs.Fallible
import ContractInference.Proofs.Tables
import ContractInference.Proofs.Traversal

/-!
# Names that a file binds

A file binds names to builder schemas and to type declarations, in any order and at any depth. The
schemas that are collected along the way are settled by the list of these bindings: the names stand
in the order in which they are first bound, the last builder schema of a name counts, and a name
without one has its first declaration.
-/

namespace ContractInference

namespace Extraction

/-- A name with the schema that one node gives it. -/
inductive Binding where
  | builder (name : String) (schema : Schema)
  | declaration (name : String) (schema : Schema)

namespace Binding

def name : Binding → String
  | builder name _ => name
  | declaration name _ => name

def builder? (name : String) : Binding → Option Schema
  | builder name' schema => if name' = name then some schema else none
  | declaration _ _ => none

def declaration? (name : String) : Binding → Option Schema
  | builder _ _ => none
  | declaration name' schema => if name' = name then some schema else none

def write (t : Table String Schema) : Binding → Table String Schema
  | builder name schema => t.put name schema
  | declaration name schema => t.putNew name schema

end Binding

/-- What a node binds: a variable whose value is a builder schema or, where types can be declared,
the name of a declaration. -/
def binding? (s : Settings) (typed : Bool) (n : Node) : Except Failure (Option Binding) :=
  if n.isKind "variable_declarator" then do
    return (← declaredSchema? s.builder n).map fun x => .builder x.1 x.2
  else if typed then
    .ok ((Declaration.schema? s.declarations n).map fun x => .declaration x.1 x.2)
  else .ok none

/-- The bindings of a file, a node before its children and these from the left. -/
def bindingsIn (s : Settings) (tree : SourceTree) : Except Failure (List Binding) :=
  List.reduceOption <$>
    tree.root.preorder.mapM (binding? s tree.language.hasTypeDeclarations)

namespace Binding

theorem keys_write (t : Table String Schema) (b : Binding) :
    Table.keys (b.write t) =
      if Table.hasKey t b.name then Table.keys t else Table.keys t ++ [b.name] := by
  cases b with
  | builder name schema => exact Table.keys_put t name schema
  | declaration name schema => exact Table.keys_putNew t name schema

theorem get?_write (t : Table String Schema) (b : Binding) (name : String) :
    Table.get? (b.write t) name =
      (b.builder? name).or ((Table.get? t name).or (b.declaration? name)) := by
  cases b with
  | builder name' schema =>
    simp only [write, Table.get?_put, builder?, declaration?, Option.or_none]
    split <;> rfl
  | declaration name' schema =>
    simp only [write, Table.get?_putNew, builder?, declaration?, Option.none_or]
    split
    · rfl
    · rw [Option.or_none]

/-- A name is written at its first binding and keeps its place afterwards. -/
theorem keys_foldl_write (bound : List Binding) :
    Table.keys (bound.foldl write []) = (bound.map name).eraseDups :=
  Table.keys_foldl keys_write bound

/-- A later builder schema replaces what its name stood for, and a declaration stands only where
nothing stood before it. -/
theorem get?_foldl_write (bound : List Binding) (name : String) :
    Table.get? (bound.foldl write []) name =
      (bound.filterMap (builder? name)).getLast?.or
        (bound.filterMap (declaration? name)).head? := by
  induction bound using List.reverseRecOn with
  | nil => rfl
  | append_singleton bound b ih =>
    have hlast : ([b].filterMap (builder? name)).getLast? = b.builder? name := by
      cases h : b.builder? name <;> simp [h]
    have hhead : ([b].filterMap (declaration? name)).head? = b.declaration? name := by
      cases h : b.declaration? name <;> simp [h]
    rw [List.foldl_append, List.foldl_cons, List.foldl_nil, get?_write, ih, List.filterMap_append,
      List.filterMap_append, List.getLast?_append, List.head?_append, hlast, hhead]
    simp only [Option.or_assoc]

end Binding

theorem schema?_of_notMem_kinds (d : DeclarationSettings) {n : Node}
    (h : Declaration.kinds.contains n.kind = false) : Declaration.schema? d n = none := by
  unfold Declaration.schema?
  rw [h]
  rfl

theorem binding?_of_other (s : Settings) {typed : Bool} {n : Node}
    (hvariable : ¬n.isKind "variable_declarator" = true)
    (hdeclaration : ¬(typed && Declaration.kinds.contains n.kind) = true) :
    binding? s typed n = .ok none := by
  rw [binding?, if_neg hvariable]
  cases typed with
  | false => rfl
  | true =>
    have hkind : Declaration.kinds.contains n.kind = false := by simpa using hdeclaration
    rw [if_pos rfl, schema?_of_notMem_kinds s.declarations hkind]
    rfl

theorem schemas_visit (s : Settings) (typed : Bool) (e : Extraction) (n : Node) :
    schemas <$> visit s typed e n =
      (fun b => [b].reduceOption.foldl Binding.write e.schemas) <$> binding? s typed n := by
  unfold visit
  split
  · rename_i hvariable
    rw [binding?, if_pos hvariable]
    rcases declaredSchema? s.builder n with f | _ | ⟨name, schema⟩ <;> rfl
  · rename_i hvariable
    split
    · rename_i hdeclaration
      rw [binding?, if_neg hvariable, if_pos (Bool.and_eq_true_iff.1 hdeclaration).1]
      rcases Declaration.schema? s.declarations n with _ | ⟨name, schema⟩ <;> rfl
    · rename_i hdeclaration
      rw [binding?_of_other s hvariable hdeclaration]
      -- A call may validate a name, which is no schema.
      split
      · split
        · split <;> rfl
        · rfl
      · rfl

theorem schemas_foldlM_visit (s : Settings) (typed : Bool) (ns : List Node) (e : Extraction) :
    schemas <$> ns.foldlM (visit s typed) e =
      (fun bs => bs.reduceOption.foldl Binding.write e.schemas) <$>
        ns.mapM (binding? s typed) := by
  induction ns generalizing e with
  | nil => rfl
  | cons n ns ih =>
    obtain ⟨herror, hok⟩ := except_of_map_eq (schemas_visit s typed e n)
    rw [List.foldlM_cons, List.mapM_cons]
    rcases hbinding : binding? s typed n with failure | b
    · rw [(herror failure).2 hbinding]
      rfl
    · obtain ⟨e', hvisit, hschemas⟩ := hok b hbinding
      rw [hvisit]
      refine (ih e').trans ?_
      rw [hschemas]
      rcases ns.mapM (binding? s typed) with failure | bs
      · rfl
      · refine congrArg Except.ok ?_
        dsimp only
        rw [← List.foldl_append, ← List.reduceOption_append]
        rfl

theorem schemas_declared (s : Settings) (tree : SourceTree) :
    schemas <$> declared s tree =
      (fun bound => bound.foldl Binding.write []) <$> bindingsIn s tree := by
  rw [declared, Tree.nodes_eq_preorder, schemas_foldlM_visit, bindingsIn, Functor.map_map]

/-- Collecting fails as reading the first binding fails that cannot be read. Otherwise the names are
those that are bound, in the order in which they are first bound; a name has the last builder schema
that it is bound to, and the first declaration if there is none. -/
theorem declared_schemas (s : Settings) (tree : SourceTree) :
    (∀ failure, declared s tree = .error failure ↔ bindingsIn s tree = .error failure) ∧
      ∀ bound, bindingsIn s tree = .ok bound →
        ∃ e, declared s tree = .ok e ∧
          Table.keys e.schemas = (bound.map Binding.name).eraseDups ∧
          ∀ name, Table.get? e.schemas name =
            (bound.filterMap (Binding.builder? name)).getLast?.or
              (bound.filterMap (Binding.declaration? name)).head? := by
  obtain ⟨herror, hok⟩ := except_of_map_eq (schemas_declared s tree)
  refine ⟨herror, fun bound hbound => ?_⟩
  obtain ⟨e, he, hschemas⟩ := hok bound hbound
  refine ⟨e, he, ?_, fun name => ?_⟩
  · rw [hschemas, Binding.keys_foldl_write]
  · rw [hschemas, Binding.get?_foldl_write]

/-- A file that binds each of its names more than once, before and after each other and at
different depths. -/
def interleaved : SourceTree :=
  { language := .typescript, path := "/a.ts"
    root := Grammar.parse Language.typescript.dialect
      ("interface A \x7bx: y\x7d const A = z.object(\x7b\x7d); function f() \x7b" ++
        "const B = z.enum(['u']); interface B \x7bq: r\x7d const B = z.array(A) \x7d" ++
        "enum C \x7bc\x7d interface C \x7bd: e\x7d") }

theorem declared_schemas_interleaved :
    ∃ bound e, bindingsIn {} interleaved = .ok bound ∧
      bound.map Binding.name = ["A", "A", "B", "B", "B", "C", "C"] ∧
      declared {} interleaved = .ok e ∧ Table.keys e.schemas = ["A", "B", "C"] ∧
      ["A", "B", "C"].map (fun name => (Table.get? e.schemas name).map fun schema =>
          (schema.source, schema.fieldNames.map Text.toString)) =
        [some (.builder, []), some (.builder, ["items"]), some (.declaration, ["c"])] := by
  have hbound : (bindingsIn {} interleaved).toOption.map (fun bound => (bound.map Binding.name,
      ["A", "B", "C"].map fun name =>
        ((bound.filterMap (Binding.builder? name)).getLast?.or
          (bound.filterMap (Binding.declaration? name)).head?).map fun schema =>
            (schema.source, schema.fieldNames.map Text.toString))) =
      some (["A", "A", "B", "B", "B", "C", "C"],
        [some (.builder, []), some (.builder, ["items"]), some (.declaration, ["c"])]) := by
    decide +kernel
  rcases hread : bindingsIn {} interleaved with failure | bound
  · rw [hread] at hbound
    cases hbound
  · rw [hread] at hbound
    obtain ⟨hnames, hschemas⟩ := Prod.mk.inj (Option.some.inj hbound)
    obtain ⟨e, he, hkeys, hget⟩ := (declared_schemas {} interleaved).2 bound hread
    refine ⟨bound, e, rfl, hnames, he, ?_, ?_⟩
    · rw [hkeys, hnames]
      decide
    · simp only [hget]
      exact hschemas

end Extraction

end ContractInference
