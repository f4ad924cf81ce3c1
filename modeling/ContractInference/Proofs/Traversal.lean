import ContractInference.Proofs.Share
import ContractInference.SourceTree

/-!
# Traversals

Both traversals with an explicit stack meet every node of a tree once: the one that lists the nodes
takes a node before its children and those from the left, and the one that counts them takes them in
the reverse of the order in which the children come first. So the counts are those of the list, and
they settle at which shares of errors a tree is accepted.
-/

namespace ContractInference

namespace Tree

variable {α : Type}

theorem induction_children {P : Tree α → Prop} (h : ∀ t, (∀ c ∈ t.children, P c) → P t)
    (t : Tree α) : P t := by
  induction hsize : sizeOf t using Nat.strongRecOn generalizing t with
  | ind _ ih =>
    refine h t fun c hc => ih (sizeOf c) ?_ c rfl
    cases t
    have hmem := List.sizeOf_lt_of_mem hc
    simp only [node.sizeOf_spec, children] at hsize hmem
    omega

mutual

/-- All nodes of a tree: the tree itself, then the nodes of its children from the left. -/
def preorder : Tree α → List (Tree α)
  | .node a ts => .node a ts :: preorderAll ts

def preorderAll : List (Tree α) → List (Tree α)
  | [] => []
  | t :: ts => t.preorder ++ preorderAll ts

end

theorem preorder_eq (t : Tree α) : t.preorder = t :: preorderAll t.children := by
  cases t
  rfl

theorem preorderAll_append (ts us : List (Tree α)) :
    preorderAll (ts ++ us) = preorderAll ts ++ preorderAll us := by
  induction ts with
  | nil => rfl
  | cons t ts ih => simp [preorderAll, ih]

/-- The children of the node on top take its place, so that a stack is worked off tree by tree. -/
theorem visit_eq_preorderAll (stack : List (Tree α)) : visit stack = preorderAll stack := by
  fun_induction visit stack with
  | case1 => rfl
  | case2 t rest ih => rw [ih, preorderAll_append, preorderAll, preorder_eq, List.cons_append]

theorem nodes_eq_preorder (t : Tree α) : t.nodes = t.preorder := by
  rw [nodes, visit_eq_preorderAll, preorderAll, preorderAll, List.append_nil]

/-- The node at a place. A place gives the numbers of the children on the way to it. -/
def at? (t : Tree α) : List Nat → Option (Tree α)
  | [] => some t
  | i :: place => t.children[i]?.bind (·.at? place)

mutual

/-- The places in a tree: its root, then the places in its children from the left. -/
def places : Tree α → List (List Nat)
  | .node _ ts => [] :: placesFrom 0 ts

/-- The places in trees that are numbered from `i` on. -/
def placesFrom (i : Nat) : List (Tree α) → List (List Nat)
  | [] => []
  | t :: ts => t.places.map (i :: ·) ++ placesFrom (i + 1) ts

end

theorem places_eq (t : Tree α) : t.places = [] :: placesFrom 0 t.children := by
  cases t
  rfl

theorem mem_placesFrom {ts : List (Tree α)} {i : Nat} {place : List Nat} :
    place ∈ placesFrom i ts ↔
      ∃ j below t, place = (i + j) :: below ∧ ts[j]? = some t ∧ below ∈ t.places := by
  induction ts generalizing i with
  | nil => simp [placesFrom]
  | cons t ts ih =>
    rw [placesFrom, List.mem_append, List.mem_map, ih]
    have hnext : ∀ j, i + 1 + j = i + (j + 1) := fun j => by omega
    constructor
    · rintro (⟨below, hbelow, rfl⟩ | ⟨j, below, u, rfl, hu, hbelow⟩)
      · exact ⟨0, below, t, rfl, rfl, hbelow⟩
      · exact ⟨j + 1, below, u, by rw [hnext], hu, hbelow⟩
    · rintro ⟨j, below, u, rfl, hu, hbelow⟩
      cases j with
      | zero =>
        cases hu
        exact .inl ⟨below, hbelow, rfl⟩
      | succ j => exact .inr ⟨j, below, u, by rw [hnext], hu, hbelow⟩

theorem mem_places {t : Tree α} {place : List Nat} :
    place ∈ t.places ↔ (t.at? place).isSome = true := by
  induction place generalizing t with
  | nil => simp [places_eq, at?]
  | cons i below ih =>
    have hchild : i :: below ∈ t.places ↔ ∃ c, t.children[i]? = some c ∧ below ∈ c.places := by
      rw [places_eq, List.mem_cons, mem_placesFrom]
      simp
    rw [hchild, at?]
    cases t.children[i]? with
    | none => simp
    | some c => simp [ih]

/-- The places stand in lexicographic order: one that another one starts with comes first, and else
the first difference decides. -/
theorem pairwise_places (t : Tree α) : t.places.Pairwise (· < ·) := by
  induction t using induction_children with
  | h t ih =>
    rw [places_eq, List.pairwise_cons]
    constructor
    · intro place hplace
      obtain ⟨j, below, u, rfl, -⟩ := mem_placesFrom.1 hplace
      exact List.nil_lt_cons _ _
    · generalize t.children = ts at ih
      generalize 0 = i
      induction ts generalizing i with
      | nil => simp [placesFrom]
      | cons c ts ihts =>
        obtain ⟨hc, hts⟩ := List.forall_mem_cons.1 ih
        rw [placesFrom, List.pairwise_append]
        refine ⟨?_, ihts hts (i + 1), ?_⟩
        · exact hc.map _ fun a b hab => List.cons_lt_cons_iff.2 (.inr ⟨rfl, hab⟩)
        · intro a ha b hb
          obtain ⟨above, -, rfl⟩ := List.mem_map.1 ha
          obtain ⟨j, below, u, rfl, -⟩ := mem_placesFrom.1 hb
          exact List.cons_lt_cons_iff.2 (.inl (by omega))

theorem map_at?_places (t : Tree α) : t.places.map t.at? = t.preorder.map some := by
  induction t using induction_children with
  | h t ih =>
    -- The trees that are still to be numbered are the children from `i` on.
    suffices hfrom : ∀ (ts : List (Tree α)) (i : Nat), t.children.drop i = ts →
        (placesFrom i ts).map t.at? = (preorderAll ts).map some by
      rw [places_eq, preorder_eq, List.map_cons, List.map_cons,
        hfrom t.children 0 List.drop_zero]
      rfl
    intro ts
    induction ts with
    | nil => exact fun i _ => rfl
    | cons c ts ihts =>
      intro i hdrop
      have hc : t.children[i]? = some c := by rw [← List.head?_drop, hdrop, List.head?_cons]
      have hts : t.children.drop (i + 1) = ts := by rw [← List.tail_drop, hdrop, List.tail_cons]
      have hat : t.at? ∘ (i :: ·) = c.at? := by
        funext place
        simp [at?, hc]
      rw [placesFrom, preorderAll, List.map_append, List.map_append, List.map_map, hat,
        ih c (List.mem_of_getElem? hc), ihts (i + 1) hts]

mutual

/-- All nodes of a tree: the nodes of its children from the left, then the tree itself. -/
def postorder : Tree α → List (Tree α)
  | .node a ts => postorderAll ts ++ [.node a ts]

def postorderAll : List (Tree α) → List (Tree α)
  | [] => []
  | t :: ts => t.postorder ++ postorderAll ts

end

theorem postorder_eq (t : Tree α) : t.postorder = postorderAll t.children ++ [t] := by
  cases t
  rfl

theorem postorderAll_append (ts us : List (Tree α)) :
    postorderAll (ts ++ us) = postorderAll ts ++ postorderAll us := by
  induction ts with
  | nil => rfl
  | cons t ts ih => simp [postorderAll, ih]

/-- A stack that takes the rightmost child first is worked off from the end of the order in which
children come first, the tree on top being the last one of that order. -/
theorem foldFromRight_eq_foldr {β : Type} (f : β → α → β) (acc : β) (stack : List (Tree α)) :
    foldFromRight f acc stack =
      (postorderAll stack.reverse).foldr (fun t acc => f acc t.label) acc := by
  fun_induction foldFromRight f acc stack with
  | case1 => rfl
  | case2 acc t rest ih =>
    rw [ih, List.reverse_append, List.reverse_reverse, List.reverse_cons, postorderAll_append,
      postorderAll_append, postorderAll, postorderAll, List.append_nil, postorder_eq,
      List.foldr_append, List.foldr_append, List.foldr_append]
    rfl

theorem postorder_perm_preorder (t : Tree α) : t.postorder.Perm t.preorder := by
  induction t using induction_children with
  | h t ih =>
    have hall : (postorderAll t.children).Perm (preorderAll t.children) := by
      generalize t.children = ts at ih
      induction ts with
      | nil => exact .refl _
      | cons c ts ihts =>
        obtain ⟨hc, hts⟩ := List.forall_mem_cons.1 ih
        exact hc.append (ihts hts)
    rw [postorder_eq, preorder_eq]
    exact (List.perm_append_singleton t _).trans (hall.cons t)

theorem census_eq (n : Node) :
    n.census = { errors := n.preorder.countP (·.label.isError), total := n.preorder.length } := by
  have hcount : ∀ ts : List Node, ts.foldr (fun t c => Census.count c t.label) {} =
      { errors := ts.countP (·.label.isError), total := ts.length } := by
    intro ts
    induction ts with
    | nil => rfl
    | cons t ts ih =>
      rw [List.foldr_cons, ih, Census.count, List.countP_cons, List.length_cons]
      split <;> simp_all
  have hperm := n.postorder_perm_preorder
  rw [census, foldFromRight_eq_foldr, List.reverse_singleton, postorderAll, postorderAll,
    List.append_nil, hcount, hperm.countP_eq, hperm.length_eq]

theorem errors_le_total (n : Node) : n.census.errors ≤ n.census.total := by
  rw [census_eq]
  exact List.countP_le_length

theorem errors_pos_iff (n : Node) : 0 < n.census.errors ↔
    ∃ u ∈ n.preorder, u.kind = "ERROR" ∨ u.label.missing = true := by
  rw [census_eq, List.countP_pos_iff]
  simp [Tag.isError, kind]

end Tree

namespace SourceTree

section

variable {c : Census} (h : c.errors ≤ c.total)
include h

theorem accepts_iff {ratio : Binary64} :
    accepts ratio c = true ↔ c.errors = 0 ∨ ratio.lt (.ofRatio false c.errors c.total) = false := by
  have hratio : errorRatio c = .ofRatio false c.errors c.total := by
    unfold errorRatio
    split
    · have hzero : c.errors = 0 := by omega
      rw [hzero, Binary64.ofRatio, if_pos rfl, Binary64.zero]
    · rfl
  simp [accepts, hratio]

theorem accepts_zero : accepts .zero c = false ↔ c.total < c.errors * 2 ^ 1075 := by
  rw [← Binary64.zero_lt_ofRatio h, ← Bool.not_eq_true, accepts_iff h, not_or, Bool.not_eq_false,
    and_iff_right_iff_imp]
  intro hlt hzero
  rw [hzero, Binary64.ofRatio, if_pos rfl, Binary64.zero_lt_finite] at hlt
  exact hlt rfl

theorem accepts_one : accepts (.ofInt 1) c = true :=
  (accepts_iff h).2 (.inr (Binary64.not_one_lt_ofRatio h))

end

theorem accepts_of_lt {c : Census} {ratio larger : Binary64} (hlt : ratio.lt larger = true)
    (h : accepts ratio c = true) : accepts larger c = true := by
  simp only [accepts, Bool.or_eq_true, Bool.not_eq_true', decide_eq_true_eq] at h ⊢
  refine h.imp_right fun hratio => ?_
  by_contra hlarger
  rw [Bool.not_eq_false] at hlarger
  rw [Binary64.lt_trans hlt hlarger] at hratio
  cases hratio

/-- The tree of a text is accepted at a ratio. -/
def IsAccepted (frontEnd : FrontEnd) (path : Path) (text : String) (ratio : Binary64) : Prop :=
  ∃ tree, parse frontEnd ratio path text = .ok tree

section

variable {frontEnd : FrontEnd} {path : Path} {language : Language} {text : String}
  {ratio : Binary64} (hlanguage : Language.ofPath path = .ok language)
include hlanguage

theorem parse_eq :
    parse frontEnd ratio path text =
      if accepts ratio (frontEnd language text).census then
        .ok { language, path := path.text, root := frontEnd language text }
      else
        .error (.syntaxErrors path.text (frontEnd language text).census.errors
          (frontEnd language text).census.total) := by
  rw [parse, hlanguage]
  rfl

theorem isAccepted_iff :
    IsAccepted frontEnd path text ratio ↔ accepts ratio (frontEnd language text).census = true := by
  rw [IsAccepted, parse_eq hlanguage]
  split <;> simp_all

theorem not_isAccepted_zero_iff : ¬ IsAccepted frontEnd path text .zero ↔
    (frontEnd language text).census.total <
      (frontEnd language text).census.errors * 2 ^ 1075 := by
  rw [isAccepted_iff hlanguage, Bool.not_eq_true, accepts_zero (Tree.errors_le_total _)]

end

/-- The nodes of a tree are listed once each and in order, a search finds them in that order, and
the counts are those of the list. At the ratio zero a text is refused exactly if its tree has an
error, for all trees but those so large that their share of errors is rounded to zero. At the ratio
one every text is accepted, and one accepted at some ratio is accepted at every larger one. -/
theorem traversals_visit_once :
    (∀ (α : Type) (t : Tree α),
      t.nodes = t.preorder ∧
      (t.places.Pairwise (· < ·) ∧ (∀ place, place ∈ t.places ↔ (t.at? place).isSome) ∧
        t.places.map t.at? = t.nodes.map some) ∧
      ∀ wanted : α → Bool, t.findAll wanted = t.preorder.filter (wanted ·.label)) ∧
    ∀ root : Node,
      root.census.total = root.preorder.length ∧
      root.census.errors = root.preorder.countP (fun n => n.kind == "ERROR" || n.label.missing) ∧
      ∀ (frontEnd : FrontEnd) (path : Path) (language : Language) (text : String),
        Language.ofPath path = .ok language → frontEnd language text = root →
          (∀ ratio, parse frontEnd ratio path text = .ok { language, path := path.text, root } ∨
            parse frontEnd ratio path text =
              .error (.syntaxErrors path.text root.census.errors root.census.total)) ∧
          (¬ IsAccepted frontEnd path text .zero ↔
            root.preorder.length < root.census.errors * 2 ^ 1075) ∧
          (root.preorder.length < 2 ^ 1075 → (¬ IsAccepted frontEnd path text .zero ↔
            ∃ n ∈ root.preorder, n.kind = "ERROR" ∨ n.label.missing = true)) ∧
          IsAccepted frontEnd path text (.ofInt 1) ∧
          ∀ ratio larger : Binary64, ratio.lt larger = true →
            IsAccepted frontEnd path text ratio → IsAccepted frontEnd path text larger := by
  refine ⟨fun α t => ⟨t.nodes_eq_preorder, ⟨t.pairwise_places, fun _ => Tree.mem_places, ?_⟩,
    fun wanted => ?_⟩, fun root => ?_⟩
  · rw [t.nodes_eq_preorder, t.map_at?_places]
  · rw [Tree.findAll, t.nodes_eq_preorder]
  · have htotal : root.census.total = root.preorder.length := by rw [root.census_eq]
    have herrors : root.census.errors = root.preorder.countP (·.label.isError) := by
      rw [root.census_eq]
    refine ⟨htotal, herrors, ?_⟩
    rintro frontEnd path language text hlanguage rfl
    have hzero : ¬ IsAccepted frontEnd path text .zero ↔ _ := not_isAccepted_zero_iff hlanguage
    rw [htotal] at hzero
    refine ⟨fun ratio => ?_, hzero, fun hsize => ?_, ?_, fun ratio larger hlt => ?_⟩
    · rw [parse_eq hlanguage]
      split
      · exact .inl rfl
      · exact .inr rfl
    · rw [hzero, ← Tree.errors_pos_iff]
      constructor
      · refine fun hlength => Nat.pos_of_ne_zero fun hnone => ?_
        rw [hnone, Nat.zero_mul] at hlength
        exact Nat.not_lt_zero _ hlength
      · exact fun hpos => hsize.trans_le (Nat.le_mul_of_pos_left _ hpos)
    · exact (isAccepted_iff hlanguage).2 (accepts_one (Tree.errors_le_total _))
    · rw [isAccepted_iff hlanguage, isAccepted_iff hlanguage]
      exact accepts_of_lt hlt

/-- A tree with an error that has a node below it, and a node that was missing. -/
def broken : Node :=
  .node { kind := "program", text := "a b" }
    [.node { kind := "ERROR", text := "a" } [.node { kind := "identifier", text := "a" } []],
      .node { kind := "expression_statement", text := "b" }
        [.node { kind := ";", text := "", named := false, missing := true } []]]

theorem traversals_visit_once_broken :
    Language.ofPath (Path.ofString "/a.ts") = .ok .typescript ∧ broken.preorder.length < 2 ^ 1075 ∧
      broken.nodes.map Tree.kind = ["program", "ERROR", "identifier", "expression_statement", ";"] ∧
      broken.places = [[], [0], [0, 0], [1], [1, 0]] ∧
      broken.census = { errors := 2, total := 5 } ∧
      ¬ IsAccepted (fun _ _ => broken) (Path.ofString "/a.ts") "a b" .zero ∧
      IsAccepted (fun _ _ => broken) (Path.ofString "/a.ts") "a b" (.ofInt 1) := by
  have hlanguage : Language.ofPath (Path.ofString "/a.ts") = .ok .typescript := rfl
  have hsize : broken.preorder.length < 2 ^ 1075 :=
    lt_of_lt_of_le (by decide : broken.preorder.length < 2 ^ 3)
      (pow_le_pow_right₀ one_le_two (by decide))
  obtain ⟨hnodes, -⟩ := traversals_visit_once.1 Tag broken
  obtain ⟨htotal, herrors, hparse⟩ := traversals_visit_once.2 broken
  obtain ⟨-, -, hzero, hone, -⟩ :=
    hparse (fun _ _ => broken) (Path.ofString "/a.ts") .typescript "a b" hlanguage rfl
  have hcensus : broken.census = { errors := 2, total := 5 } := by
    rw [Census.mk.injEq, htotal, herrors]
    decide
  have herror : ∃ n ∈ broken.preorder, n.kind = "ERROR" ∨ n.label.missing = true :=
    ⟨_, List.mem_of_getElem? (i := 1) rfl, .inl rfl⟩
  refine ⟨hlanguage, hsize, ?_, by decide, hcensus, (hzero hsize).2 herror, hone⟩
  rw [hnodes]
  decide

end SourceTree

end ContractInference
