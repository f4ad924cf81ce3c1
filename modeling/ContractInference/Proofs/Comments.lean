import ContractInference.Links
import ContractInference.Proofs.BuilderRoundTrip

/-!
# Comments in syntax trees

A comment may stand anywhere among the children of a node. What is read from a tree with comments
is what is read from the tree without them: each function that reads a node gives the same for the
node once its comments are taken out.
-/

namespace ContractInference

namespace Tree

def comment (text : String) : Node := .node { kind := "comment", text } []

/-- The second trees are the first ones with comments inserted, among them and at any depth. -/
inductive Commented : List Node → List Node → Prop
  | nil : Commented [] []
  | node (tag : Tag) {cs ds ts us : List Node} : Commented cs ds → Commented ts us →
    Commented (.node tag cs :: ts) (.node tag ds :: us)
  | comment (text : String) {ts us : List Node} : Commented ts us →
    Commented ts (comment text :: us)

/-- Nodes that stand at the same place, one in trees and one in the same trees with comments. -/
inductive Corresponding : List Node → List Node → Node → Node → Prop
  | here (tag : Tag) {cs ds ts us : List Node} : Commented cs ds → Commented ts us →
    Corresponding (.node tag cs :: ts) (.node tag ds :: us) (.node tag cs) (.node tag ds)
  | inside (tag : Tag) {cs ds ts us : List Node} {t u : Node} : Corresponding cs ds t u →
    Commented ts us → Corresponding (.node tag cs :: ts) (.node tag ds :: us) t u
  | later (tag : Tag) {cs ds ts us : List Node} {t u : Node} : Commented cs ds →
    Corresponding ts us t u → Corresponding (.node tag cs :: ts) (.node tag ds :: us) t u
  | comment (text : String) {ts us : List Node} {t u : Node} : Corresponding ts us t u →
    Corresponding ts (comment text :: us) t u

theorem Corresponding.commented {ts us : List Node} {t u : Node} (h : Corresponding ts us t u) :
    Commented [t] [u] := by
  induction h with
  | here tag hchildren _ => exact .node tag hchildren .nil
  | inside _ _ _ ih => exact ih
  | later _ _ _ ih => exact ih
  | comment _ _ ih => exact ih

/-- A comment that is nothing else: it fills no field, and nothing stands below it. -/
def isComment (n : Node) : Bool := n.isKind "comment" && n.label.field.isNone && n.children.isEmpty

mutual

/-- The tree without the comments below its root. -/
def bare : Node → Node
  | .node tag ts => .node tag (bareAll ts)

def bareAll : List Node → List Node
  | [] => []
  | t :: ts => if t.bare.isComment then bareAll ts else t.bare :: bareAll ts

end

theorem bareAll_eq (ts : List Node) : bareAll ts = (ts.map bare).filter (!·.isComment) := by
  induction ts with
  | nil => rfl
  | cons t ts ih =>
    rw [bareAll, ih]
    cases h : t.bare.isComment <;> simp [h]

theorem Commented.bareAll_eq {ts us : List Node} (h : Commented ts us) :
    bareAll ts = bareAll us := by
  induction h with
  | nil => rfl
  | node tag _ _ hchildren hrest => rw [bareAll, bareAll, bare, bare, hchildren, hrest]
  | comment text _ hrest => simpa [bareAll, bare, comment, isComment, isKind, kind, label, children]

theorem Commented.bare_eq {n m : Node} (h : Commented [n] [m]) : n.bare = m.bare := by
  cases h with
  | node tag hchildren _ => rw [bare, bare, hchildren.bareAll_eq]
  | comment text h => cases h

section

variable (n : Node)

@[simp] theorem label_bare : n.bare.label = n.label := by
  cases n
  rfl

@[simp] theorem kind_bare : n.bare.kind = n.kind := by
  cases n
  rfl

@[simp] theorem text_bare : n.bare.text = n.text := by
  cases n
  rfl

@[simp] theorem isKind_bare (k : String) : n.bare.isKind k = n.isKind k := by
  cases n
  rfl

@[simp] theorem isCall_bare : n.bare.isCall = n.isCall := isKind_bare n _

@[simp] theorem isMember_bare : n.bare.isMember = n.isMember := isKind_bare n _

@[simp] theorem stringValue?_bare : n.bare.stringValue? = n.stringValue? := by
  simp [stringValue?]

theorem children_bare : n.bare.children = (n.children.map bare).filter (!·.isComment) := by
  cases n
  exact bareAll_eq _

/-- A comment fills no field, so that the child of a field stays the first one. -/
@[simp] theorem child?_bare (field : String) : n.bare.child? field = (n.child? field).map bare := by
  have hfield : ∀ t : Node, decide ((!t.bare.isComment) = true ∧
      (t.bare.label.field == some field) = true) = (t.label.field == some field) := by
    intro t
    cases h : t.label.field <;> simp [isComment, h, beq_eq_decide]
  rw [child?, children_bare, List.find?_filter, List.find?_map, child?]
  simp only [Function.comp_def, hfield]

@[simp] theorem childText_bare (field : String) : n.bare.childText field = n.childText field := by
  rw [childText, childText, child?_bare]
  cases n.child? field <;> simp

theorem kind_of_isComment {n : Node} (h : n.isComment = true) : n.kind = "comment" := by
  simp only [isComment, Bool.and_eq_true, isKind, beq_iff_eq] at h
  exact h.1.1

variable {β : Type}

theorem flatMap_children_bare {g : Node → List β}
    (hg : ∀ t : Node, t.kind = "comment" → g t = []) :
    n.bare.children.flatMap g = n.children.flatMap fun t => g t.bare := by
  rw [children_bare]
  induction n.children with
  | nil => rfl
  | cons t ts ih =>
    cases h : t.bare.isComment with
    | true => simp [h, ih, hg _ (kind_of_isComment h)]
    | false => simp [h, ih]

theorem flatMap_namedChildren_bare {g : Node → List β}
    (hg : ∀ t : Node, t.kind = "comment" → g t = []) :
    n.bare.namedChildren.flatMap g = n.namedChildren.flatMap fun t => g t.bare := by
  have hnamed : ∀ (ts : List Node) (g : Node → List β), (ts.filter (·.label.named)).flatMap g =
      ts.flatMap fun t => if t.label.named then g t else [] := by
    intro ts g
    induction ts with
    | nil => rfl
    | cons t ts ih => cases h : t.label.named <;> simp [h, ih]
  rw [namedChildren, namedChildren, hnamed, hnamed, flatMap_children_bare]
  · simp
  · intro t ht
    simp [hg t ht]

theorem filterMap_children_bare {g : Node → Option β}
    (hg : ∀ t : Node, t.kind = "comment" → g t = none) :
    n.bare.children.filterMap g = n.children.filterMap fun t => g t.bare := by
  rw [List.filterMap_eq_flatMap_toList, List.filterMap_eq_flatMap_toList, flatMap_children_bare]
  intro t ht
  rw [hg t ht]
  rfl

theorem filterMap_namedChildren_bare {g : Node → Option β}
    (hg : ∀ t : Node, t.kind = "comment" → g t = none) :
    n.bare.namedChildren.filterMap g = n.namedChildren.filterMap fun t => g t.bare := by
  rw [List.filterMap_eq_flatMap_toList, List.filterMap_eq_flatMap_toList,
    flatMap_namedChildren_bare]
  intro t ht
  rw [hg t ht]
  rfl

theorem filter_children_bare {p : Tag → Bool} (hp : ∀ t : Tag, t.kind = "comment" → p t = false) :
    n.bare.children.filter (p ·.label) = (n.children.filter (p ·.label)).map bare := by
  have hkept : ∀ t : Node, (p t.bare.label && !t.bare.isComment) = p t.label := by
    intro t
    cases h : t.bare.isComment with
    | false => simp
    | true =>
      have hkind : t.label.kind = "comment" := by simpa [kind] using kind_of_isComment h
      simp [hp _ hkind]
  rw [children_bare, List.filter_filter, List.filter_map]
  simp only [Function.comp_def, hkept]

theorem filter_namedChildren_bare {p : Tag → Bool}
    (hp : ∀ t : Tag, t.kind = "comment" → p t = false) :
    n.bare.namedChildren.filter (p ·.label) = (n.namedChildren.filter (p ·.label)).map bare := by
  rw [namedChildren, namedChildren, List.filter_filter, List.filter_filter]
  refine filter_children_bare n (p := fun t => p t && t.named) fun t ht => ?_
  rw [hp t ht, Bool.false_and]

theorem any_children_bare {p : Tag → Bool} (hp : ∀ t : Tag, t.kind = "comment" → p t = false) :
    n.bare.children.any (p ·.label) = n.children.any (p ·.label) := by
  have hfilter : ∀ ts : List Node,
      ts.any (p ·.label) = (ts.filter (p ·.label)).any (p ·.label) := by
    simp
  rw [hfilter, filter_children_bare n hp, List.any_map, hfilter n.children]
  simp only [Function.comp_def, label_bare]

theorem hasChildKind_bare {k : String} (hk : "comment" ≠ k) :
    n.bare.hasChildKind k = n.hasChildKind k :=
  any_children_bare n (p := fun t => t.kind == k) fun t ht => by simpa [ht] using hk

end

section

theorem followCallee_eq (n : Node) (methods : List String) :
    n.followCallee methods =
      if n.isMember then
        match n.child? "object" with
        | some o => o.followCallee (n.memberName?.toList ++ methods)
        | none => ⟨none, n.memberName?.toList ++ methods⟩
      else if n.isCall then
        match n.child? "function" with
        | some f => f.followCallee methods
        | none => ⟨none, methods⟩
      else if n.isKind "identifier" then ⟨some n.text, methods⟩
      else ⟨none, methods⟩ := by
  rw [followCallee]
  dsimp only
  split
  · split <;> simp_all
  · split
    · split <;> simp_all
    · rfl

theorem calls_eq (n : Node) :
    n.calls = if n.isCall then n :: (n.innerCall?.map calls).getD [] else [] := by
  rw [calls]
  split
  · split <;> simp_all
  · rfl

variable (n : Node)

@[simp] theorem memberName?_bare : n.bare.memberName? = n.memberName? := by
  rw [memberName?, memberName?, child?_bare]
  cases n.child? "property" <;> simp

@[simp] theorem followCallee_bare (methods : List String) :
    n.bare.followCallee methods = n.followCallee methods := by
  induction hn : n.size using Nat.strongRecOn generalizing n methods with
  | ind size ih =>
    subst hn
    rw [followCallee_eq, followCallee_eq n]
    simp only [isMember_bare, memberName?_bare, isCall_bare, isKind_bare, text_bare, child?_bare]
    congr 1
    · cases ho : n.child? "object" with
      | none => rfl
      | some o => exact ih _ (size_child?_lt ho) o _ rfl
    · congr 1
      cases hf : n.child? "function" with
      | none => rfl
      | some f => exact ih _ (size_child?_lt hf) f _ rfl

@[simp] theorem chain_bare : n.bare.chain = n.chain := by
  rw [chain, chain, isCall_bare, child?_bare]
  cases n.child? "function" <;> simp

@[simp] theorem calledName?_bare : n.bare.calledName? = n.calledName? := by
  rw [calledName?, calledName?, child?_bare]
  cases n.child? "function" <;> simp

@[simp] theorem callTarget?_bare : n.bare.callTarget? = n.callTarget?.map bare := by
  rw [callTarget?, callTarget?, child?_bare]
  cases n.child? "function" with
  | none => rfl
  | some f =>
    simp only [Option.map_some, isMember_bare, isCall_bare, child?_bare]
    split
    · rfl
    · split <;> rfl

@[simp] theorem innerCall?_bare : n.bare.innerCall? = n.innerCall?.map bare := by
  rw [innerCall?, innerCall?, callTarget?_bare]
  cases n.callTarget? with
  | none => rfl
  | some t =>
    simp only [Option.map_some, isCall_bare]
    split <;> rfl

@[simp] theorem calls_bare : n.bare.calls = n.calls.map bare := by
  induction hn : n.size using Nat.strongRecOn generalizing n with
  | ind size ih =>
    subst hn
    rw [calls_eq, calls_eq n, isCall_bare, innerCall?_bare]
    split
    · cases hc : n.innerCall? with
      | none => rfl
      | some c => simpa using ih _ (size_innerCall?_lt hc) c rfl
    · rfl

@[simp] theorem callArguments_bare : n.bare.callArguments = n.callArguments.map bare := by
  rw [callArguments, callArguments, child?_bare]
  cases n.child? "arguments" with
  | none => rfl
  | some a =>
    exact filter_namedChildren_bare a (p := fun t => !t.kind == "comment") (by simp)

end

end Tree

namespace Literal

open ContractInference.Tree

variable (n : Node)

@[simp] theorem decodeString_bare : decodeString n.bare = decodeString n := by
  have hpiece : ∀ t : Node, t.kind = "comment" → (decodePiece t).points = [] := by
    intro t ht
    simp [decodePiece, isKind, ht, Text.empty]
  have hbare : ∀ t : Node, decodePiece t.bare = decodePiece t := by
    intro t
    simp [decodePiece]
  have hflat : ∀ m : Node,
      decodeString m = ⟨m.namedChildren.flatMap fun t => (decodePiece t).points⟩ := by
    intro m
    simp [decodeString, Text.concat, List.flatMap_map]
  rw [hflat, hflat n, flatMap_namedChildren_bare n hpiece]
  simp only [hbare]

@[simp] theorem ofNode?_bare : ofNode? n.bare = ofNode? n := by
  have hsubstitution : n.bare.namedChildren.any (·.isKind "template_substitution") =
      n.namedChildren.any (·.isKind "template_substitution") := by
    rw [namedChildren, namedChildren, List.any_filter, List.any_filter]
    refine any_children_bare n (p := fun t => t.named && t.kind == "template_substitution") ?_
    intro t ht
    simp [ht]
  unfold ofNode?
  rw [kind_bare]
  split
  · rw [decodeString_bare]
  · rw [text_bare]
  · rfl
  · rfl
  · rfl
  · rw [hsubstitution, text_bare]
  · rw [child?_bare, childText_bare]
    cases n.child? "argument" <;> simp
  · rfl

@[simp] theorem jsonOfNode?_bare : jsonOfNode? n.bare = jsonOfNode? n := by
  simp [jsonOfNode?]

end Literal

namespace Builder

open ContractInference.Tree

variable (b : BuilderSettings) (n : Node)

@[simp] theorem message?_bare : message? n.bare = message? n := by
  unfold message?
  simp only [isKind_bare, Literal.decodeString_bare]
  congr 2
  rw [← List.head?_filterMap, ← List.head?_filterMap, filterMap_namedChildren_bare]
  · congr 2
    funext pair
    simp only [isKind_bare, child?_bare]
    congr 1
    cases pair.child? "key" <;> cases pair.child? "value" <;> simp
  · intro t ht
    simp [isKind, ht]

@[simp] theorem constraintText?_bare (method : String) (first : Node) (rest : List Node) :
    constraintText? method first.bare (rest.map bare) = constraintText? method first rest := by
  have hmessage : (rest.map bare).head?.bind message? = rest.head?.bind message? := by
    cases rest <;> simp
  rw [constraintText?, constraintText?, Literal.ofNode?_bare, hmessage]

@[simp] theorem addCall_bare (v : Validations) : addCall b v n.bare = addCall b v n := by
  unfold addCall
  rw [calledName?_bare, callArguments_bare]
  cases n.callArguments <;> simp

@[simp] theorem validations_bare : validations b n.bare = validations b n := by
  rw [validations, validations, calls_bare, List.foldlM_map]
  simp only [addCall_bare]

theorem memberBase_eq :
    memberBase n = if n.isMember then (n.child? "object").bind memberBase else some n := by
  rw [memberBase]
  split
  · split <;> simp_all
  · rfl

@[simp] theorem memberBase_bare : memberBase n.bare = (memberBase n).map bare := by
  induction hn : n.size using Nat.strongRecOn generalizing n with
  | ind size ih =>
    subst hn
    rw [memberBase_eq, memberBase_eq n, isMember_bare, child?_bare]
    split
    · cases ho : n.child? "object" with
      | none => rfl
      | some o => simpa using ih _ (size_child?_lt ho) o rfl
    · rfl

@[simp] theorem startsAt_bare (root : String) : startsAt root n.bare = startsAt root n := by
  rw [startsAt, startsAt, child?_bare]
  cases n.child? "function" with
  | none => rfl
  | some f =>
    simp only [Option.map_some, isMember_bare, memberBase_bare]
    cases memberBase f <;> simp

@[simp] theorem constructorCall?_bare :
    constructorCall? b n.bare = (constructorCall? b n).map bare := by
  rw [constructorCall?, constructorCall?, calls_bare, ← List.map_reverse, List.find?_map]
  simp only [Function.comp_def, startsAt_bare]

@[simp] theorem enumLabel_bare : enumLabel n.bare = enumLabel n := by
  have hunion : enumUnion n.bare = enumUnion n := by
    rw [enumUnion, enumUnion, callArguments_bare, List.head?_map]
    cases n.callArguments.head? with
    | none => rfl
    | some first =>
      have hmembers : first.bare.namedChildren.filter (·.isKind "string") =
          (first.namedChildren.filter (·.isKind "string")).map bare :=
        filter_namedChildren_bare first (p := fun t => t.kind == "string") (by simp_all)
      simp [hmembers, Function.comp_def]
  rw [enumLabel, enumLabel, hunion]

@[simp] theorem propertyKey?_bare : propertyKey? n.bare = propertyKey? n := by
  simp [propertyKey?]

theorem property?_bare : property? n.bare = (property? n).map fun e => (e.1, e.2.bare) := by
  rw [property?, property?, isKind_bare, child?_bare, child?_bare]
  split
  · cases n.child? "key" with
    | none => rfl
    | some key =>
      cases n.child? "value" with
      | none => cases h : propertyKey? key <;> simp [h]
      | some value =>
        cases h : propertyKey? key with
        | none => simp [h]
        | some k =>
          simp only [Option.map_some, Option.bind_some, propertyKey?_bare, h, isCall_bare]
          split <;> rfl
  · rfl

theorem argumentProperties_bare :
    argumentProperties n.bare = (argumentProperties n).map fun e => (e.1, e.2.bare) := by
  rw [argumentProperties, argumentProperties, callArguments_bare, List.head?_map]
  cases n.callArguments.head? with
  | none => rfl
  | some first =>
    simp only [Option.map_some, isKind_bare]
    split
    · rw [filterMap_namedChildren_bare, List.map_filterMap]
      · simp only [property?_bare]
      · intro t ht
        simp [property?, isKind, ht]
    · rfl

theorem properties_bare :
    properties b n.bare = (properties b n).map fun e => (e.1, e.2.bare) := by
  rw [properties, properties, constructorCall?_bare]
  cases constructorCall? b n with
  | none => rfl
  | some ctor =>
    simp only [Option.map_some, calls_bare, ← List.map_reverse, List.filter_map, List.flatMap_map,
      Function.comp_def, calledName?_bare, argumentProperties_bare, List.map_append,
      List.map_flatMap]

theorem fieldOf_bare (name : Text) (v : Validations) (s : Builder.Shape) :
    fieldOf b name n.bare v s = fieldOf b name n v s := by
  rw [fieldOf, fieldOf, chain_bare]

theorem readField_bare {property : Text × Node} (h : shape b property.2.bare = shape b property.2) :
    readField b (property.1, property.2.bare) = readField b property := by
  simp only [readField, validations_bare, h, fieldOf_bare]

theorem objectFields_bare
    (h : ∀ property ∈ properties b n, shape b property.2.bare = shape b property.2) :
    objectFields b n.bare = objectFields b n := by
  have hread : (properties b n).mapM (readField b ∘ fun e => (e.1, e.2.bare)) =
      (properties b n).mapM (readField b) :=
    mapM_congr fun property hp => readField_bare b (h property hp)
  rw [objectFields_eq, objectFields_eq, properties_bare, List.mapM_map, hread]

theorem itemOf_bare :
    itemOf n.bare = match itemOf n with
      | .call item => .call item.bare
      | .label t => .label t := by
  rw [itemOf, itemOf, callArguments_bare, List.head?_map]
  cases n.callArguments.head? with
  | none => rfl
  | some item =>
    simp only [Option.map_some, isKind_bare, isCall_bare, text_bare]
    split
    · rfl
    · split <;> rfl

theorem itemLabel_bare (h : ∀ item, itemOf n = .call item → shape b item.bare = shape b item) :
    itemLabel b n.bare = itemLabel b n := by
  rw [itemLabel, itemLabel, itemOf_bare]
  cases hitem : itemOf n with
  | label t => rfl
  | call item =>
    dsimp only
    rw [h item hitem]

theorem shapeBy_bare {ctor? : Option Node} (hfields : objectFields b n.bare = objectFields b n)
    (hitem : ∀ ctor, ctor? = some ctor → itemLabel b ctor.bare = itemLabel b ctor)
    (suffix : List String) (kind : String) :
    shapeBy b n.bare suffix kind (ctor?.map bare) = shapeBy b n suffix kind ctor? := by
  by_cases henum : kind = "enum"
  · subst henum
    cases ctor? with
    | none => rfl
    | some ctor => simp [shapeBy]
  by_cases harray : kind = "array"
  · subst harray
    cases ctor? with
    | none => rfl
    | some ctor => simp [shapeBy, hitem ctor rfl]
  by_cases hobject : kind = "object"
  · subst hobject
    simp [shapeBy, hfields]
  have hplain : ∀ m c?, shapeBy b m suffix kind c? =
      .ok (Builder.Shape.wrap { label := (primitiveLabels.lookup kind).getD kind } suffix) := by
    intro m c?
    unfold shapeBy
    split <;> simp_all
  rw [hplain, hplain]

/-- The shape of a chain is the same without comments, in the items and the values first. -/
@[simp] theorem shape_bare : shape b n.bare = shape b n := by
  induction hn : n.size using Nat.strongRecOn generalizing n with
  | ind size ih =>
    subst hn
    by_cases hrooted : n.chain.isRootedAt b.rootName = true
    · rw [shape_eq hrooted, shape_eq (by rwa [chain_bare]), chain_bare, constructorCall?_bare]
      apply shapeBy_bare
      · exact objectFields_bare b n fun property hp => ih _ (size_property_lt hp) property.2 rfl
      · intro ctor hctor
        refine itemLabel_bare b ctor fun item hitem => ih _ ?_ item rfl
        exact Nat.lt_of_lt_of_le (size_itemOf_lt hitem) (size_constructorCall?_le hctor)
    · rw [shape, shape]
      dsimp only
      rw [chain_bare, if_neg hrooted, if_neg hrooted]

@[simp] theorem field?_bare (name : Text) : field? b name n.bare = field? b name n := by
  simp [field?, fieldOf_bare]

@[simp] theorem schema?_bare (name : Option String) : schema? b n.bare name = schema? b n name := by
  have hfields : objectFields b n.bare = objectFields b n :=
    objectFields_bare b n fun property _ => shape_bare b property.2
  rw [schema?, schema?, isBuilderCall, isBuilderCall, isCall_bare, chain_bare,
    constructorCall?_bare, hfields]
  cases n.chain.constructor? with
  | none => rfl
  | some kind =>
    cases constructorCall? b n with
    | none => rfl
    | some ctor =>
      dsimp only [Option.map_some]
      rw [enumLabel_bare, itemLabel_bare b ctor fun item _ => shape_bare b item]

end Builder

end ContractInference
