import ContractInference.Proofs.BuilderType
import ContractInference.Proofs.Fallible
import ContractInference.Proofs.Tables

/-!
# Reading builder types

The tree of a builder type is read as the field that the type stands for. Along a chain of calls
each reading function is followed call by call; through arguments and properties the argument goes
by induction on the type.
-/

namespace ContractInference

open Written

theorem Text.contains_iff (t pattern : Text) :
    t.contains pattern = true ↔ pattern.points <:+: t.points := by
  suffices h : ∀ ps, occursIn pattern.points ps = true ↔ pattern.points <:+: ps from h t.points
  intro ps
  induction ps with
  | nil => simp [occursIn]
  | cons p ps ih => simp [occursIn, ih, List.infix_cons_iff]

theorem Text.ofString_injective : Function.Injective Text.ofString := by
  have hpoint : Function.Injective CodePoint.ofChar := by
    intro c d h
    have hval : c.toNat % 0x110000 = d.toNat % 0x110000 := congrArg Fin.val h
    have hlt : ∀ c : Char, c.toNat < 0x110000 := by
      intro c
      have hvalid : c.toNat.isValidChar := c.valid
      unfold Nat.isValidChar at hvalid
      omega
    rw [Nat.mod_eq_of_lt (hlt c), Nat.mod_eq_of_lt (hlt d)] at hval
    exact Char.toNat_inj.1 hval
  intro s t h
  have hchars : s.toList.map CodePoint.ofChar = t.toList.map CodePoint.ofChar := congrArg points h
  exact String.toList_injective (List.map_injective_iff.2 hpoint hchars)

namespace Builder

theorem kindOf_cons {kind : String} (h : kind ∉ namespaceNames) (suffix : List String) :
    kindOf (kind :: suffix) = (kind, suffix) := by
  cases suffix with
  | nil => rfl
  | cons m ms => simp [kindOf, h]

def readField (b : BuilderSettings) (property : Text × Node) : Except Failure Field := do
  let v ← validations b property.2
  return fieldOf b property.1 property.2 v (← shape b property.2)

theorem field?_of_isCall {b : BuilderSettings} {name : Text} {n : Node} (h : n.isCall = true) :
    field? b name n = some <$> readField b (name, n) := by
  rw [field?, if_pos h]
  dsimp only [readField]
  cases validations b n with
  | error e => rfl
  | ok v => cases shape b n <;> rfl

theorem objectFields_eq (b : BuilderSettings) (n : Node) :
    objectFields b n = (do
      let fields ← (properties b n).mapM (readField b)
      return mergeFields fields) :=
  rfl

/-- The shape of a chain by its constructor, in terms of the shape of an item and the fields of an
object. -/
def shapeBy (b : BuilderSettings) (n : Node) (suffix : List String) :
    String → Option Node → Except Failure Shape
  | "enum", some ctor => .ok (Shape.wrap { label := enumLabel ctor } suffix)
  | "array", some ctor => do
    let item ← itemLabel b ctor
    return Shape.wrap { label := item ++ "[]" } suffix
  | "object", _ => do
    let fields ← objectFields b n
    let nested := if fields.isEmpty then none else some fields
    return Shape.wrap { label := "object", nested } suffix
  | kind, _ => .ok (Shape.wrap { label := (primitiveLabels.lookup kind).getD kind } suffix)

theorem shape_eq {b : BuilderSettings} {n : Node} (h : n.chain.isRootedAt b.rootName = true) :
    shape b n = shapeBy b n (kindOf n.chain.methods).2 (kindOf n.chain.methods).1
      (constructorCall? b n) := by
  rw [shape]
  dsimp only
  rw [if_pos h]
  split
  · rename_i hk hc
    rw [hk, hc]
    rfl
  · rename_i hk hc
    rw [hk, hc, shapeBy, itemLabel]
    split
    · rename_i hi
      rw [hi]
      rfl
    · rename_i item hi
      rw [hi]
      dsimp only
      cases shape b item <;> rfl
  · rename_i hk
    rw [hk, List.mapM_subtype (g := readField b) fun _ _ => rfl, List.unattach_attach, shapeBy,
      objectFields_eq]
    cases (properties b n).mapM (readField b) with
    | error e => rfl
    | ok fields =>
      dsimp only [bind, Except.bind, pure, Except.pure]
      cases mergeFields fields <;> rfl
  · rename_i hobject henum harray
    unfold shapeBy
    split
    · rename_i hk hc
      exact absurd hc (henum _ hk)
    · rename_i hk hc
      exact absurd hc (harray _ hk)
    · rename_i hk
      exact absurd hk hobject
    · rfl

end Builder

namespace Constant

def value : Constant → Literal
  | integer n _ => .int n
  | string s => .text s

theorem ofNode?_tree (c : Constant) : Literal.ofNode? c.tree = some c.value := by
  cases c with
  | integer n bound => exact ofNode?_integer bound
  | string s => exact ofNode?_string s

theorem display_value (c : Constant) : c.value.display = .ok c.shown := by
  cases c with
  | integer n bound => exact integerText_of_lt bound
  | string s => rfl

theorem json_value (c : Constant) : c.value.json = .ok c.json := by
  cases c with
  | integer n bound => exact integerText_of_lt bound
  | string s => rfl

theorem isArgument_tree (c : Constant) : IsArgument c.tree := by
  cases c with
  | integer n bound =>
    rw [tree, Written.integer]
    split <;> exact ⟨rfl, rfl⟩
  | string s => exact ⟨rfl, rfl⟩

end Constant

namespace DefaultValue

theorem jsonOfNode?_tree (d : DefaultValue) : Literal.jsonOfNode? d.tree = .ok (some d.json) := by
  cases d with
  | constant c =>
    rw [tree, Literal.jsonOfNode?, c.ofNode?_tree]
    dsimp only
    rw [c.json_value]
    rfl
  | bool b => cases b <;> rfl
  | null => rfl

theorem isArgument_tree (d : DefaultValue) : IsArgument d.tree := by
  cases d with
  | constant c => exact c.isArgument_tree
  | bool b => cases b <;> exact ⟨rfl, rfl⟩
  | null => exact ⟨rfl, rfl⟩

end DefaultValue

namespace Primitive

theorem name_mem (p : Primitive) : p.name ∈ Builder.primitiveLabels.map Prod.fst := by
  cases p <;> decide

end Primitive

namespace BuilderCall

open Builder

theorem notMem_interpretedMethods {b : BuilderSettings} {m : String} :
    m ∉ interpretedMethods b ↔ m ∉ b.constraintMethods ∧ m ∉ b.optionalMarkers ∧ m ≠ "default" ∧
      m ≠ "array" ∧ m ≠ "extend" := by
  simp [interpretedMethods]

theorem name_spec (c : BuilderCall) :
    (c.name ∈ ({} : BuilderSettings).optionalMarkers ↔ c.isMarker = true) ∧
      (c.name = "array" ↔ c.isArray = true) ∧ c.name ≠ "extend" := by
  cases c with
  | constraint method _ =>
    have h : ∀ m ∈ ({} : BuilderSettings).constraintMethods,
        m ∉ ({} : BuilderSettings).optionalMarkers ∧ m ≠ "array" ∧ m ≠ "extend" := by decide
    obtain ⟨hmarker, harray, hextend⟩ := h method.1 method.2
    exact ⟨iff_of_false hmarker Bool.false_ne_true, iff_of_false harray Bool.false_ne_true, hextend⟩
  | default value =>
    have h : "default" ∉ ({} : BuilderSettings).optionalMarkers ∧ "default" ≠ "array" ∧
        "default" ≠ "extend" := by decide
    exact ⟨iff_of_false h.1 Bool.false_ne_true, iff_of_false h.2.1 Bool.false_ne_true, h.2.2⟩
  | marker method =>
    have h : ∀ m ∈ ({} : BuilderSettings).optionalMarkers, m ≠ "array" ∧ m ≠ "extend" := by decide
    obtain ⟨harray, hextend⟩ := h method.1 method.2
    exact ⟨iff_of_true method.2 rfl, iff_of_false harray Bool.false_ne_true, hextend⟩
  | array => decide
  | other method _ =>
    obtain ⟨-, hmarker, -, harray, hextend⟩ := notMem_interpretedMethods.1 method.2
    exact ⟨iff_of_false hmarker Bool.false_ne_true, iff_of_false harray Bool.false_ne_true, hextend⟩

/-- The call is taken into account by its entry and its default. -/
def note (v : Validations) (c : BuilderCall) : Validations :=
  { entries := match c.validation? with
      | some entry => (v.add entry).entries
      | none => v.entries
    default? := v.default?.or c.default? }

theorem note_eq_add {c : BuilderCall} {entry : Text} (h : c.validation? = some entry)
    (hdefault : c.default? = none) (v : Validations) : note v c = v.add entry := by
  have hadd : (v.add entry).default? = v.default? := by
    unfold Validations.add
    split <;> rfl
  rw [note, h, hdefault, Option.or_none, ← hadd]

theorem note_eq_self {c : BuilderCall} (h : c.validation? = none) (hdefault : c.default? = none)
    (v : Validations) : note v c = v := by
  rw [note, h, hdefault, Option.or_none]

theorem addCall_of_plain {v : Validations} {n : Node} {method : String}
    (hname : n.calledName? = some method)
    (hconstraint : method ∉ ({} : BuilderSettings).constraintMethods)
    (hdefault : method ≠ "default") : addCall {} v n = .ok v := by
  rw [addCall, hname]
  dsimp only
  rw [if_neg (by simpa using hconstraint), if_neg (by simpa using hdefault)]

theorem message?_string (s : String) : message? (Written.string s) = some (Text.ofString s) := by
  rw [← decodeString_string s none]
  rfl

theorem constraintText?_tree (method : {m // m ∈ ({} : BuilderSettings).constraintMethods})
    (c : Constant) (message : Option String) :
    constraintText? method.1 c.tree (message.map fun m => Written.string m).toList =
      .ok (constraint method (some (c, message))).validation? := by
  rw [constraintText?, c.ofNode?_tree]
  dsimp only
  rw [c.display_value]
  cases message with
  | none => rfl
  | some message =>
    dsimp only [Option.map_some, Option.toList_some, List.head?_cons, Option.bind_some]
    rw [message?_string]
    rfl

theorem addCall_call (v : Validations) (c : BuilderCall) {field : Option String} {target : Node}
    (htarget : target.label.field = some "object") :
    addCall {} v (call field target c.name c.arguments) = .ok (note v c) := by
  have hname : (call field target c.name c.arguments).calledName? = some c.name :=
    calledName?_call htarget
  cases c with
  | constraint method argument =>
    have hmethod : ({} : BuilderSettings).constraintMethods.contains method.1 = true :=
      List.contains_iff_mem.2 method.2
    have hargs : (call field target method.1 (constraint method argument).arguments).callArguments =
        (constraint method argument).arguments := by
      refine callArguments_call ?_
      rcases argument with _ | ⟨c, message⟩
      · exact nofun
      · refine List.forall_mem_cons.2 ⟨c.isArgument_tree, fun n hn => ?_⟩
        obtain ⟨m, -, rfl⟩ : ∃ m, message = some m ∧ Written.string m = n := by simpa using hn
        exact ⟨rfl, rfl⟩
    rw [addCall, hname]
    dsimp only [name]
    rw [if_pos hmethod, hargs]
    rcases argument with _ | ⟨c, message⟩
    · rw [note_eq_add rfl rfl]
      rfl
    · have hentry := constraintText?_tree method c message
      dsimp only [arguments]
      rw [hentry]
      rcases message with _ | message <;> rw [note_eq_add rfl rfl] <;> rfl
  | default value =>
    have hargs : (call field target "default" [value.tree]).callArguments = [value.tree] :=
      callArguments_call (List.forall_mem_singleton.2 value.isArgument_tree)
    rw [addCall, hname]
    dsimp only [name, arguments]
    rw [if_neg (by decide), if_pos (by decide), hargs]
    dsimp only
    rw [value.jsonOfNode?_tree]
    rfl
  | marker method =>
    have h : ∀ m ∈ ({} : BuilderSettings).optionalMarkers,
        m ∉ ({} : BuilderSettings).constraintMethods ∧ m ≠ "default" := by decide
    obtain ⟨hconstraint, hdefault⟩ := h method.1 method.2
    rw [addCall_of_plain hname hconstraint hdefault]
    rw [note_eq_self rfl rfl]
  | array =>
    rw [addCall_of_plain hname (by decide) (by decide)]
    rw [note_eq_self rfl rfl]
  | other method _ =>
    obtain ⟨hconstraint, -, hdefault, -⟩ := notMem_interpretedMethods.1 method.2
    rw [addCall_of_plain hname hconstraint hdefault]
    rw [note_eq_self rfl rfl]

theorem entries_add (v : Validations) (entry : Text) (es : List Text) :
    (v.add entry).entries ++ (es.filter (!(v.add entry).entries.contains ·)).eraseDups =
      v.entries ++ ((entry :: es).filter (!v.entries.contains ·)).eraseDups := by
  unfold Validations.add
  by_cases h : v.entries.contains entry = true
  · rw [if_pos h, List.filter_cons_of_neg (by simpa using h)]
  · have hfilter : es.filter (!(v.entries ++ [entry]).contains ·) =
        (es.filter (!v.entries.contains ·)).filter fun e => !e == entry := by
      rw [List.filter_filter]
      refine List.filter_congr fun e _ => ?_
      simp [beq_eq_decide, Bool.and_comm]
    rw [if_neg h, List.filter_cons_of_pos (by simpa using h), List.eraseDups_cons, ← hfilter,
      List.append_assoc]
    rfl

theorem foldl_note (cs : List BuilderCall) (v : Validations) :
    cs.foldl note v =
      { entries := v.entries ++
          ((cs.filterMap validation?).filter (!v.entries.contains ·)).eraseDups
        default? := v.default?.or (cs.findSome? BuilderCall.default?) } := by
  induction cs generalizing v with
  | nil => simp
  | cons c cs ih =>
    have hdefault : (v.default?.or c.default?).or (cs.findSome? BuilderCall.default?) =
        v.default?.or ((c :: cs).findSome? BuilderCall.default?) := by
      rw [List.findSome?_cons, Option.or_assoc]
      cases c.default? <;> rfl
    rw [List.foldl_cons, ih, note, hdefault]
    congr 1
    cases hentry : c.validation? with
    | none => rw [List.filterMap_cons_none hentry]
    | some entry =>
      rw [List.filterMap_cons_some hentry]
      exact entries_add v entry _

end BuilderCall

namespace BuilderType

open Builder

section

variable {name : String} {arguments : List Node} {field : Option String} {cs : List BuilderCall}

theorem field_chained : (chained (constructed name arguments) field cs).label.field = field := by
  cases cs <;> rfl

theorem isCall_chained : (chained (constructed name arguments) field cs).isCall = true := by
  cases cs <;> rfl

theorem followCallee_chained (methods : List String) :
    (chained (constructed name arguments) field cs).followCallee methods =
      ⟨some "z", name :: ((cs.map BuilderCall.name).reverse ++ methods)⟩ := by
  induction cs generalizing field methods with
  | nil =>
    rw [chained, constructed, followCallee_call rfl, Tree.followCallee]
    rfl
  | cons c cs ih =>
    rw [chained, followCallee_call field_chained, ih]
    simp

theorem chain_chained :
    (chained (constructed name arguments) field cs).chain =
      ⟨some "z", name :: (cs.map BuilderCall.name).reverse⟩ := by
  cases cs with
  | nil =>
    rw [chained, constructed, chain_call rfl, Tree.followCallee]
    rfl
  | cons c cs =>
    rw [chained, chain_call field_chained, followCallee_chained]
    simp

theorem calls_constructed :
    (constructed name arguments field).calls = [constructed name arguments field] :=
  calls_call_of_not rfl rfl

theorem calls_chained_cons (c : BuilderCall) :
    (chained (constructed name arguments) field (c :: cs)).calls =
      chained (constructed name arguments) field (c :: cs) ::
        (chained (constructed name arguments) (some "object") cs).calls :=
  calls_call field_chained isCall_chained

theorem startsAt_constructed : startsAt "z" (constructed name arguments field) = true := by
  have hbase : memberBase (member (leaf "identifier" "z" (some "object")) name) =
      some (leaf "identifier" "z" (some "object")) := by
    rw [memberBase, if_pos isMember_member]
    split
    · rename_i o ho
      rw [child?_object_member rfl] at ho
      cases ho
      rw [memberBase]
      rfl
    · rename_i ho
      rw [child?_object_member rfl] at ho
      cases ho
  rw [startsAt, constructed, child?_function_call]
  dsimp only
  rw [isMember_member, hbase]
  rfl

variable (name arguments field cs) in
theorem constructorCall?_chained :
    ∃ f, constructorCall? {} (chained (constructed name arguments) field cs) =
      some (constructed name arguments f) := by
  have hlast : ∀ field, ∃ outer f, (chained (constructed name arguments) field cs).calls =
      outer ++ [constructed name arguments f] := by
    induction cs with
    | nil => exact fun field => ⟨[], field, calls_constructed⟩
    | cons c cs ih =>
      intro field
      obtain ⟨outer, f, hcalls⟩ := ih (some "object")
      exact ⟨_ :: outer, f, by rw [calls_chained_cons, hcalls]; rfl⟩
  obtain ⟨outer, f, hcalls⟩ := hlast field
  refine ⟨f, ?_⟩
  rw [constructorCall?, hcalls, List.reverse_append]
  exact List.find?_cons_of_pos startsAt_constructed

theorem calledName?_ne_extend (hname : name ≠ "extend") :
    ∀ n ∈ (chained (constructed name arguments) field cs).calls, n.calledName? ≠ some "extend" := by
  induction cs generalizing field with
  | nil =>
    rw [chained, calls_constructed, List.forall_mem_singleton, constructed, calledName?_call rfl]
    simpa using hname
  | cons c cs ih =>
    rw [calls_chained_cons, List.forall_mem_cons, chained, calledName?_call field_chained]
    exact ⟨by simpa using c.name_spec.2.2, ih⟩

theorem foldlM_addCall (hname : name ∉ ({} : BuilderSettings).constraintMethods)
    (hdefault : name ≠ "default") (v : Validations) :
    (chained (constructed name arguments) field cs).calls.foldlM (addCall {}) v =
      .ok (cs.foldl BuilderCall.note v) := by
  induction cs generalizing field v with
  | nil =>
    have hplain : addCall {} v (constructed name arguments field) = .ok v :=
      BuilderCall.addCall_of_plain (calledName?_call rfl) hname hdefault
    rw [chained, calls_constructed, List.foldlM_cons, hplain]
    rfl
  | cons c cs ih =>
    rw [calls_chained_cons, List.foldlM_cons, chained, BuilderCall.addCall_call v c field_chained]
    exact ih _

end

theorem wrapItem_eq (label : Text) : wrapItem label = grouped label := by
  simp only [wrapItem, grouped, Text.contains_iff]

/-- One pair of brackets for each call that makes an array. -/
theorem wrap_methods (s : Builder.Shape) (cs : List BuilderCall) :
    s.wrap (cs.map BuilderCall.name).reverse =
      ⟨bracketed cs s.label, if cs.any BuilderCall.isArray then none else s.nested⟩ := by
  have hname : ∀ c : BuilderCall, (c.name == "array") = c.isArray := fun c => by
    rw [Bool.eq_iff_iff, beq_iff_eq]
    exact c.name_spec.2.1
  have hfilter : (cs.map BuilderCall.name).reverse.filter (· == "array") =
      List.replicate (cs.countP BuilderCall.isArray) "array" := by
    refine List.eq_replicate_iff.2 ⟨?_, fun m hm => beq_iff_eq.1 (List.mem_filter.1 hm).2⟩
    rw [← List.countP_eq_length_filter, List.countP_reverse, List.countP_map]
    exact List.countP_congr fun c _ => by simp [hname]
  rw [Builder.Shape.wrap, hfilter, bracketed]
  cases hany : cs.any BuilderCall.isArray with
  | false =>
    have hzero : cs.countP BuilderCall.isArray = 0 :=
      List.countP_eq_zero.2 (List.any_eq_false.1 hany)
    rw [hzero]
    rfl
  | true =>
    have hpos : 0 < cs.countP BuilderCall.isArray := List.countP_pos_iff.2 (List.any_eq_true.1 hany)
    obtain ⟨k, hk⟩ : ∃ k, cs.countP BuilderCall.isArray = k + 1 :=
      Nat.exists_eq_succ_of_ne_zero (Nat.ne_of_gt hpos)
    rw [hk, List.replicate_succ]
    dsimp only
    rw [← List.replicate_succ, List.map_replicate, wrapItem_eq]
    rfl

def constructorName : BuilderType → String
  | primitive p _ => p.name
  | enum _ _ => "enum"
  | array _ _ => "array"
  | object _ _ _ _ => "object"

def constructorArguments : BuilderType → List Node
  | primitive _ _ => []
  | enum members _ => [enclosed "array" none "[" (members.map fun m => Written.string m) "]"]
  | array item _ => [item.tree none]
  | object keys _ value _ =>
    [enclosed "object" none "\x7b" ((List.finRange keys.length).map fun i =>
      property (keys.get i) ((value i).tree (some "value"))) "\x7d"]

theorem tree_eq (b : BuilderType) (field : Option String) :
    b.tree field =
      chained (constructed b.constructorName b.constructorArguments) field b.calls := by
  cases b <;> rw [tree] <;> rfl

theorem constructorName_plain (b : BuilderType) :
    b.constructorName ∉ ({} : BuilderSettings).constraintMethods ∧
      b.constructorName ∉ ({} : BuilderSettings).optionalMarkers ∧
      b.constructorName ∉ namespaceNames ∧
      b.constructorName ≠ "default" ∧ b.constructorName ≠ "extend" := by
  have hmem : b.constructorName ∈ ["enum", "array", "object"] ++ primitiveLabels.map Prod.fst := by
    cases b with
    | primitive p _ => exact List.mem_append_right _ p.name_mem
    | enum _ _ | array _ _ | object _ _ _ _ => simp [constructorName]
  have hplain : ∀ m ∈ ["enum", "array", "object"] ++ primitiveLabels.map Prod.fst,
      m ∉ ({} : BuilderSettings).constraintMethods ∧ m ∉ ({} : BuilderSettings).optionalMarkers ∧
        m ∉ namespaceNames ∧ m ≠ "default" ∧ m ≠ "extend" := by decide
  exact hplain _ hmem

theorem validations_tree (b : BuilderType) (field : Option String) :
    validations {} (b.tree field) =
      .ok { entries := (b.calls.filterMap BuilderCall.validation?).eraseDups
            default? := b.calls.findSome? BuilderCall.default? } := by
  obtain ⟨hconstraint, -, -, hdefault, -⟩ := b.constructorName_plain
  rw [tree_eq, validations, foldlM_addCall hconstraint hdefault, BuilderCall.foldl_note]
  simp

theorem hasMethod_tree (b : BuilderType) (field : Option String) :
    (b.tree field).chain.hasMethod ({} : BuilderSettings).optionalMarkers =
      b.calls.any BuilderCall.isMarker := by
  obtain ⟨-, hmarker, -⟩ := b.constructorName_plain
  rw [tree_eq, chain_chained, Bool.eq_iff_iff, Chain.hasMethod, List.any_eq_true, List.any_eq_true]
  constructor
  · rintro ⟨m, hm, hcontains⟩
    rcases List.mem_cons.1 (List.contains_iff_mem.1 hcontains) with rfl | hmem
    · exact absurd hm hmarker
    · obtain ⟨c, hc, rfl⟩ : ∃ c ∈ b.calls, c.name = m := by simpa using hmem
      exact ⟨c, hc, c.name_spec.1.1 hm⟩
  · rintro ⟨c, hc, hm⟩
    have hmem : c.name ∈ (b.calls.map BuilderCall.name).reverse :=
      List.mem_reverse.2 (List.mem_map_of_mem hc)
    exact ⟨c.name, c.name_spec.1.2 hm, List.contains_iff_mem.2 (List.mem_cons_of_mem _ hmem)⟩

theorem readField_tree {b : BuilderType} {field : Option String} (name : Text)
    (h : shape {} (b.tree field) = .ok ⟨b.label, b.nested⟩) :
    readField {} (name, b.tree field) = .ok (b.field name) := by
  have hread : readField {} (name, b.tree field) =
      .ok (fieldOf {} name (b.tree field)
        { entries := (b.calls.filterMap BuilderCall.validation?).eraseDups
          default? := b.calls.findSome? BuilderCall.default? }
        ⟨b.label, b.nested⟩) := by
    rw [readField, validations_tree, h]
    rfl
  rw [hread, fieldOf, hasMethod_tree]
  rfl

theorem shape_tree_eq (b : BuilderType) (field : Option String) :
    ∃ f, constructorCall? {} (b.tree field) =
        some (constructed b.constructorName b.constructorArguments f) ∧
      shape {} (b.tree field) =
        shapeBy {} (b.tree field) (b.calls.map BuilderCall.name).reverse b.constructorName
          (some (constructed b.constructorName b.constructorArguments f)) := by
  obtain ⟨-, -, hnamespace, -⟩ := b.constructorName_plain
  rw [tree_eq]
  obtain ⟨f, hctor⟩ :=
    constructorCall?_chained b.constructorName b.constructorArguments field b.calls
  refine ⟨f, hctor, ?_⟩
  rw [shape_eq (by rw [chain_chained]; simp [Chain.isRootedAt, Chain.parts]), hctor, chain_chained,
    kindOf_cons hnamespace]

theorem kind_tree (b : BuilderType) (field : Option String) :
    (b.tree field).kind = "call_expression" := by
  rw [tree_eq]
  cases b.calls <;> rfl

theorem named_tree (b : BuilderType) (field : Option String) :
    (b.tree field).label.named = true := by
  rw [tree_eq]
  cases b.calls <;> rfl

theorem shapeBy_primitive (n : Node) (suffix : List String) (p : Primitive) (ctor : Option Node) :
    shapeBy {} n suffix p.name ctor = .ok (Builder.Shape.wrap { label := p.label } suffix) := by
  cases p <;> cases ctor <;> rfl

theorem enumLabel_constructed (members : List String) (f : Option String) :
    enumLabel (constructed "enum"
      [enclosed "array" none "[" (members.map fun m => Written.string m) "]"] f) =
        unionLabel members := by
  have hargs : (constructed "enum"
      [enclosed "array" none "[" (members.map fun m => Written.string m) "]"] f).callArguments =
        [enclosed "array" none "[" (members.map fun m => Written.string m) "]"] :=
    callArguments_call (List.forall_mem_singleton.2 ⟨rfl, rfl⟩)
  have hstrings : ∀ q : Node → Bool, (∀ m, q (Written.string m) = true) →
      (members.map fun m => Written.string m).filter q = members.map fun m => Written.string m :=
    fun q hq => List.filter_eq_self.2 fun n hn => by
      obtain ⟨m, -, rfl⟩ := List.mem_map.1 hn
      exact hq m
  have hunion : enumUnion (constructed "enum"
      [enclosed "array" none "[" (members.map fun m => Written.string m) "]"] f) =
        Text.join " | " (members.map fun m => "\"" ++ Text.ofString m ++ "\"") := by
    rw [enumUnion, hargs]
    dsimp only [List.head?_cons]
    rw [if_pos (by rfl), namedChildren_enclosed, hstrings _ fun _ => rfl, hstrings _ fun _ => rfl,
      List.map_map]
    simp only [Function.comp_def, decodeString_string]
  rw [enumLabel, hunion, unionLabel]
  -- A member has its quotes, so that only a union of no members is empty.
  rcases members with _ | ⟨m, _ | ⟨m', ms⟩⟩
  · rfl
  · rfl
  · rfl

theorem itemLabel_constructed {item : BuilderType} (f : Option String)
    (h : shape {} (item.tree none) = .ok ⟨item.label, item.nested⟩) :
    itemLabel {} (constructed "array" [item.tree none] f) = .ok (grouped item.label) := by
  have hargs : (constructed "array" [item.tree none] f).callArguments = [item.tree none] := by
    refine callArguments_call (List.forall_mem_singleton.2 ⟨item.named_tree none, ?_⟩)
    rw [Tree.isKind, kind_tree]
    rfl
  have hitem : itemOf (constructed "array" [item.tree none] f) = .call (item.tree none) := by
    rw [itemOf, hargs]
    dsimp only [List.head?_cons]
    rw [Tree.isCall, Tree.isKind, Tree.isKind, kind_tree]
    rfl
  rw [itemLabel, hitem]
  dsimp only
  rw [h, ← wrapItem_eq]
  rfl

theorem property?_property (key : BuilderKey) {value : Node} (hcall : value.isCall = true)
    (hfield : value.label.field = some "value") :
    property? (property key value) = some (Text.ofString key.name, value) := by
  have hkey : (property key value).child? "key" = some key.tree := by
    cases key <;> rfl
  have hread : propertyKey? key.tree = some (Text.ofString key.name) := by
    cases key with
    | identifier name => rfl
    | quoted name =>
      rw [BuilderKey.name, ← decodeString_string name (some "key")]
      rfl
  have hvalue : (property key value).child? "value" = some value := by
    have hskip : (property key value).child? "value" =
        [value].find? (·.label.field == some "value") := by
      cases key <;> rfl
    rw [hskip, List.find?_cons_of_pos (by rw [hfield]; rfl)]
  rw [property?, if_pos (by rfl), hkey, Option.bind_some, hread, hvalue]
  exact if_pos hcall

section

variable {keys : List BuilderKey} (distinct : (keys.map BuilderKey.name).Nodup)
  (value : Fin keys.length → BuilderType)
include distinct

/-- No call extends the object, so its properties are those of the constructor. -/
theorem properties_tree (cs : List BuilderCall) (field : Option String) :
    properties {} ((object keys distinct value cs).tree field) =
      (List.finRange keys.length).map fun i =>
        (Text.ofString (keys.get i).name, (value i).tree (some "value")) := by
  obtain ⟨f, hctor, -⟩ := shape_tree_eq (object keys distinct value cs) field
  have hextend : ((object keys distinct value cs).tree field).calls.reverse.filter
      (·.calledName? == some "extend") = [] := by
    refine List.filter_eq_nil_iff.2 fun n hn => ?_
    rw [tree_eq] at hn
    rw [beq_iff_eq]
    exact calledName?_ne_extend (constructorName_plain _).2.2.2.2 n (List.mem_reverse.1 hn)
  have hargs : (constructed "object"
      (object keys distinct value cs).constructorArguments f).callArguments =
      (object keys distinct value cs).constructorArguments :=
    callArguments_call (List.forall_mem_singleton.2 ⟨rfl, rfl⟩)
  rw [properties, hctor]
  dsimp only
  rw [hextend, List.flatMap_nil, List.append_nil, argumentProperties, constructorName, hargs,
    constructorArguments]
  dsimp only [List.head?_cons]
  rw [if_pos (by rfl), namedChildren_enclosed, List.filter_eq_self.2, List.filterMap_map]
  · rw [← List.filterMap_eq_map]
    refine List.filterMap_congr fun i _ => property?_property _ ?_ ?_
    · rw [Tree.isCall, Tree.isKind, kind_tree]
      rfl
    · rw [tree_eq]
      exact field_chained
  · intro n hn
    obtain ⟨i, -, rfl⟩ := List.mem_map.1 hn
    rfl

theorem mergeFields_of_distinct :
    mergeFields ((List.finRange keys.length).map fun i => (value i).field (keys.get i).name) =
      (List.finRange keys.length).map fun i => (value i).field (keys.get i).name := by
  have hnames : (List.finRange keys.length).map (fun i => Text.ofString (keys.get i).name) =
      (keys.map BuilderKey.name).map Text.ofString := by
    conv_rhs => rw [← List.map_get_finRange keys, List.map_map, List.map_map]
    rfl
  rw [mergeFields, Table.ofList_of_nodup, Table.values, List.map_map]
  · exact List.map_id _
  · rw [List.map_map, List.map_map]
    exact hnames ▸ distinct.map Text.ofString_injective

end

/-- The shape of a type is read off its tree, from the items and the values inwards. -/
theorem shape_tree (b : BuilderType) (field : Option String) :
    shape {} (b.tree field) = .ok ⟨b.label, b.nested⟩ := by
  induction b generalizing field with
  | primitive p cs =>
    obtain ⟨f, -, hshape⟩ := shape_tree_eq (primitive p cs) field
    rw [hshape, constructorName, shapeBy_primitive, calls, wrap_methods, ite_self]
    rfl
  | enum members cs =>
    obtain ⟨f, -, hshape⟩ := shape_tree_eq (enum members cs) field
    rw [hshape, constructorName, shapeBy, constructorArguments, enumLabel_constructed, calls,
      wrap_methods, ite_self]
    rfl
  | array item cs ih =>
    obtain ⟨f, -, hshape⟩ := shape_tree_eq (array item cs) field
    rw [hshape, constructorName, shapeBy, constructorArguments, itemLabel_constructed f (ih none)]
    refine (congrArg Except.ok (wrap_methods _ cs)).trans ?_
    rw [ite_self]
    rfl
  | object keys distinct value cs ih =>
    obtain ⟨f, -, hshape⟩ := shape_tree_eq (object keys distinct value cs) field
    have hfields : objectFields {} ((object keys distinct value cs).tree field) =
        .ok ((List.finRange keys.length).map fun i => (value i).field (keys.get i).name) := by
      have hread : (List.finRange keys.length).mapM (readField {} ∘ fun i =>
          (Text.ofString (keys.get i).name, (value i).tree (some "value"))) =
          .ok ((List.finRange keys.length).map fun i => (value i).field (keys.get i).name) :=
        mapM_ok fun i _ => readField_tree _ (ih i (some "value"))
      rw [objectFields_eq, properties_tree, List.mapM_map, hread]
      exact congrArg Except.ok (mergeFields_of_distinct distinct value)
    rw [hshape, constructorName, shapeBy, hfields]
    refine (congrArg Except.ok (wrap_methods _ cs)).trans ?_
    have hempty : (List.finRange keys.length).isEmpty = keys.isEmpty := by
      rw [Bool.eq_iff_iff, List.isEmpty_iff, List.isEmpty_iff, List.finRange_eq_nil_iff,
        List.length_eq_zero_iff]
    dsimp only
    rw [List.isEmpty_map, hempty, label, nested]
    cases cs.any BuilderCall.isArray <;> cases keys.isEmpty <;> rfl

/-- The tree of a builder type is read as the field that the type stands for. -/
theorem field?_tree (b : BuilderType) (name : Text) (field : Option String) :
    field? {} name (b.tree field) = .ok (some (b.field name)) := by
  have hcall : (b.tree field).isCall = true := by
    rw [tree_eq]
    exact isCall_chained
  rw [field?_of_isCall hcall, readField_tree name (b.shape_tree field)]
  rfl

end BuilderType

end ContractInference
