import ContractInference.Proofs.Comments

/-!
# Two views of a call chain

A chain can be seen as its root with the names that follow it, or as its calls from the outside in.
The first view goes through members that are not called, the second stops at them. Each call that
is left on the way inwards takes its own name from the end of the chain, so that the two views
differ only in what comes before the innermost call.
-/

namespace ContractInference

namespace Tree

theorem isMember_of_isCall {n : Node} (h : n.isCall = true) : n.isMember = false := by
  have hkind : n.kind = "call_expression" := by simpa [isCall, isKind] using h
  simp [isMember, isKind, hkind]

theorem isIdentifier_of_isCall {n : Node} (h : n.isCall = true) :
    n.isKind "identifier" = false := by
  have hkind : n.kind = "call_expression" := by simpa [isCall, isKind] using h
  simp [isKind, hkind]

theorem callee_of_innerCall? {n c : Node} (h : n.innerCall? = some c) :
    c.isCall = true ∧ ∃ f, n.child? "function" = some f ∧
      (f.isMember = true ∧ f.child? "object" = some c ∨ f.isMember = false ∧ f = c) := by
  unfold innerCall? callTarget? at h
  cases hf : n.child? "function" with
  | none => simp [hf] at h
  | some f =>
    rw [hf] at h
    cases hmember : f.isMember with
    | true =>
      cases ho : f.child? "object" with
      | none => simp [hmember, ho] at h
      | some o =>
        obtain ⟨hcall, rfl⟩ : o.isCall = true ∧ o = c := by simpa [hmember, ho] using h
        exact ⟨hcall, f, rfl, .inl ⟨hmember, ho⟩⟩
    | false =>
      cases hcall : f.isCall with
      | true =>
        obtain rfl : f = c := by simpa [hmember, hcall] using h
        exact ⟨hcall, f, rfl, .inr ⟨hmember, rfl⟩⟩
      | false => simp [hmember, hcall] at h

/-- What was collected before a callee is followed stays behind what is found in it. -/
theorem followCallee_eq_append (n : Node) (methods : List String) :
    n.followCallee methods =
      ⟨(n.followCallee []).root, (n.followCallee []).methods ++ methods⟩ := by
  induction hn : n.size using Nat.strongRecOn generalizing n methods with
  | ind size ih =>
    subst hn
    rw [followCallee_eq, followCallee_eq n []]
    split
    · cases ho : n.child? "object" with
      | none => simp
      | some o =>
        have hlt := size_child?_lt ho
        dsimp only
        rw [ih _ hlt o _ rfl, ih _ hlt o (n.memberName?.toList ++ []) rfl]
        simp
    · split
      · cases hf : n.child? "function" with
        | none => simp
        | some f => exact ih _ (size_child?_lt hf) f methods rfl
      · split <;> simp

theorem followCallee_of_isCall {n : Node} (h : n.isCall = true) (methods : List String) :
    n.followCallee methods = ⟨n.chain.root, n.chain.methods ++ methods⟩ := by
  rw [followCallee_eq, if_neg (by simp [isMember_of_isCall h]), if_pos h, chain, if_pos h]
  cases n.child? "function" with
  | none => simp
  | some f => exact followCallee_eq_append f methods

section

variable {n f : Node} (hf : n.child? "function" = some f)
include hf

theorem chain_of_callee (hn : n.isCall = true) : n.chain = f.followCallee [] := by
  rw [chain, if_pos hn, hf]

theorem calledName?_of_isMember (h : f.isMember = true) : n.calledName? = f.memberName? := by
  simp [calledName?, hf, h]

theorem calledName?_of_not_isMember (h : f.isMember = false) : n.calledName? = none := by
  simp [calledName?, hf, h]

end

theorem chain_of_innerCall? {n c : Node} (hn : n.isCall = true) (h : n.innerCall? = some c) :
    n.chain = ⟨c.chain.root, c.chain.methods ++ n.calledName?.toList⟩ := by
  obtain ⟨hc, f, hf, ⟨hmember, ho⟩ | ⟨hmember, rfl⟩⟩ := callee_of_innerCall? h
  · rw [chain_of_callee hf hn, calledName?_of_isMember hf hmember, followCallee_eq, if_pos hmember,
      ho]
    dsimp only
    rw [followCallee_of_isCall hc, List.append_nil]
  · rw [chain_of_callee hf hn, calledName?_of_not_isMember hf hmember, followCallee_of_isCall hc]
    rfl

theorem calledName?_suffix {n : Node} (hn : n.isCall = true) :
    n.calledName?.toList <:+ n.chain.methods := by
  cases hf : n.child? "function" with
  | none => simp [calledName?, hf]
  | some f =>
    cases hmember : f.isMember with
    | false => simp [calledName?_of_not_isMember hf hmember]
    | true =>
      rw [chain_of_callee hf hn, calledName?_of_isMember hf hmember, followCallee_eq,
        if_pos hmember]
      cases f.child? "object" with
      | none => simp
      | some o =>
        dsimp only
        rw [followCallee_eq_append, List.append_nil]
        exact List.suffix_append _ _

theorem calls_of_innerCall? {n c : Node} (hn : n.isCall = true) (h : n.innerCall? = some c) :
    n.calls = n :: c.calls := by
  rw [calls_eq, if_pos hn, h]
  rfl

theorem calls_ne_nil {n : Node} (hn : n.isCall = true) : n.calls ≠ [] := by
  rw [calls_eq, if_pos hn]
  simp

theorem isCall_of_mem_calls {n c : Node} (h : c ∈ n.calls) : c.isCall = true := by
  fun_induction calls n with
  | case1 n hn m hm ih =>
    rcases List.mem_cons.1 h with rfl | h
    · exact hn
    · exact ih h
  | case2 n hn hm =>
    rw [List.mem_singleton.1 h]
    exact hn
  | case3 n hn => cases h

theorem calledNames_suffix (n : Node) :
    (n.calls.filterMap calledName?).reverse <:+ n.chain.methods := by
  fun_induction calls n with
  | case1 n hn m hm ih =>
    obtain ⟨before, hbefore⟩ := ih
    refine ⟨before, ?_⟩
    rw [chain_of_innerCall? hn hm, ← hbefore, List.append_assoc]
    cases h : n.calledName? <;> simp [h]
  | case2 n hn hm =>
    have hsuffix := calledName?_suffix hn
    cases h : n.calledName? <;> simp_all
  | case3 n hn => simp

/-- The chain of the innermost call, and after it the names of the others from the inside out. -/
theorem chain_of_getLast?_calls {n c : Node} (h : n.calls.getLast? = some c) :
    n.chain =
      ⟨c.chain.root, c.chain.methods ++ n.calls.dropLast.reverse.filterMap calledName?⟩ := by
  fun_induction calls n with
  | case1 n hn m hm ih =>
    have hne : m.calls ≠ [] := calls_ne_nil (callee_of_innerCall? hm).1
    rw [List.getLast?_cons_of_ne_nil hne] at h
    rw [chain_of_innerCall? hn hm, ih h, List.dropLast_cons_of_ne_nil hne, List.reverse_cons,
      List.filterMap_append, List.append_assoc]
    cases hname : n.calledName? <;> simp [hname]
  | case2 n hn hm =>
    obtain rfl : n = c := by simpa using h
    simp
  | case3 n hn => cases h

end Tree

namespace Builder

open ContractInference.Tree

theorem startsAt_of_innerCall? (root : String) {n c : Node} (h : n.innerCall? = some c) :
    startsAt root n = false := by
  obtain ⟨hc, f, hf, ⟨hmember, ho⟩ | ⟨hmember, rfl⟩⟩ := callee_of_innerCall? h
  · have hbase : memberBase f = some c := by
      rw [memberBase_eq, if_pos hmember, ho, Option.bind_some, memberBase_eq,
        if_neg (by simp [isMember_of_isCall hc])]
    simp [startsAt, hf, hbase, isIdentifier_of_isCall hc]
  · simp [startsAt, hf, hmember]

/-- Only the innermost call can be the call of the constructor. -/
theorem constructorCall?_eq (b : BuilderSettings) (n : Node) :
    constructorCall? b n = n.calls.getLast?.filter (startsAt b.rootName) := by
  unfold constructorCall?
  fun_induction calls n with
  | case1 n hn m hm ih =>
    have hne : m.calls ≠ [] := calls_ne_nil (callee_of_innerCall? hm).1
    rw [List.reverse_cons, List.find?_append, ih, List.getLast?_cons_of_ne_nil hne,
      List.find?_cons_of_neg (by simp [startsAt_of_innerCall? _ hm])]
    simp
  | case2 n hn hm => cases h : startsAt b.rootName n <;> simp [h, Option.filter_some]
  | case3 n hn => rfl

theorem root_followCallee_of_memberBase {n o : Node} (h : memberBase n = some o)
    (ho : o.isKind "identifier" = true) (methods : List String) :
    (n.followCallee methods).root = some o.text := by
  induction hn : n.size using Nat.strongRecOn generalizing n methods with
  | ind size ih =>
    subst hn
    rw [memberBase_eq] at h
    rw [followCallee_eq]
    cases hmember : n.isMember with
    | true =>
      rw [hmember, if_pos rfl] at h
      obtain ⟨object, hobject, hbase⟩ := Option.bind_eq_some_iff.1 h
      rw [if_pos rfl, hobject]
      exact ih _ (size_child?_lt hobject) hbase _ rfl
    | false =>
      obtain rfl : n = o := by simpa [hmember] using h
      have hcall : n.isCall = false := by
        by_contra hcall
        rw [isIdentifier_of_isCall (by simpa using hcall)] at ho
        cases ho
      rw [if_neg Bool.false_ne_true, hcall, if_neg Bool.false_ne_true, if_pos ho]

theorem root_chain_of_startsAt {root : String} {n : Node} (hn : n.isCall = true)
    (h : startsAt root n = true) : n.chain.root = some root := by
  unfold startsAt at h
  cases hf : n.child? "function" with
  | none => simp [hf] at h
  | some f =>
    rw [hf] at h
    obtain ⟨-, hbase⟩ := Bool.and_eq_true_iff.1 h
    cases ho : memberBase f with
    | none => simp [ho] at hbase
    | some o =>
      obtain ⟨hkind, rfl⟩ : o.isKind "identifier" = true ∧ o.text = root := by
        simpa [ho] using hbase
      rw [chain_of_callee hf hn, root_followCallee_of_memberBase ho hkind]

/-- The calls of a chain, from the outside in, invoke the names of the chain from its end; the call
of the constructor is the innermost one, starts at the builder's name, and only the names of the
other calls follow its chain. -/
theorem calls_agree_with_chain (b : BuilderSettings) {n : Node} (hn : n.isCall = true) :
    n.calls.head? = some n ∧
      n.calls.filterMap calledName? <+: n.chain.methods.reverse ∧
      ∀ c, constructorCall? b n = some c →
        n.calls.getLast? = some c ∧ n.chain.root = some b.rootName ∧
          n.chain.methods =
            c.chain.methods ++ n.calls.dropLast.reverse.filterMap calledName? := by
  refine ⟨?_, ?_, fun c hc => ?_⟩
  · rw [calls_eq, if_pos hn]
    rfl
  · rw [← List.reverse_suffix, List.reverse_reverse]
    exact calledNames_suffix n
  · rw [constructorCall?_eq] at hc
    obtain ⟨hlast, hstarts⟩ := Option.filter_eq_some_iff.1 hc
    have hchain := chain_of_getLast?_calls hlast
    have hroot := root_chain_of_startsAt (isCall_of_mem_calls (List.mem_of_getLast? hlast)) hstarts
    exact ⟨hlast, by rw [hchain, hroot], by rw [hchain]⟩

def firstCall (text : String) : Node :=
  ((Grammar.parse Language.typescript.dialect text).nodes.find? Tree.isCall).getD default

/-- A chain with a member that is not called, an optional one, one with a private name, a result
that is called, and a template in place of arguments. -/
def winding : Node := firstCall "z.coerce.object(\x7b\x7d)?.strict().#p()().min`3`"

theorem calls_agree_with_chain_winding :
    winding.isCall = true ∧
      winding.calls.map calledName? = [some "min", none, none, some "strict", some "object"] ∧
      winding.chain = ⟨some "z", ["coerce", "object", "strict", "min"]⟩ ∧
      winding.calls.filterMap calledName? <+: winding.chain.methods.reverse ∧
      ∃ c, constructorCall? {} winding = some c ∧ winding.calls.getLast? = some c ∧
        c.chain.methods = ["coerce", "object"] ∧
        winding.chain.methods =
          c.chain.methods ++ winding.calls.dropLast.reverse.filterMap calledName? := by
  obtain ⟨hcall, hnames, hchain, hctor⟩ : winding.isCall = true ∧
      winding.calls.map calledName? = [some "min", none, none, some "strict", some "object"] ∧
      winding.chain = ⟨some "z", ["coerce", "object", "strict", "min"]⟩ ∧
      (constructorCall? {} winding).map (·.chain.methods) = some ["coerce", "object"] := by
    decide +kernel
  obtain ⟨-, hprefix, hagree⟩ := calls_agree_with_chain {} hcall
  obtain ⟨c, hc, hmethods⟩ := Option.map_eq_some_iff.1 hctor
  obtain ⟨hlast, -, happend⟩ := hagree c hc
  exact ⟨hcall, hnames, hchain, hprefix, c, hc, hlast, hmethods, happend⟩

end Builder

end ContractInference
