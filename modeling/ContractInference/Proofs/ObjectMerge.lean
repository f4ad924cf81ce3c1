import ContractInference.Proofs.CallViews
import ContractInference.Proofs.FieldForm

/-!
# Merged properties

The fields of an object chain are read from the pairs of its constructor and then from those of the
calls of `extend`, from the inside out. A key keeps the place of its first pair and takes the field
of its last one. Reading stops at the first value that cannot be read, also if it is replaced later.
-/

namespace ContractInference

namespace Builder

/-- The field of the last entry of a key. -/
def IsLastField (b : BuilderSettings) (entries : List (Text × Node)) (key : Text) (f : Field) :
    Prop :=
  ∃ value, Table.get? entries.reverse key = some value ∧ field? b key value = .ok (some f)

/-- The ordered merge of entries: the failure of the first entry that cannot be read, and otherwise
a field for each key, in the order of the first entries of the keys, which is the field of its last
entry. -/
structure IsMerge (b : BuilderSettings) (entries : List (Text × Node))
    (result : Except Failure (List Field)) : Prop where
  error_iff : ∀ failure, result = .error failure ↔
    entries.findSome? (fun e => failure? (field? b e.1 e.2)) = some failure
  ok_iff : ∀ fs, result = .ok fs ↔
    (∀ e ∈ entries, ∃ f, field? b e.1 e.2 = .ok (some f)) ∧
      List.Forall₂ (IsLastField b entries) (entries.map Prod.fst).eraseDups fs

theorem isLastField_rightUnique (b : BuilderSettings) (entries : List (Text × Node)) :
    Relator.RightUnique (IsLastField b entries) := by
  rintro key f g ⟨value, hvalue, hf⟩ ⟨value', hvalue', hg⟩
  obtain rfl : value = value' := Option.some.inj (hvalue.symm.trans hvalue')
  exact Option.some.inj (Except.ok.inj (hf.symm.trans hg))

theorem name_readField (b : BuilderSettings) (e : Text × Node) :
    Gives (fun f => f.name = e.1) (readField b e) :=
  .bind_any fun _ => .bind_any fun _ => .ok rfl

theorem forall₂_mergeFields {b : BuilderSettings} {entries : List (Text × Node)}
    (hcalls : ∀ e ∈ entries, e.2.isCall = true) {fields : List Field}
    (h : entries.mapM (readField b) = .ok fields) :
    List.Forall₂ (IsLastField b entries) (entries.map Prod.fst).eraseDups (mergeFields fields) := by
  let named := fields.map fun f => (f.name, f)
  have hnamed : List.Forall₂ (fun e e' => e.1 = e'.1 ∧ field? b e.1 e.2 = .ok (some e'.2))
      entries named := by
    have hread := (List.forall₂_and_left _ _).2 ⟨hcalls, forall₂_of_mapM fields h⟩
    refine List.forall₂_map_right_iff.2 (hread.imp ?_)
    rintro e f ⟨hcall, hf⟩
    exact ⟨(name_readField b e f hf).symm, by rw [field?_of_isCall hcall, hf]; rfl⟩
  have hkeys : entries.map Prod.fst = named.map Prod.fst := by
    rw [← List.forall₂_eq_eq_eq, List.forall₂_map_left_iff, List.forall₂_map_right_iff]
    exact hnamed.imp fun _ _ h => h.1
  rw [hkeys]
  exact (Table.forall₂_ofList named).imp fun key f hf =>
    Table.exists_get?_of_forall₂ (R := fun key value f => field? b key value = .ok (some f))
      (List.forall₂_reverse_iff.2 hnamed) hf

/-- Reading entries from the left and keeping them in a table is their merge. -/
theorem isMerge_mapM {b : BuilderSettings} {entries : List (Text × Node)}
    (hcalls : ∀ e ∈ entries, e.2.isCall = true) :
    IsMerge b entries (mergeFields <$> entries.mapM (readField b)) := by
  have hfield : ∀ e ∈ entries, field? b e.1 e.2 = some <$> readField b e := fun e he =>
    field?_of_isCall (hcalls e he)
  have herror : ∀ failure, entries.mapM (readField b) = .error failure ↔
      entries.findSome? (fun e => failure? (field? b e.1 e.2)) = some failure := by
    intro failure
    rw [mapM_eq_error_iff, ← List.head?_filterMap, ← List.head?_filterMap]
    refine Iff.of_eq (congrArg (List.head? · = some failure) (List.filterMap_congr fun e he => ?_))
    rw [hfield e he]
    cases readField b e <;> rfl
  have hread : entries.findSome? (fun e => failure? (field? b e.1 e.2)) = none ↔
      ∀ e ∈ entries, ∃ f, field? b e.1 e.2 = .ok (some f) := by
    rw [List.findSome?_eq_none_iff]
    refine forall₂_congr fun e he => ?_
    rw [hfield e he]
    cases readField b e with
    | error failure => exact iff_of_false (by rintro ⟨⟩) (by rintro ⟨f, ⟨⟩⟩)
    | ok f => exact iff_of_true rfl ⟨f, rfl⟩
  cases h : entries.mapM (readField b) with
  | error failure =>
    have hfailed := (herror failure).1 h
    refine ⟨fun failure' => ?_, fun fs => iff_of_false (by rintro ⟨⟩) ?_⟩
    · rw [hfailed, Option.some_inj]
      exact ⟨Except.error.inj, congrArg Except.error⟩
    · rintro ⟨hall, -⟩
      rw [hread.2 hall] at hfailed
      cases hfailed
  | ok fields =>
    have hnone : entries.findSome? (fun e => failure? (field? b e.1 e.2)) = none := by
      refine Option.eq_none_iff_forall_ne_some.2 fun failure hfailed => ?_
      rw [(herror failure).2 hfailed] at h
      cases h
    have hmerge := forall₂_mergeFields hcalls h
    refine ⟨fun failure => iff_of_false (by rintro ⟨⟩) (by simp [hnone]), fun fs => ⟨?_, ?_⟩⟩
    · rintro ⟨⟩
      exact ⟨hread.1 hnone, hmerge⟩
    · rintro ⟨-, hfs⟩
      exact congrArg Except.ok ((isLastField_rightUnique b entries).forall₂ hmerge hfs)

theorem isMerge_append_append {b : BuilderSettings} {start rest : List (Text × Node)}
    {result : Except Failure (List Field)} :
    IsMerge b (start ++ (start ++ rest)) result ↔ IsMerge b (start ++ rest) result := by
  have hfailure : (start ++ (start ++ rest)).findSome? (fun e => failure? (field? b e.1 e.2)) =
      (start ++ rest).findSome? (fun e => failure? (field? b e.1 e.2)) := by
    simp only [List.findSome?_append, ← Option.or_assoc, Option.or_self]
  have hread : (∀ e ∈ start ++ (start ++ rest), ∃ f, field? b e.1 e.2 = .ok (some f)) ↔
      ∀ e ∈ start ++ rest, ∃ f, field? b e.1 e.2 = .ok (some f) := by
    simp only [List.forall_mem_append, ← and_assoc, and_self]
  have hkeys : ((start ++ (start ++ rest)).map Prod.fst).eraseDups =
      ((start ++ rest).map Prod.fst).eraseDups := by
    have hagain : (start.map Prod.fst).filter (fun key => !(start.map Prod.fst).elem key) = [] :=
      List.filter_eq_nil_iff.2 fun key hkey => by simpa using hkey
    simp only [List.map_append]
    rw [List.eraseDups_append, List.removeAll, List.filter_append, hagain, List.nil_append,
      List.eraseDups_append, List.removeAll]
  have hlast : IsLastField b (start ++ (start ++ rest)) = IsLastField b (start ++ rest) := by
    funext key f
    simp only [IsLastField, List.reverse_append, Table.get?_append, Option.or_assoc, Option.or_self]
  refine ⟨?_, ?_⟩
  · rintro ⟨herror, hok⟩
    rw [hfailure] at herror
    rw [hread, hkeys, hlast] at hok
    exact ⟨herror, hok⟩
  · rintro ⟨herror, hok⟩
    rw [← hfailure] at herror
    rw [← hread, ← hkeys, ← hlast] at hok
    exact ⟨herror, hok⟩

/-- The text of a key that is an identifier, a number or a string. -/
def keyTexts (key : Node) : List Text :=
  if key.kind ∈ ["property_identifier", "number"] then [Text.ofString key.text]
  else if key.kind = "string" then [Literal.decodeString key]
  else []

/-- The pairs of the object that is the first argument of a call, where the key has a text and the
value is a call. -/
def keptPairs (call : Node) : List (Text × Node) :=
  let objects := call.callArguments.head?.toList.filter (·.kind = "object")
  let pairs := (objects.flatMap Tree.namedChildren).filter (·.kind = "pair")
  pairs.flatMap fun pair =>
    let keys := (pair.child? "key").toList.flatMap keyTexts
    let values := (pair.child? "value").toList.filter (·.kind = "call_expression")
    keys ×ˢ values

theorem toList_propertyKey? (key : Node) : (propertyKey? key).toList = keyTexts key := by
  simp only [propertyKey?, keyTexts, Tree.isKind, beq_iff_eq, Bool.or_eq_true, List.mem_cons,
    List.not_mem_nil, or_false]
  split
  · rfl
  · split <;> rfl

theorem toList_property? {pair : Node} (h : pair.kind = "pair") : (property? pair).toList =
    (pair.child? "key").toList.flatMap keyTexts ×ˢ
      (pair.child? "value").toList.filter (·.kind = "call_expression") := by
  have hkeys : (pair.child? "key").toList.flatMap keyTexts =
      ((pair.child? "key").bind propertyKey?).toList := by
    cases pair.child? "key" with
    | none => rfl
    | some key => simp [toList_propertyKey?]
  rw [hkeys, property?, if_pos (by simp [Tree.isKind, h])]
  cases (pair.child? "key").bind propertyKey? with
  | none => rfl
  | some key =>
    cases pair.child? "value" with
    | none => rfl
    | some value =>
      by_cases hcall : value.kind = "call_expression" <;>
        simp [Tree.isCall, Tree.isKind, hcall]

theorem argumentProperties_eq : argumentProperties = keptPairs := by
  have hpairs : ∀ children : List Node, children.filterMap property? =
      (children.filter (·.kind = "pair")).flatMap fun pair =>
        (pair.child? "key").toList.flatMap keyTexts ×ˢ
          (pair.child? "value").toList.filter (·.kind = "call_expression") := by
    intro children
    induction children with
    | nil => rfl
    | cons pair children ih =>
      by_cases hpair : pair.kind = "pair"
      · rw [List.filter_cons_of_pos (by simpa using hpair), List.flatMap_cons,
          ← toList_property? hpair, ← ih, List.filterMap_cons]
        cases property? pair <;> rfl
      · have hnone : property? pair = none := if_neg (by simpa [Tree.isKind] using hpair)
        rw [List.filter_cons_of_neg (by simpa using hpair), ← ih, List.filterMap_cons_none hnone]
  funext call
  unfold argumentProperties keptPairs
  cases call.callArguments.head? with
  | none => rfl
  | some first =>
    by_cases hobject : first.kind = "object"
    · simp [Tree.isKind, hobject, hpairs]
    · simp [Tree.isKind, hobject]

/-- The pairs of an object chain: those of its constructor, then those of the calls of `extend`
among `calls`, from the inside out. Without a constructor there is no object. -/
def chainPairs (b : BuilderSettings) (n : Node) (calls : List Node) : List (Text × Node) :=
  match constructorCall? b n with
  | some ctor =>
    keptPairs ctor ++
      (calls.reverse.filter (·.calledName? == some "extend")).flatMap keptPairs
  | none => []

theorem properties_eq (b : BuilderSettings) (n : Node) :
    properties b n = chainPairs b n n.calls := by
  rw [properties, argumentProperties_eq]
  rfl

theorem isCall_of_mem_keptPairs {call : Node} {e : Text × Node} (h : e ∈ keptPairs call) :
    e.2.isCall = true := by
  obtain ⟨pair, -, he⟩ := List.mem_flatMap.1 h
  obtain ⟨key, value⟩ := e
  have hvalue := (List.mem_filter.1 (List.mem_product.1 he).2).2
  simpa [Tree.isCall, Tree.isKind] using hvalue

theorem isCall_of_mem_chainPairs {b : BuilderSettings} {n : Node} {calls : List Node}
    {e : Text × Node} (h : e ∈ chainPairs b n calls) : e.2.isCall = true := by
  unfold chainPairs at h
  split at h
  · rcases List.mem_append.1 h with h | h
    · exact isCall_of_mem_keptPairs h
    · obtain ⟨call, -, h⟩ := List.mem_flatMap.1 h
      exact isCall_of_mem_keptPairs h
  · cases h

/-- The call of the constructor is the innermost one, so with the name `extend` its pairs come once
more right after they came. -/
theorem isMerge_chainPairs_dropLast {b : BuilderSettings} {n : Node}
    {result : Except Failure (List Field)} (h : IsMerge b (chainPairs b n n.calls) result) :
    IsMerge b (chainPairs b n n.calls.dropLast) result := by
  unfold chainPairs at h ⊢
  cases hctor : constructorCall? b n with
  | none => rwa [hctor] at h
  | some ctor =>
    rw [hctor] at h
    rw [constructorCall?_eq] at hctor
    have hcalls : n.calls.dropLast ++ [ctor] = n.calls :=
      List.dropLast_append_getLast? ctor (Option.filter_eq_some_iff.1 hctor).1
    dsimp only at h ⊢
    rw [← hcalls, List.reverse_concat, List.filter_cons] at h
    split at h
    · rw [List.flatMap_cons] at h
      exact isMerge_append_append.1 h
    · exact h

/-- The fields of an object chain are the merge of its pairs. It makes no difference whether the
call of the constructor is taken for a call of `extend` too if it has that name. -/
theorem objectFields_isMerge (b : BuilderSettings) (n : Node) :
    IsMerge b (chainPairs b n n.calls) (objectFields b n) ∧
      IsMerge b (chainPairs b n n.calls.dropLast) (objectFields b n) := by
  have hmerge : IsMerge b (chainPairs b n n.calls) (objectFields b n) := by
    rw [objectFields_eq, properties_eq, bind_pure_comp]
    exact isMerge_mapM fun e he => isCall_of_mem_chainPairs he
  exact ⟨hmerge, isMerge_chainPairs_dropLast hmerge⟩

/-- A constructor with the name `extend`, and a key that is written in two ways. -/
def overlapping : Node :=
  firstCall "z.extend(\x7ba: z.any(), 1: z.any()\x7d).extend(\x7bb: z.any(), 'a': z.null()\x7d)"

example : (objectFields {} overlapping).toOption.map
    (·.map fun f => (f.name.toString, f.label.toString)) =
      some [("a", "null"), ("1", "any"), ("b", "any")] := by
  decide +kernel

end Builder

end ContractInference
