import ContractInference.Proofs.FieldForm
import ContractInference.Proofs.StringRule
import ContractInference.Proofs.TopLevel

/-!
# Texts of string defaults

The default of a field is the argument of the outermost call of `default`, written in JSON. What is
written for a string is a literal of the same string, so different strings have different texts.
-/

namespace ContractInference

/-- As a literal between double quotes, `t` is read as `s`: it can be cut into pieces, all its cuts
are read so, and so is the node that the rule for strings gives wherever `t` stands in a source. -/
structure IsLiteralOf (t s : Text) : Prop where
  splits : ∃ pieces, IsSplit t pieces
  reading : ∀ pieces, IsSplit t pieces → Text.concat (pieces.map Piece.reading) = s
  rule : ∀ (context : Grammar.Context) (i : Nat) (after : Text),
    Text.ofChars (context.source.toList.drop i) = t ++ after →
      ∃ d, Grammar.string context i = some (d, i + t.points.length) ∧
        Text.ofString (Grammar.weave context.source d).text = t ∧
        Literal.decodeString (Grammar.weave context.source d) = s

theorem Json.isLiteralOf_write (s : Text) : IsLiteralOf (write s) s := by
  obtain ⟨pieces, hcut, hshared⟩ := IsCut.exists_of_points s.points
  have hsplit : IsSplit (write s) pieces := ⟨_, rfl, hcut⟩
  refine ⟨⟨pieces, hsplit⟩, fun pieces h => h.reading_eq, fun context i after hsource => ?_⟩
  obtain ⟨written, rest, hdrop, hwritten, -⟩ :=
    List.map_eq_append_iff.1 (congrArg Text.points hsource)
  have htext : Text.ofChars written = write s := congrArg Text.mk hwritten
  obtain ⟨d, hd, hdtext, hstring⟩ := Grammar.string_of_isSplit hdrop (htext ▸ hsplit) hshared
  refine ⟨d, ?_, ?_, ?_⟩
  · rw [hd, ← htext, Text.ofChars, List.length_map]
  · rw [hdtext, Text.ofString, String.toList_ofList, htext]
  · rw [hstring.decodeString_eq, hsplit.reading_eq]

theorem Json.write_injective : Function.Injective write := by
  intro s t h
  obtain ⟨pieces, hpieces⟩ := (isLiteralOf_write s).splits
  rw [← (isLiteralOf_write s).reading pieces hpieces,
    (isLiteralOf_write t).reading pieces (h ▸ hpieces)]

theorem Literal.jsonOfNode?_of_text {n : Node} {s : Text} (h : ofNode? n = some (.text s)) :
    jsonOfNode? n = .ok (some (Json.write s)) := by
  rw [jsonOfNode?, h]
  rfl

namespace Builder

/-- The first argument of a call of `default`, unless the settings make that a constraint. -/
def callDefault? (b : BuilderSettings) (call : Node) : Option Node :=
  if call.calledName? = some "default" ∧ "default" ∉ b.constraintMethods then
    call.callArguments.head?
  else none

/-- The argument of the outermost call of `default` that has one. -/
def defaultArgument? (b : BuilderSettings) (n : Node) : Option Node :=
  n.calls.findSome? (callDefault? b)

/-- The text that a call gives as the default. -/
def defaultText? (b : BuilderSettings) (call : Node) : Option Text :=
  (callDefault? b call).bind fun argument => (Literal.jsonOfNode? argument).toOption.join

theorem default?_addCall (b : BuilderSettings) (v : Validations) (call : Node) :
    Gives (fun v' => v'.default? = v.default?.or (defaultText? b call)) (addCall b v call) := by
  -- Calls that give no default leave it alone.
  have hkept : callDefault? b call = none → ∀ v' : Validations, v'.default? = v.default? →
      v'.default? = v.default?.or (defaultText? b call) := by
    intro hnone v' hv'
    rw [defaultText?, hnone, Option.bind_none, Option.or_none, hv']
  unfold addCall
  split
  · rename_i hname
    exact .ok (hkept (by simp [callDefault?, hname]) v rfl)
  · rename_i method hname
    split
    · rename_i hconstraint
      have hnone : callDefault? b call = none := by
        rw [callDefault?, if_neg]
        rintro ⟨hdefault, hmem⟩
        obtain rfl : method = "default" := Option.some.inj (hname.symm.trans hdefault)
        exact hmem (by simpa using hconstraint)
      split
      · exact .ok (hkept hnone _ (v.default?_add _))
      · refine .bind_any fun entry => ?_
        cases entry with
        | none => exact .ok (hkept hnone v rfl)
        | some entry => exact .ok (hkept hnone _ (v.default?_add entry))
    · rename_i hconstraint
      split
      · rename_i hdefault
        obtain rfl : method = "default" := by simpa using hdefault
        have hargument : callDefault? b call = call.callArguments.head? :=
          if_pos ⟨hname, by simpa using hconstraint⟩
        split
        · rename_i hnil
          exact .ok (hkept (by rw [hargument, hnil, List.head?_nil]) v rfl)
        · rename_i first rest hcons
          rw [hcons, List.head?_cons] at hargument
          simp only [defaultText?, hargument, Option.bind_some]
          rcases Literal.jsonOfNode? first with failure | _ | literal
          · rintro _ ⟨⟩
          · exact .ok (Option.or_none).symm
          · exact .ok rfl
      · rename_i hdefault
        refine .ok (hkept ?_ v rfl)
        rw [callDefault?, if_neg]
        rintro ⟨hname', -⟩
        exact hdefault (by simpa using Option.some.inj (hname.symm.trans hname'))

theorem default?_validations (b : BuilderSettings) (n : Node) :
    Gives (fun v => v.default? = n.calls.findSome? (defaultText? b)) (validations b n) := by
  have hrun : ∀ (calls : List Node) (v : Validations),
      Gives (fun v' => v'.default? = v.default?.or (calls.findSome? (defaultText? b)))
        (calls.foldlM (addCall b) v) := by
    intro calls
    induction calls with
    | nil => exact fun v => .ok Option.or_none.symm
    | cons call calls ih =>
      intro v
      rw [List.foldlM_cons]
      refine (default?_addCall b v call).bind fun v' hv' v'' hv'' => ?_
      have hrest := ih v' v'' hv''
      rw [hrest, hv', Option.or_assoc, List.findSome?_cons]
      cases defaultText? b call <;> rfl
  simpa [validations] using hrun n.calls {}

theorem default?_of_text {b : BuilderSettings} {name : Text} {n : Node} {f : Field} {s : Text}
    (hf : field? b name n = .ok (some f))
    (hs : (defaultArgument? b n).bind Literal.ofNode? = some (.text s)) :
    f.default? = some (Json.write s) := by
  obtain ⟨argument, hargument, htext⟩ := Option.bind_eq_some_iff.1 hs
  obtain ⟨outer, call, inner, hcalls, hcall, houter⟩ := List.findSome?_eq_some_iff.1 hargument
  have hfirst : n.calls.findSome? (defaultText? b) = some (Json.write s) := by
    refine List.findSome?_eq_some_iff.2 ⟨outer, call, inner, hcalls, ?_, fun c hc => ?_⟩
    · rw [defaultText?, hcall, Option.bind_some, Literal.jsonOfNode?_of_text htext]
      rfl
    · rw [defaultText?, houter c hc, Option.bind_none]
  have hdefault : Gives (fun f? => ∀ f : Field, f? = some f →
      f.default? = n.calls.findSome? (defaultText? b)) (field? b name n) := by
    unfold field?
    split
    · refine (default?_validations b n).bind fun v hv => .bind_any fun s => .ok ?_
      rintro _ ⟨⟩
      exact hv
    · exact .ok (by simp)
  rw [hdefault _ hf f rfl, hfirst]

/-- A text that is written for a string is a literal of that string. It is the text of a default
that is given as the string, so fields have the same text exactly if their strings are the same. -/
theorem default_reads_back (s : Text) :
    IsLiteralOf (Json.write s) s ∧
      (∀ n, Literal.ofNode? n = some (.text s) →
        Literal.jsonOfNode? n = .ok (some (Json.write s))) ∧
      ∀ b name n f, field? b name n = .ok (some f) →
        (defaultArgument? b n).bind Literal.ofNode? = some (.text s) →
          f.default? = some (Json.write s) ∧
          ∀ b' name' m g t, field? b' name' m = .ok (some g) →
            (defaultArgument? b' m).bind Literal.ofNode? = some (.text t) →
              (f.default? = g.default? ↔ s = t) := by
  refine ⟨Json.isLiteralOf_write s, fun n hn => Literal.jsonOfNode?_of_text hn, ?_⟩
  intro b name n f hf hs
  refine ⟨default?_of_text hf hs, fun b' name' m g t hg ht => ?_⟩
  rw [default?_of_text hf hs, default?_of_text hg ht, Option.some_inj]
  exact Json.write_injective.eq_iff

/-- A text with quotes, a backslash and a control character. -/
def quotation : Text := "\"\\\x07é\""

/-- A field with that text as its default, between a call of `default` with another text and one
without an argument. -/
def quotationField : Node :=
  firstCall "z.string().default('x').default('\"\\\\\\u0007é\"').min(1).default()"

/-- A field with another text as its default. -/
def letterField : Node := firstCall "z.string().default(\"x\")"

/-- A place where the text is written as an argument. -/
def quotationContext : Grammar.Context where
  source := "f(\"\\\"\\\\\\u0007é\\\"\")".toList.toArray
  dialect := Language.typescript.dialect
  lineEnds := true
  resultTypes := true

theorem default_reads_back_quotation :
    (∃ f g, field? {} "f" quotationField = .ok (some f) ∧
      f.default? = some (Text.ofString "\"\\\"\\\\\\u0007é\\\"\"") ∧
      field? {} "g" letterField = .ok (some g) ∧ f.default? ≠ g.default?) ∧
    Text.ofChars (quotationContext.source.toList.drop 2) = Json.write quotation ++ ")" ∧
    ∃ d, Grammar.string quotationContext 2 = some (d, 17) ∧
      Literal.decodeString (Grammar.weave quotationContext.source d) = quotation := by
  obtain ⟨hf, hs, hg, ht⟩ :
      (field? {} "f" quotationField).toOption.bind (·.map Field.default?) =
        some (some (Json.write quotation)) ∧
      (defaultArgument? {} quotationField).bind Literal.ofNode? = some (.text quotation) ∧
      (field? {} "g" letterField).toOption.bind (·.map Field.default?) =
        some (some (Json.write "x")) ∧
      (defaultArgument? {} letterField).bind Literal.ofNode? = some (.text "x") := by
    decide +kernel
  obtain ⟨f, hf, -⟩ := exists_of_found hf
  obtain ⟨g, hg, -⟩ := exists_of_found hg
  have hsource : Text.ofChars (quotationContext.source.toList.drop 2) =
      Json.write quotation ++ ")" := by decide +kernel
  obtain ⟨hliteral, -, hfields⟩ := default_reads_back quotation
  obtain ⟨hdefault, hiff⟩ := hfields {} "f" quotationField f hf hs
  obtain ⟨d, hd, -, hdecode⟩ := hliteral.rule quotationContext 2 ")" hsource
  refine ⟨⟨f, g, hf, hdefault.trans ?_, hg, ?_⟩, hsource, d, hd.trans ?_, hdecode⟩
  · decide +kernel
  · rw [Ne, hiff {} "g" letterField g "x" hg ht]
    decide +kernel
  · have hlength : (Json.write quotation).points.length = 15 := by decide +kernel
    rw [hlength]

end Builder

end ContractInference
