import ContractInference.Chain
import ContractInference.Proofs.Numeral

/-!
# Trees of written expressions

The trees of strings, integers and calls of methods as they are written in a source text, and what
is read from them: a string or an integer is the one that was written, and a call has the name, the
target and the arguments that were given.
-/

namespace ContractInference

namespace Text

theorem concat_append (ts us : List Text) : concat (ts ++ us) = concat ts ++ concat us :=
  congrArg mk List.flatMap_append

theorem concat_cons (t : Text) (ts : List Text) : concat (t :: ts) = t ++ concat ts :=
  congrArg mk List.flatMap_cons

theorem ofChars_append (cs ds : List Char) : ofChars (cs ++ ds) = ofChars cs ++ ofChars ds :=
  congrArg mk List.map_append

end Text

namespace Written

def token (text : String) (field : Option String := none) : Node :=
  .node { kind := text, text, field, named := false } []

def leaf (kind text : String) (field : Option String := none) : Node :=
  .node { kind, text, field } []

def branch (kind : String) (field : Option String) (children : List Node) : Node :=
  .node { kind, text := String.join (children.map Tree.text), field } children

/-- Items between brackets, with commas between them. -/
def enclosed (kind : String) (field : Option String) (opening : String) (items : List Node)
    (closing : String) : Node :=
  branch kind field (token opening :: items.intersperse (token ",") ++ [token closing])

/-- What follows the backslash where a character cannot stand for itself between quotes. -/
def escape? : Char → Option Char
  | '"' => some '"'
  | '\\' => some '\\'
  | '\n' => some 'n'
  | '\r' => some 'r'
  | _ => none

def fragment (run : List Char) : List Node :=
  if run.isEmpty then [] else [leaf "string_fragment" (String.ofList run)]

/-- The pieces of a quoted string, after a run of characters of which the last comes first. -/
def pieces (run : List Char) : List Char → List Node
  | [] => fragment run.reverse
  | c :: cs =>
    match escape? c with
    | some e =>
      fragment run.reverse ++ leaf "escape_sequence" (String.ofList ['\\', e]) :: pieces [] cs
    | none => pieces (c :: run) cs

def string (s : String) (field : Option String := none) : Node :=
  branch "string" field (token "\"" :: pieces [] s.toList ++ [token "\""])

/-- An integer, with a minus in front of the digits if it is negative. -/
def integer (n : Int) : Node :=
  if n < 0 then
    branch "unary_expression" none
      [token "-" (some "operator"), leaf "number" (toString n.natAbs) (some "argument")]
  else leaf "number" (toString n.natAbs)

def member (target : Node) (method : String) : Node :=
  branch "member_expression" (some "function")
    [target, token ".", leaf "property_identifier" method (some "property")]

def call (field : Option String) (target : Node) (method : String) (arguments : List Node) : Node :=
  branch "call_expression" field
    [member target method, enclosed "arguments" (some "arguments") "(" arguments ")"]

/-- A node that counts as an argument. -/
def IsArgument (n : Node) : Prop := n.label.named = true ∧ n.isKind "comment" = false

def constructed (name : String) (arguments : List Node) (field : Option String) : Node :=
  call field (leaf "identifier" "z" (some "object")) name arguments

theorem filter_intersperse {α : Type} {p : α → Bool} {sep : α} (hsep : p sep = false)
    (items : List α) : (items.intersperse sep).filter p = items.filter p := by
  induction items with
  | nil => rfl
  | cons a items ih =>
    cases items with
    | nil => rfl
    | cons b items => simp [List.intersperse, List.filter_cons, hsep, ← ih]

@[simp] theorem namedChildren_enclosed (kind : String) (field : Option String) (opening : String)
    (items : List Node) (closing : String) :
    (enclosed kind field opening items closing).namedChildren = items.filter (·.label.named) := by
  simp [enclosed, branch, Tree.namedChildren, Tree.children, filter_intersperse, token, Tree.label]

theorem decodeEscape_escape? {c e : Char} (h : escape? c = some e) :
    Literal.decodeEscape (String.ofList ['\\', e]) = Text.ofChars [c] := by
  unfold escape? at h
  split at h <;> cases h <;> decide

theorem namedChildren_pieces (run cs : List Char) :
    (pieces run cs).filter (·.label.named) = pieces run cs := by
  have hfragment : ∀ run, (fragment run).filter (·.label.named) = fragment run := by
    intro run
    unfold fragment
    split <;> rfl
  induction cs generalizing run with
  | nil => exact hfragment _
  | cons c cs ih =>
    rw [pieces]
    split
    · rw [List.filter_append, hfragment, List.filter_cons, ih]
      rfl
    · exact ih _

theorem concat_fragment (run : List Char) :
    Text.concat ((fragment run).map Literal.decodePiece) = Text.ofChars run := by
  unfold fragment
  split
  · rename_i hrun
    rw [List.isEmpty_iff.1 hrun]
    rfl
  · simp [Text.concat, Literal.decodePiece, leaf, Tree.isKind, Tree.kind, Tree.text, Tree.label,
      Text.ofString]

theorem concat_pieces (run cs : List Char) :
    Text.concat ((pieces run cs).map Literal.decodePiece) = Text.ofChars (run.reverse ++ cs) := by
  induction cs generalizing run with
  | nil => rw [pieces, concat_fragment, List.append_nil]
  | cons c cs ih =>
    rw [pieces]
    split
    · rename_i e he
      have hpiece : Literal.decodePiece (leaf "escape_sequence" (String.ofList ['\\', e])) =
          Text.ofChars [c] := decodeEscape_escape? he
      rw [List.map_append, Text.concat_append, concat_fragment, List.map_cons, Text.concat_cons,
        hpiece, ih, List.reverse_nil, List.nil_append, ← Text.ofChars_append, ← Text.ofChars_append]
      rfl
    · rw [ih, List.reverse_cons, List.append_assoc, List.singleton_append]

@[simp] theorem decodeString_string (s : String) (field : Option String) :
    Literal.decodeString (string s field) = Text.ofString s := by
  have hnamed : (string s field).namedChildren = pieces [] s.toList := by
    simp only [string, branch, Tree.namedChildren, Tree.children, List.cons_append,
      List.filter_cons, List.filter_append, namedChildren_pieces]
    simp [token, Tree.label]
  rw [Literal.decodeString, hnamed, concat_pieces]
  rfl

theorem ofNode?_string (s : String) : Literal.ofNode? (string s) = some (.text s) := by
  rw [← decodeString_string s none]
  rfl

theorem ofNode?_integer {n : Int} (h : n.natAbs < 2 ^ 53) :
    Literal.ofNode? (integer n) = some (.int n) := by
  have hnumeral := Literal.ofNumeral?_toString h
  unfold integer
  split
  · have hneg : -(n.natAbs : Int) = n := by omega
    have hread : (Literal.ofNumeral? (toString n.natAbs)).bind Literal.negate? = some (.int n) := by
      rw [hnumeral, Option.bind_some, Literal.negate?, hneg]
    exact hread
  · have hpos : (n.natAbs : Int) = n := by omega
    have hread : Literal.ofNumeral? (toString n.natAbs) = some (.int n) := by
      rw [hnumeral, hpos]
    exact hread

theorem integerText_of_lt {n : Int} (h : n.natAbs < 2 ^ 53) :
    Literal.integerText n = .ok (Text.ofString (toString n)) := by
  have hbound : ∀ m, 16 ≤ m → 2 ^ 53 ≤ Nat.pow 10 m := fun m hm =>
    calc 2 ^ 53 ≤ 10 ^ 16 := by decide
      _ ≤ 10 ^ m := Nat.pow_le_pow_right (by decide) hm
  exact if_pos (Nat.lt_of_lt_of_le h (hbound maxIntegerDigits (by decide)))

section

variable {field : Option String} {target : Node} {method : String} {arguments : List Node}

@[simp] theorem isCall_call : (call field target method arguments).isCall = true := rfl

theorem isMember_call : (call field target method arguments).isMember = false := rfl

theorem isMember_member : (member target method).isMember = true := rfl

theorem child?_function_call :
    (call field target method arguments).child? "function" = some (member target method) := rfl

theorem callArguments_call (h : ∀ n ∈ arguments, IsArgument n) :
    (call field target method arguments).callArguments = arguments := by
  have hchild : (call field target method arguments).child? "arguments" =
      some (enclosed "arguments" (some "arguments") "(" arguments ")") := rfl
  rw [Tree.callArguments, hchild]
  dsimp only
  rw [namedChildren_enclosed, List.filter_eq_self.2 fun n hn => (h n hn).1,
    List.filter_eq_self.2 fun n hn => by rw [(h n hn).2]; rfl]

section

variable (htarget : target.label.field = some "object")
include htarget

theorem child?_object_member : (member target method).child? "object" = some target := by
  simp [member, branch, Tree.child?, Tree.children, htarget]

theorem memberName?_member : (member target method).memberName? = some method := by
  have hchild : (member target method).child? "property" =
      some (leaf "property_identifier" method (some "property")) := by
    have hne : ¬(target.label.field == some "property") = true := by
      rw [htarget]
      decide
    exact List.find?_cons_of_neg hne
  rw [Tree.memberName?, hchild]
  rfl

theorem calledName?_call : (call field target method arguments).calledName? = some method := by
  rw [Tree.calledName?, child?_function_call]
  exact memberName?_member htarget

theorem callTarget?_call : (call field target method arguments).callTarget? = some target := by
  rw [Tree.callTarget?, child?_function_call]
  exact child?_object_member htarget

theorem calls_call (hcall : target.isCall = true) :
    (call field target method arguments).calls =
      call field target method arguments :: target.calls := by
  have hinner : (call field target method arguments).innerCall? = some target := by
    rw [Tree.innerCall?, callTarget?_call htarget]
    exact if_pos hcall
  rw [Tree.calls, if_pos isCall_call]
  split
  · rename_i c hc
    rw [hinner] at hc
    cases hc
    rfl
  · rename_i hc
    rw [hinner] at hc
    cases hc

theorem calls_call_of_not (hcall : target.isCall = false) :
    (call field target method arguments).calls = [call field target method arguments] := by
  have hinner : (call field target method arguments).innerCall? = none := by
    rw [Tree.innerCall?, callTarget?_call htarget]
    exact if_neg (Bool.eq_false_iff.1 hcall)
  rw [Tree.calls, if_pos isCall_call]
  split
  · rename_i c hc
    rw [hinner] at hc
    cases hc
  · rfl

theorem followCallee_member (methods : List String) :
    (member target method).followCallee methods = target.followCallee (method :: methods) := by
  rw [Tree.followCallee, if_pos isMember_member, memberName?_member htarget]
  dsimp only
  split
  · rename_i o ho
    rw [child?_object_member htarget] at ho
    cases ho
    rfl
  · rename_i ho
    rw [child?_object_member htarget] at ho
    cases ho

theorem followCallee_call (methods : List String) :
    (call field target method arguments).followCallee methods =
      target.followCallee (method :: methods) := by
  rw [Tree.followCallee, if_neg (Bool.eq_false_iff.1 isMember_call), if_pos isCall_call]
  split
  · rename_i f hf
    cases hf
    exact followCallee_member htarget methods
  · rename_i hf
    cases hf

theorem chain_call :
    (call field target method arguments).chain = target.followCallee [method] := by
  rw [Tree.chain, if_pos isCall_call, child?_function_call]
  exact followCallee_member htarget []

end

end

end Written

end ContractInference
