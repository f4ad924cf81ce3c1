import ContractInference.Language
import ContractInference.Proofs.Numeral

/-!
# Integer literals

Integers that are written with a radix mark, and decimal ones with the suffix of a big integer, in
every way of writing them: letters small or capital, zeros in front, separators between digits. They
are read exactly, whatever their size, because none of them goes through a double.
-/

namespace ContractInference

/-- A digit as it is written. -/
structure Digit (base : Nat) where
  value : Fin base
  /-- Of the two ways to write a letter, the capital one. -/
  capital : Bool

namespace Digit

variable {base : Nat}

def char (d : Digit base) : Char :=
  if d.capital then (Nat.digitChar d.value).toUpper else Nat.digitChar d.value

def hex (n : Nat) (capital : Bool := false) : Digit 16 := ⟨Fin.ofNat 16 n, capital⟩

/-- The number that digits spell; the first one counts most. -/
def number (ds : List (Digit base)) : Nat := Nat.ofDigits base (ds.reverse.map fun d => d.value.val)

theorem number_concat (ds : List (Digit base)) (d : Digit base) :
    number (ds ++ [d]) = base * number ds + d.value := by
  simp [number, Nat.ofDigits_cons, Nat.add_comm]

theorem forall_char {P : Nat → Char → Prop}
    (h : ∀ v < base, P v (Nat.digitChar v) ∧ P v (Nat.digitChar v).toUpper) (d : Digit base) :
    P d.value d.char := by
  obtain ⟨hsmall, hcapital⟩ := h d.value d.value.isLt
  unfold char
  split
  · exact hcapital
  · exact hsmall

theorem char_plain (hbase : base ≤ 16) (d : Digit base) :
    d.char ≠ '_' ∧ d.char.toNat < 0x80 ∧ d.char.toLower = Nat.digitChar d.value := by
  let P (v : Nat) (c : Char) : Prop := c ≠ '_' ∧ c.toNat < 0x80 ∧ c.toLower = Nat.digitChar v
  have hall : ∀ v < 16, P v (Nat.digitChar v) ∧ P v (Nat.digitChar v).toUpper := by decide
  exact d.forall_char fun v hv => hall v (Nat.lt_of_lt_of_le hv hbase)

theorem char_ascii (hbase : base ≤ 16) {ds : List (Digit base)} {c : Char}
    (hc : c ∈ ds.map char) : c.toNat < 0x80 := by
  obtain ⟨d, -, rfl⟩ := List.mem_map.1 hc
  exact (d.char_plain hbase).2.1

end Digit

/-- Digits of which any but the first may have a separator before it. -/
structure DigitRun (base : Nat) where
  first : Digit base
  rest : List (Bool × Digit base)

namespace DigitRun

variable {base : Nat}

def digits (r : DigitRun base) : List (Digit base) := r.first :: r.rest.map Prod.snd

def chars (r : DigitRun base) : List Char :=
  r.first.char :: r.rest.flatMap fun x => if x.1 then ['_', x.2.char] else [x.2.char]

def value (r : DigitRun base) : Nat := Digit.number r.digits

theorem filter_chars (hbase : base ≤ 16) (r : DigitRun base) :
    r.chars.filter (· ≠ '_') = r.digits.map Digit.char := by
  have hdigit : ∀ d : Digit base, [d.char].filter (· ≠ '_') = [d.char] := fun d =>
    List.filter_eq_self.2 (by simpa using (d.char_plain hbase).1)
  have hrest : ∀ x : Bool × Digit base,
      (if x.1 then ['_', x.2.char] else [x.2.char]).filter (· ≠ '_') = [x.2.char] := by
    rintro ⟨_ | _, d⟩
    · exact hdigit d
    · exact hdigit d
  have hcons : r.chars.filter (· ≠ '_') =
      [r.first.char].filter (· ≠ '_') ++ (r.rest.flatMap fun x =>
        if x.1 then ['_', x.2.char] else [x.2.char]).filter (· ≠ '_') := by
    rw [← List.filter_append]
    rfl
  rw [hcons, hdigit, List.filter_flatMap]
  simp only [hrest, ← List.map_eq_flatMap, digits, List.map_cons, List.map_map]
  rfl

end DigitRun

inductive RadixMark where
  | hexadecimal
  | octal
  | binary

namespace RadixMark

def base : RadixMark → Nat
  | hexadecimal => 16
  | octal => 8
  | binary => 2

def letter : RadixMark → Char
  | hexadecimal => 'x'
  | octal => 'o'
  | binary => 'b'

def char (m : RadixMark) (capital : Bool) : Char := if capital then m.letter.toUpper else m.letter

theorem base_le (m : RadixMark) : m.base ≤ 16 := by
  cases m <;> decide

end RadixMark

/-- An integer as it is written with a radix mark, with or without the suffix of a big integer, or
as a decimal big integer. -/
inductive IntegerLiteral where
  | marked (mark : RadixMark) (capital : Bool) (run : DigitRun mark.base) (big : Bool)
  | decimal (run : DigitRun 10) (canonical : run.first.value = 0 → run.rest = [])
    (bound : run.digits.length ≤ 4300)

namespace IntegerLiteral

def value : IntegerLiteral → Nat
  | marked _ _ run _ => run.value
  | decimal run _ _ => run.value

/-- The mark of a big integer, if the literal has it. -/
def suffix : IntegerLiteral → List Char
  | marked _ _ _ big => if big then ['n'] else []
  | decimal _ _ _ => ['n']

def chars (i : IntegerLiteral) : List Char :=
  match i with
  | marked mark capital run _ => '0' :: mark.char capital :: run.chars ++ i.suffix
  | decimal run _ _ => run.chars ++ i.suffix

def text (i : IntegerLiteral) : String := String.ofList i.chars

end IntegerLiteral

theorem lowerAfter_of_ascii {cs : List Char} (h : ∀ c ∈ cs, c.toNat < 0x80) (before : List Char) :
    lowerAfter before cs = cs.map Char.toLower := by
  induction cs generalizing before with
  | nil => rfl
  | cons c cs ih =>
    obtain ⟨hc, hcs⟩ := List.forall_mem_cons.1 h
    have hsigma : c ≠ 'Σ' := by
      rintro rfl
      exact absurd hc (by decide)
    rw [lowerAfter, if_neg hsigma, lowerChar, if_pos hc, ih hcs]
    rfl

namespace Digit

variable {base : Nat}

def smallChars (ds : List (Digit base)) : List Char := ds.map fun d => Nat.digitChar d.value

/-- Scripts and blanks make no difference to a small digit, and it is neither sign nor suffix. -/
theorem smallChar_plain (hbase : base ≤ 16) {ds : List (Digit base)} {c : Char}
    (hc : c ∈ smallChars ds) :
    (plainDigit c = c ∧ isPlainSpace c = false) ∧ c ∉ ['-', '+', 'n'] := by
  obtain ⟨d, -, rfl⟩ := List.mem_map.1 hc
  have hall : ∀ v < 16, (plainDigit (Nat.digitChar v) = Nat.digitChar v ∧
      isPlainSpace (Nat.digitChar v) = false) ∧
        Nat.digitChar v ∉ ['-', '+', 'n'] := by decide
  exact hall d.value (Nat.lt_of_lt_of_le d.value.isLt hbase)

theorem digitValue?_digitChar (hbase : base ≤ 16) (v : Fin base) :
    digitValue? base (Nat.digitChar v) = some v.val := by
  have hhex : ∀ v < 16, Json.hexValue? (Nat.digitChar v) = some v := by decide
  rw [digitValue?, hhex v (Nat.lt_of_lt_of_le v.isLt hbase), Option.bind_some, if_pos v.isLt]

/-- Digits are read from the left, each one shifting what was read before it. -/
theorem natOfRadix?_smallChars (hbase : base ≤ 16) {ds : List (Digit base)} (hne : ds ≠ []) :
    natOfRadix? base (smallChars ds) = some (number ds) := by
  have hfold : ∀ ds : List (Digit base),
      (smallChars ds).foldlM (fun n c => (digitValue? base c).map (base * n + ·)) 0 =
        some (number ds) := by
    intro ds
    induction ds using List.reverseRecOn with
    | nil => rfl
    | append_singleton ds d ih =>
      rw [smallChars, List.map_append, List.foldlM_append, ← smallChars, ih, number_concat]
      simp [digitValue?_digitChar hbase]
  rw [natOfRadix?, if_neg (by simpa [smallChars] using hne), hfold]

theorem map_toLower_char (hbase : base ≤ 16) (ds : List (Digit base)) :
    (ds.map char).map Char.toLower = smallChars ds := by
  rw [List.map_map]
  exact List.map_congr_left fun d _ => (d.char_plain hbase).2.2

end Digit

namespace IntegerLiteral

open Digit

/-- What is read as an integer: small letters, and neither separators nor a suffix. -/
def body : IntegerLiteral → List Char
  | marked mark _ run _ => '0' :: mark.letter :: smallChars run.digits
  | decimal run _ _ => smallChars run.digits

theorem suffix_cases (i : IntegerLiteral) :
    i.suffix = ['n'] ∨ i.suffix = [] ∧ ∃ mark capital run, i = marked mark capital run false := by
  cases i with
  | marked mark capital run big =>
    cases big with
    | false => exact .inr ⟨rfl, mark, capital, run, rfl⟩
    | true => exact .inl rfl
  | decimal run canonical bound => exact .inl rfl

theorem suffix_plain (i : IntegerLiteral) :
    i.suffix.filter (· ≠ '_') = i.suffix ∧ (∀ c ∈ i.suffix, c.toNat < 0x80) ∧
      i.suffix.map Char.toLower = i.suffix := by
  obtain h | ⟨h, -⟩ := i.suffix_cases <;> simp [h]

theorem lowercase_chars (i : IntegerLiteral) :
    (lowercase (String.ofList (i.chars.filter (· ≠ '_')))).toList = i.body ++ i.suffix := by
  obtain ⟨hfilter, hascii, hlower⟩ := i.suffix_plain
  rw [lowercase, String.toList_ofList, String.toList_ofList]
  cases i with
  | marked mark capital run big =>
    have hmark : mark.char capital ≠ '_' ∧ (mark.char capital).toNat < 0x80 ∧
        (mark.char capital).toLower = mark.letter := by
      cases mark <;> cases capital <;> decide
    rw [chars, List.cons_append, List.cons_append, List.filter_cons_of_pos (by decide),
      List.filter_cons_of_pos (by simpa using hmark.1), List.filter_append,
      run.filter_chars mark.base_le, hfilter, lowerAfter_of_ascii]
    · rw [List.map_cons, List.map_cons, List.map_append, map_toLower_char mark.base_le,
        hmark.2.2, hlower]
      rfl
    · simp only [List.forall_mem_cons, List.forall_mem_append]
      exact ⟨by decide, hmark.2.1, fun c => char_ascii mark.base_le, hascii⟩
  | decimal run canonical bound =>
    have hten : 10 ≤ 16 := by decide
    rw [chars, List.filter_append, run.filter_chars hten, hfilter, lowerAfter_of_ascii]
    · rw [List.map_append, map_toLower_char hten, hlower]
      rfl
    · rw [List.forall_mem_append]
      exact ⟨fun c => char_ascii hten, hascii⟩

theorem plain_of_mem_body (i : IntegerLiteral) {c : Char} (hc : c ∈ i.body) :
    (plainDigit c = c ∧ isPlainSpace c = false) ∧ c ∉ ['-', '+', 'n'] := by
  cases i with
  | marked mark capital run big =>
    rcases List.mem_cons.1 hc with rfl | hc
    · decide
    · rcases List.mem_cons.1 hc with rfl | hc
      · cases mark <;> decide
      · exact smallChar_plain mark.base_le hc
  | decimal run canonical bound => exact smallChar_plain (by decide) hc

theorem natOfMarked?_body (i : IntegerLiteral) : natOfMarked? i.body = some i.value := by
  cases i with
  | marked mark capital run big =>
    have hmark : natOfMarked? ('0' :: mark.letter :: smallChars run.digits) =
        natOfRadix? mark.base (smallChars run.digits) := by
      cases mark <;> rfl
    rw [body, hmark, natOfRadix?_smallChars mark.base_le (by simp [DigitRun.digits])]
    rfl
  | decimal run canonical bound =>
    have hlength : ¬maxIntegerDigits < (smallChars run.digits).length := by
      rw [smallChars, List.length_map]
      exact Nat.not_lt.2 bound
    rw [body]
    unfold natOfMarked?
    split
    · -- A second digit after a zero would not be canonical.
      rename_i c cs heq
      have hdigits : smallChars run.digits =
          Nat.digitChar run.first.value :: smallChars (run.rest.map Prod.snd) := rfl
      obtain ⟨hzero, hrest⟩ := List.cons.inj (hdigits.symm.trans heq)
      have hfirst : ∀ v : Fin 10, Nat.digitChar v = '0' → v = 0 := by decide
      rw [canonical (hfirst _ hzero)] at hrest
      cases hrest
    · rw [if_neg hlength, natOfRadix?_smallChars (by decide) (by simp [DigitRun.digits])]
      rfl

theorem readInteger?_body (i : IntegerLiteral) :
    readInteger? (String.ofList i.body) = some (i.value : Int) := by
  have hsign : readSign i.body = (false, i.body) := by
    unfold readSign
    split
    · rename_i heq
      exact absurd (i.plain_of_mem_body (heq ▸ List.mem_cons_self)).2 (by decide)
    · rename_i heq
      exact absurd (i.plain_of_mem_body (heq ▸ List.mem_cons_self)).2 (by decide)
    · rfl
  rw [readInteger?, numberChars_of_plain fun c hc => (i.plain_of_mem_body hc).1, hsign]
  simp [natOfMarked?_body, signed]

theorem startsWith_mark (mark : RadixMark) (cs : List Char) :
    ((String.ofList ('0' :: mark.letter :: cs)).startsWith "0x" ||
      (String.ofList ('0' :: mark.letter :: cs)).startsWith "0o" ||
      (String.ofList ('0' :: mark.letter :: cs)).startsWith "0b") = true := by
  cases mark <;> simp [RadixMark.letter]

theorem ofNumeral?_text (i : IntegerLiteral) :
    Literal.ofNumeral? i.text = some (.int i.value) := by
  have hread : (readInteger? (String.ofList i.body)).map Literal.int = some (.int i.value) := by
    rw [readInteger?_body, Option.map_some]
  have hlower : (lowercase (String.ofList (i.text.toList.filter (· ≠ '_')))).toList =
      i.body ++ i.suffix := by
    rw [text, String.toList_ofList, lowercase_chars]
  unfold Literal.ofNumeral?
  dsimp only
  rw [hlower]
  obtain hsuffix | ⟨hsuffix, mark, capital, run, hi⟩ := i.suffix_cases
  · rw [hsuffix, List.getLast?_concat, List.dropLast_concat]
    exact hread
  · rw [hsuffix, List.append_nil]
    split
    · rename_i hlast
      exact absurd (i.plain_of_mem_body (List.mem_of_getLast? hlast)).2 (by decide)
    · have hbody : i.body = '0' :: mark.letter :: smallChars run.digits := by rw [hi, body]
      rw [hbody, startsWith_mark mark, if_pos rfl, ← hbody]
      exact hread

/-- An integer literal is read as the number that its digits spell, as a text, as a number in a
tree, and with the opposite sign under a minus. -/
theorem literal_keeps_value (i : IntegerLiteral) :
    Literal.ofNumeral? i.text = some (.int i.value) ∧
      (∀ n : Node, n.kind = "number" → n.text = i.text →
        Literal.ofNode? n = some (.int i.value)) ∧
      ∀ n argument : Node, n.kind = "unary_expression" → n.childText "operator" = "-" →
        n.child? "argument" = some argument → argument.kind = "number" →
        argument.text = i.text → Literal.ofNode? n = some (.int (-i.value)) := by
  refine ⟨i.ofNumeral?_text, fun n hkind htext => ?_,
    fun n argument hkind hoperator hargument hnumber htext => ?_⟩
  · rw [Literal.ofNode?, hkind, htext]
    exact i.ofNumeral?_text
  · have hnegative : (n.childText "operator" == "-" && argument.isKind "number") = true := by
      simp [hoperator, Tree.isKind, hnumber]
    rw [Literal.ofNode?, hkind, hargument]
    dsimp only
    rw [if_pos hnegative, htext, i.ofNumeral?_text]
    rfl

/-- A zero, a separator, and seventeen hexadecimal digits of which the first is a capital. -/
def wide : IntegerLiteral :=
  .marked .hexadecimal true
    ⟨.hex 0, (true, .hex 15 true) :: List.replicate 16 (false, .hex 15)⟩ true

def negatedWide : Node :=
  ((Grammar.parse Language.typescript.dialect "-0X0_Fffffffffffffffffn").nodes.find?
    (·.isKind "unary_expression")).getD default

theorem literal_keeps_value_wide :
    wide.text = "0X0_Fffffffffffffffffn" ∧ wide.value = 2 ^ 68 - 1 ∧
      negatedWide.kind = "unary_expression" ∧ negatedWide.text = "-0X0_Fffffffffffffffffn" ∧
      Literal.ofNumeral? wide.text = some (.int (2 ^ 68 - 1)) ∧
      Literal.ofNode? negatedWide = some (.int (1 - 2 ^ 68)) := by
  obtain ⟨htext, hvalue, hkind, hwhole, hoperator, hargument⟩ :
      wide.text = "0X0_Fffffffffffffffffn" ∧ wide.value = 2 ^ 68 - 1 ∧
        negatedWide.kind = "unary_expression" ∧ negatedWide.text = "-0X0_Fffffffffffffffffn" ∧
        negatedWide.childText "operator" = "-" ∧
        (negatedWide.child? "argument").map (fun n => (n.kind, n.text)) =
          some ("number", "0X0_Fffffffffffffffffn") := by
    decide +kernel
  obtain ⟨argument, hfound, hseen⟩ := Option.map_eq_some_iff.1 hargument
  obtain ⟨hnumber, hdigits⟩ := Prod.mk.inj hseen
  obtain ⟨hread, -, hminus⟩ := wide.literal_keeps_value
  refine ⟨htext, hvalue, hkind, hwhole, ?_, ?_⟩
  · rw [hread, hvalue]
    rfl
  · rw [hminus _ argument hkind hoperator hfound hnumber (hdigits.trans htext.symm), hvalue]
    rfl

end IntegerLiteral

end ContractInference
