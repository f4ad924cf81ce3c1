import ContractInference.Proofs.IntegerLiteral
import ContractInference.Proofs.Written

/-!
# String literals

A string literal is a sequence of fragments and escapes. In the language of the program it denotes a
sequence of UTF-16 units, to which each piece adds its own. An escape is read as JSON reads it, and
one that JSON does not have as the text after its backslash. That is what a single character denotes
unless it is `v` or ends a line, and never what a number or a continued line denotes. So a literal
is read as what it denotes exactly if it has no escape of those forms.
-/

namespace ContractInference

/-- The UTF-16 units of a point; half of a surrogate pair is a unit by itself. -/
def CodePoint.units (p : CodePoint) : List Nat :=
  if p.val < 0x10000 then [p.val]
  else [0xD800 + (p.val - 0x10000) / 0x400, 0xDC00 + (p.val - 0x10000) % 0x400]

def Text.units (t : Text) : List Nat := t.points.flatMap CodePoint.units

theorem Text.units_concat (ts : List Text) : (concat ts).units = ts.flatMap units :=
  List.flatMap_assoc

theorem CodePoint.length_units (p : CodePoint) : 1 ≤ p.units.length ∧ p.units.length ≤ 2 := by
  unfold units
  split <;> simp

theorem Text.length_points_le (t : Text) : t.points.length ≤ t.units.length := by
  unfold units
  induction t.points with
  | nil => exact Nat.le_refl 0
  | cons p ps ih =>
    have := p.length_units.1
    rw [List.flatMap_cons, List.length_append, List.length_cons]
    omega

def lineTerminators : List Char := ['\n', '\r', '\u2028', '\u2029']

/-- Letters that stand for a control character after a backslash. -/
def controlLetters : List (Char × Nat) :=
  [('b', 0x8), ('t', 0x9), ('n', 0xA), ('v', 0xB), ('f', 0xC), ('r', 0xD)]

/-- An escape in a string literal. -/
inductive Escape where
  /-- One character, which starts none of the other forms. -/
  | character (c : Char) (plain : c ∉ ['x', 'u', '0', '1', '2', '3', '4', '5', '6', '7'])
  | octal (digits : List (Digit 8)) (count : digits.length ∈ [1, 2, 3])
  | byte (a b : Digit 16)
  | unit (a b c d : Digit 16)
  /-- The number of a character between braces. -/
  | point (digits : List (Digit 16)) (nonempty : digits ≠ [])
    (bound : Digit.number digits < 0x110000)
  /-- A return with the line feed that belongs to it. -/
  | returnFeed
  /-- A line or paragraph separator that is taken into the escape before it. -/
  | separated (first : Char) (start : first ∈ ['\r', '?']) (separator : Char)
    (ends : separator ∈ ['\u2028', '\u2029'])

namespace Escape

def tail : Escape → List Char
  | character c _ => [c]
  | octal digits _ => digits.map Digit.char
  | byte a b => ['x', a.char, b.char]
  | unit a b c d => ['u', a.char, b.char, c.char, d.char]
  | point digits _ _ => 'u' :: '\x7b' :: digits.map Digit.char ++ ['\x7d']
  | returnFeed => ['\r', '\n']
  | separated first _ separator _ => [first, separator]

def text (e : Escape) : String := String.ofList ('\\' :: e.tail)

/-- A letter for a control character stands for that character; the end of a line goes on with the
next line and stands for nothing; all others stand for themselves. -/
def characterValue (c : Char) : List Nat :=
  match controlLetters.lookup c with
  | some u => [u]
  | none => if c ∈ lineTerminators then [] else (CodePoint.ofChar c).units

/-- Three digits stand for one unit if it fits into a byte; otherwise the third is a character of
its own. -/
def octalValue : List (Digit 8) → List Nat
  | [a, b, c] =>
    if Digit.number [a, b, c] ≤ 0xFF then [Digit.number [a, b, c]]
    else [Digit.number [a, b], c.char.toNat]
  | digits => [Digit.number digits]

/-- The units that an escape denotes. -/
def value : Escape → List Nat
  | character c _ => characterValue c
  | octal digits _ => octalValue digits
  | byte a b => [Digit.number [a, b]]
  | unit a b c d => [Digit.number [a, b, c, d]]
  | point digits _ bound => CodePoint.units ⟨Digit.number digits, bound⟩
  | returnFeed => []
  | separated first _ separator _ => characterValue first ++ (CodePoint.ofChar separator).units

/-- The escapes that are taken for the text after the backslash and denote something else. -/
def isMisread : Escape → Bool
  | character c _ => c = 'v' || c ∈ lineTerminators
  | octal _ _ | byte _ _ | point _ _ _ | returnFeed => true
  | unit _ _ _ _ => false
  | separated first _ _ _ => first = '\r'

theorem readBody_escape {c : Char} (hc : c ≠ 'u') (rest : List Char) :
    Json.readBody ('\\' :: c :: rest) = (do
      let p ← Json.shortEscape? c
      let (ps, rest') ← Json.readBody rest
      return (p :: ps, rest')) := by
  rw [Json.readBody.eq_def]
  simp [hc]

theorem decodeEscape_ofList (cs : List Char) :
    Literal.decodeEscape (String.ofList ('\\' :: cs)) =
      (Json.readQuoted? ('\\' :: cs)).getD (Text.ofChars cs) := by
  rw [Literal.decodeEscape, String.toList_ofList]
  cases Json.readQuoted? ('\\' :: cs) <;> rfl

/-- A form that JSON does not have is taken for the text after the backslash. -/
theorem decodeEscape_of_shortEscape?_none {c : Char} (hc : c ≠ 'u')
    (h : Json.shortEscape? c = none) (cs : List Char) :
    Literal.decodeEscape (String.ofList ('\\' :: c :: cs)) = Text.ofChars (c :: cs) := by
  have hread : Json.readQuoted? ('\\' :: c :: cs) = none := by
    rw [Json.readQuoted?, List.cons_append, List.cons_append, readBody_escape hc, h]
    rfl
  rw [decodeEscape_ofList, hread, Option.getD_none]

theorem decodeEscape_character (c : Char) (hc : c ≠ 'u') :
    Literal.decodeEscape (String.ofList ['\\', c]) =
      ((Json.shortEscape? c).map fun p => Text.mk [p]).getD (Text.ofChars [c]) := by
  cases h : Json.shortEscape? c with
  | none => exact decodeEscape_of_shortEscape?_none hc h []
  | some p =>
    have hread : Json.readQuoted? ['\\', c] = some ⟨[p]⟩ := by
      rw [Json.readQuoted?, List.cons_append, List.cons_append, readBody_escape hc, h]
      rfl
    rw [decodeEscape_ofList, hread]
    rfl

theorem hexValue?_char (d : Digit 16) : Json.hexValue? d.char = some d.value.val :=
  d.forall_char (P := fun v c => Json.hexValue? c = some v) (by decide)

theorem number_four (a b c d : Digit 16) :
    Digit.number [a, b, c, d] = ((a.value * 16 + b.value) * 16 + c.value) * 16 + d.value := by
  simp [Digit.number, Nat.ofDigits_cons]
  omega

theorem decodeEscape_unit (a b c d : Digit 16) :
    Literal.decodeEscape (unit a b c d).text =
      ⟨[CodePoint.ofNat (Digit.number [a, b, c, d])]⟩ := by
  have hunit : Json.unit? a.char b.char c.char d.char =
      some (CodePoint.ofNat (Digit.number [a, b, c, d])) := by
    simp only [Json.unit?, hexValue?_char, number_four]
  have hread : Json.readQuoted? ('\\' :: (unit a b c d).tail) =
      some ⟨[CodePoint.ofNat (Digit.number [a, b, c, d])]⟩ := by
    rw [Json.readQuoted?, tail]
    simp only [List.cons_append, List.nil_append, Json.readBody, hunit]
    rfl
  rw [text, decodeEscape_ofList, hread]
  rfl

theorem decodeEscape_point (digits : List (Digit 16)) (nonempty : digits ≠ [])
    (bound : Digit.number digits < 0x110000) :
    Literal.decodeEscape (point digits nonempty bound).text =
      Text.ofChars (point digits nonempty bound).tail := by
  obtain ⟨d, ds, rfl⟩ := List.exists_cons_of_ne_nil nonempty
  obtain ⟨x, y, rest, hrest⟩ : ∃ x y rest,
      ds.map Digit.char ++ ['\x7d'] ++ ['"'] = x :: y :: rest := by
    rcases ds with _ | ⟨x, _ | ⟨y, ds⟩⟩ <;> exact ⟨_, _, _, rfl⟩
  have hread : Json.readQuoted? ('\\' :: (point (d :: ds) nonempty bound).tail) = none := by
    have hbody : '\\' :: (point (d :: ds) nonempty bound).tail ++ ['"'] =
        '\\' :: 'u' :: '\x7b' :: d.char :: x :: y :: rest := by
      rw [← hrest]
      rfl
    have hunit : Json.unit? '\x7b' d.char x y = none := rfl
    rw [Json.readQuoted?, hbody, Json.readBody, hunit]
    rfl
  rw [text, decodeEscape_ofList, hread, Option.getD_none]

theorem tail_octal {digits : List (Digit 8)} (count : digits.length ∈ [1, 2, 3]) :
    ∃ c rest, (octal digits count).tail = c :: rest ∧ c ≠ 'u' ∧ Json.shortEscape? c = none := by
  obtain ⟨d, ds, rfl⟩ : ∃ d ds, digits = d :: ds :=
    List.exists_cons_of_ne_nil fun h => by simp [h] at count
  exact ⟨d.char, ds.map Digit.char, rfl,
    d.forall_char (P := fun _ c => c ≠ 'u' ∧ Json.shortEscape? c = none) (by decide)⟩

theorem shortEscape?_of_start {first : Char} (start : first ∈ ['\r', '?']) :
    first ≠ 'u' ∧ Json.shortEscape? first = none := by
  have hnone : ∀ c ∈ ['\r', '?'], c ≠ 'u' ∧ Json.shortEscape? c = none :=
    List.forall_iff_forall_mem.1 (by decide)
  exact hnone first start

/-- The escapes that are misread are those of no form that JSON has. -/
theorem decodeEscape_of_isMisread {e : Escape} (h : e.isMisread = true) :
    Literal.decodeEscape e.text = Text.ofChars e.tail := by
  cases e with
  | character c plain =>
    have hnone : ∀ c ∈ 'v' :: lineTerminators, c ≠ 'u' ∧ Json.shortEscape? c = none :=
      List.forall_iff_forall_mem.1 (by decide)
    obtain ⟨hu, hshort⟩ := hnone c (by simpa [isMisread] using h)
    exact decodeEscape_of_shortEscape?_none hu hshort []
  | octal digits count =>
    obtain ⟨c, rest, htail, hu, hshort⟩ := tail_octal count
    rw [text, htail]
    exact decodeEscape_of_shortEscape?_none hu hshort rest
  | byte a b => exact decodeEscape_of_shortEscape?_none (by decide) rfl _
  | unit a b c d => cases h
  | point digits nonempty bound => exact decodeEscape_point digits nonempty bound
  | returnFeed => exact decodeEscape_of_shortEscape?_none (by decide) rfl _
  | separated first start separator ends =>
    obtain ⟨hu, hshort⟩ := shortEscape?_of_start start
    exact decodeEscape_of_shortEscape?_none hu hshort _

theorem units_ofChars (cs : List Char) :
    (Text.ofChars cs).units = cs.flatMap fun c => (CodePoint.ofChar c).units :=
  List.flatMap_map _ _ _

theorem units_ofNat {n : Nat} (h : n < 0x10000) : (CodePoint.ofNat n).units = [n] := by
  have hval : (CodePoint.ofNat n).val = n := Nat.mod_eq_of_lt (by omega)
  rw [CodePoint.units, hval, if_pos h]

/-- Where JSON has no escape of a character, and it neither names a control character nor ends a
line, it stands for itself on both sides. -/
theorem units_decodeEscape_character {c : Char} (hu : c ≠ 'u') (hv : c ≠ 'v')
    (hline : c ∉ lineTerminators) :
    (Literal.decodeEscape (String.ofList ['\\', c])).units = characterValue c := by
  rw [decodeEscape_character c hu]
  by_cases hshort : c ∈ ['"', '\\', '/', 'b', 'f', 'n', 'r', 't']
  · have hall : ∀ c ∈ ['"', '\\', '/', 'b', 'f', 'n', 'r', 't'],
        (((Json.shortEscape? c).map fun p => Text.mk [p]).getD (Text.ofChars [c])).units =
          characterValue c :=
      List.forall_iff_forall_mem.1 (by decide +kernel)
    exact hall c hshort
  · have hnone : Json.shortEscape? c = none := by
      unfold Json.shortEscape?
      split <;> simp_all
    have hletter : controlLetters.lookup c = none := by
      rw [List.lookup_eq_none_iff]
      simp_all [controlLetters]
    rw [hnone, Option.map_none, Option.getD_none, units_ofChars, characterValue, hletter,
      if_neg hline, List.flatMap_singleton]

theorem units_decodeEscape_of_not_isMisread {e : Escape} (h : e.isMisread = false) :
    (Literal.decodeEscape e.text).units = e.value := by
  cases e with
  | character c plain =>
    obtain ⟨hv, hline⟩ : c ≠ 'v' ∧ c ∉ lineTerminators := by simpa [isMisread] using h
    refine units_decodeEscape_character ?_ hv hline
    rintro rfl
    exact plain (by decide)
  | octal digits count => cases h
  | byte a b => cases h
  | unit a b c d =>
    have hbound : Digit.number [a, b, c, d] < 0x10000 := by
      rw [number_four]
      omega
    rw [decodeEscape_unit, Text.units, List.flatMap_singleton, units_ofNat hbound]
    rfl
  | point digits nonempty bound => cases h
  | returnFeed => cases h
  | separated first start separator ends =>
    obtain rfl : first = '?' := by
      have hreturn : first ≠ '\r' := by simpa [isMisread] using h
      simpa [hreturn] using start
    have hread : Literal.decodeEscape (separated '?' start separator ends).text =
        Text.ofChars ['?', separator] :=
      decodeEscape_of_shortEscape?_none (by decide) rfl _
    have hvalue : characterValue '?' = (CodePoint.ofChar '?').units := by decide +kernel
    rw [hread, units_ofChars, value, hvalue]
    simp

/-- A misread escape is not taken for less than it denotes, and never for what it denotes. -/
theorem units_tail_of_isMisread {e : Escape} (h : e.isMisread = true) :
    e.value.length ≤ (Text.ofChars e.tail).units.length ∧
      (Text.ofChars e.tail).units ≠ e.value := by
  -- Most of them are taken for more units.
  have hmore : e.value.length < e.tail.length →
      e.value.length ≤ (Text.ofChars e.tail).units.length ∧
        (Text.ofChars e.tail).units ≠ e.value := by
    intro hlt
    have hle := (Text.ofChars e.tail).length_points_le
    have hpoints : (Text.ofChars e.tail).points.length = e.tail.length := List.length_map _
    refine ⟨by omega, fun heq => ?_⟩
    rw [heq] at hle
    omega
  cases e with
  | character c plain =>
    have hall : ∀ c ∈ 'v' :: lineTerminators,
        (characterValue c).length ≤ (Text.ofChars [c]).units.length ∧
          (Text.ofChars [c]).units ≠ characterValue c :=
      List.forall_iff_forall_mem.1 (by decide +kernel)
    exact hall c (by simpa [isMisread] using h)
  | octal digits count =>
    rcases digits with _ | ⟨a, _ | ⟨b, _ | ⟨c, _ | ⟨d, ds⟩⟩⟩⟩
    · simp at count
    · have hdigit := a.forall_char
        (P := fun v c => (Text.ofChars [c]).units.length = 1 ∧ (Text.ofChars [c]).units ≠ [v])
        (by decide +kernel)
      have hvalue : (octal [a] count).value = [a.value.val] := by
        simp [value, octalValue, Digit.number]
      rw [hvalue]
      exact ⟨hdigit.1.ge, hdigit.2⟩
    · exact hmore (by simp [value, octalValue, tail])
    · refine hmore ?_
      simp only [value, octalValue]
      split <;> simp [tail]
    · simp at count
  | byte a b => exact hmore (by simp [value, tail])
  | unit a b c d => cases h
  | point digits nonempty bound =>
    refine hmore ?_
    have hvalue := (CodePoint.length_units ⟨Digit.number digits, bound⟩).2
    have htail : (point digits nonempty bound).tail.length = digits.length + 3 := by simp [tail]
    rw [htail, value]
    omega
  | returnFeed => exact hmore (by decide)
  | separated first start separator ends =>
    obtain rfl : first = '\r' := by simpa [isMisread] using h
    have hall : ∀ c ∈ ['\u2028', '\u2029'],
        (characterValue '\r' ++ (CodePoint.ofChar c).units).length < 2 :=
      List.forall_iff_forall_mem.1 (by decide +kernel)
    exact hmore (hall separator ends)

end Escape

/-- A piece of a string literal. -/
inductive Piece where
  | fragment (t : Text)
  | escape (e : Escape)

namespace Piece

/-- What a piece adds to the text that is read. -/
def reading : Piece → Text
  | fragment t => t
  | escape e => Literal.decodeEscape e.text

def value : Piece → List Nat
  | fragment t => t.units
  | escape e => e.value

/-- The units that a piece is read as: those that it denotes, and for an escape that is misread
those of the text after the backslash. -/
def readUnits : Piece → List Nat
  | fragment t => t.units
  | escape e => if e.isMisread then (Text.ofChars e.tail).units else e.value

/-- The node of a piece in a syntax tree. -/
def IsNode (p : Piece) (n : Node) : Prop :=
  match p with
  | fragment t => n.kind = "string_fragment" ∧ Text.ofString n.text = t
  | escape e => n.kind = "escape_sequence" ∧ n.text = e.text

instance : (p : Piece) → (n : Node) → Decidable (p.IsNode n)
  | fragment _, _ => inferInstanceAs (Decidable (_ ∧ _))
  | escape _, _ => inferInstanceAs (Decidable (_ ∧ _))

theorem decodePiece_of_isNode {n : Node} {p : Piece} (h : p.IsNode n) :
    Literal.decodePiece n = p.reading := by
  cases p with
  | fragment t =>
    obtain ⟨hkind, htext⟩ := h
    simp [Literal.decodePiece, Tree.isKind, hkind, htext, reading]
  | escape e =>
    obtain ⟨hkind, htext⟩ := h
    simp [Literal.decodePiece, Tree.isKind, hkind, htext, reading]

theorem units_reading (p : Piece) : p.reading.units = p.readUnits := by
  cases p with
  | fragment t => rfl
  | escape e =>
    rw [reading, readUnits]
    split
    · rename_i h
      rw [Escape.decodeEscape_of_isMisread h]
    · rename_i h
      exact Escape.units_decodeEscape_of_not_isMisread (by simpa using h)

theorem readUnits_eq_value_iff (p : Piece) :
    p.readUnits = p.value ↔ ∀ e, p = escape e → e.isMisread = false := by
  cases p with
  | fragment t => simp [readUnits, value]
  | escape e =>
    cases h : e.isMisread with
    | false => simp [readUnits, value, h]
    | true => simp [readUnits, value, h, (Escape.units_tail_of_isMisread h).2]

theorem length_value_le (p : Piece) : p.value.length ≤ p.readUnits.length := by
  cases p with
  | fragment t => exact Nat.le_refl _
  | escape e =>
    rw [readUnits]
    split
    · rename_i h
      exact (Escape.units_tail_of_isMisread h).1
    · exact Nat.le_refl _

end Piece

/-- A string in a syntax tree with the pieces that it is made of. -/
structure IsStringOf (n : Node) (pieces : List Piece) : Prop where
  kind : n.kind = "string"
  pieces : List.Forall₂ Piece.IsNode pieces n.namedChildren

theorem IsStringOf.decodeString_eq {n : Node} {pieces : List Piece} (h : IsStringOf n pieces) :
    Literal.decodeString n = Text.concat (pieces.map Piece.reading) := by
  obtain ⟨-, hpieces⟩ := h
  rw [Literal.decodeString]
  generalize n.namedChildren = children at hpieces ⊢
  congr 1
  induction hpieces with
  | nil => rfl
  | cons hpiece _ ih => rw [List.map_cons, List.map_cons, Piece.decodePiece_of_isNode hpiece, ih]

/-- Lists put together from parts of which none is shorter than its counterpart are equal only part
by part. -/
theorem flatMap_eq_flatMap_iff {α β : Type} {f g : α → List β}
    (h : ∀ a, (g a).length ≤ (f a).length) (as : List α) :
    as.flatMap f = as.flatMap g ↔ ∀ a ∈ as, f a = g a := by
  have hlength : ∀ as : List α, (as.flatMap g).length ≤ (as.flatMap f).length := by
    intro as
    induction as with
    | nil => exact Nat.le_refl 0
    | cons a as ih =>
      have := h a
      simp only [List.flatMap_cons, List.length_append]
      omega
  induction as with
  | nil => simp
  | cons a as ih =>
    rw [List.flatMap_cons, List.flatMap_cons, List.forall_mem_cons]
    refine Iff.trans ⟨fun heq => ?_, ?_⟩ (and_congr_right fun _ => ih)
    · have hsum := congrArg List.length heq
      have := h a
      have := hlength as
      simp only [List.length_append] at hsum
      exact List.append_inj heq (by omega)
    · rintro ⟨ha, has⟩
      rw [ha, has]

/-- A string literal is read piece by piece, and as the value that it denotes exactly if none of its
escapes is misread. -/
theorem Literal.units_of_isStringOf {n : Node} {pieces : List Piece} (h : IsStringOf n pieces) :
    ∃ t, ofNode? n = some (.text t) ∧ t.units = pieces.flatMap Piece.readUnits ∧
      (t.units = pieces.flatMap Piece.value ↔
        ∀ e, Piece.escape e ∈ pieces → e.isMisread = false) := by
  have hunits : (decodeString n).units = pieces.flatMap Piece.readUnits := by
    rw [h.decodeString_eq, Text.units_concat, List.flatMap_map]
    simp only [Piece.units_reading]
  refine ⟨decodeString n, ?_, hunits, ?_⟩
  · rw [ofNode?, h.kind]
    rfl
  · rw [hunits, flatMap_eq_flatMap_iff Piece.length_value_le]
    simp only [Piece.readUnits_eq_value_iff]
    exact ⟨fun hall e he => hall _ he e rfl, fun hall p hp e he => hall e (he ▸ hp)⟩

def firstString (text : String) : Node :=
  ((Grammar.parse Language.typescript.dialect text).nodes.find? (·.isKind "string")).getD default

/-- A literal with a letter of another script, a pair of surrogates and a quote as escapes. -/
def greeting : Node := firstString "'caf\\u00E9 \\uD83d\\uDE00\\'\\n'"

def greetingPieces : List Piece :=
  [.fragment "caf", .escape (.unit (.hex 0) (.hex 0) (.hex 14 true) (.hex 9)), .fragment " ",
    .escape (.unit (.hex 13 true) (.hex 8) (.hex 3) (.hex 13)),
    .escape (.unit (.hex 13 true) (.hex 14 true) (.hex 0) (.hex 0)),
    .escape (.character '\'' (by decide)), .escape (.character 'n' (by decide))]

theorem Literal.units_of_isStringOf_greeting :
    IsStringOf greeting greetingPieces ∧
      ∃ t, ofNode? greeting = some (.text t) ∧ t.units = (Text.ofString "café 😀'\n").units := by
  have hstring : IsStringOf greeting greetingPieces := ⟨by decide +kernel, by decide +kernel⟩
  obtain ⟨t, ht, -, hiff⟩ := Literal.units_of_isStringOf hstring
  have hread : ∀ e, Piece.escape e ∈ greetingPieces → e.isMisread = false := by
    simp [greetingPieces, Escape.isMisread, lineTerminators]
  refine ⟨hstring, t, ht, ?_⟩
  rw [hiff.2 hread]
  decide +kernel

/-- The literal `'\x41'`, which denotes the letter A. -/
def letterA : Node := firstString "'\\x41'"

/-- An escape by two hexadecimal digits is taken for its digits. -/
theorem Literal.ofNode?_letterA :
    IsStringOf letterA [.escape (.byte (.hex 4) (.hex 1))] ∧
      [Piece.escape (.byte (.hex 4) (.hex 1))].flatMap Piece.value =
        (Text.ofString "A").units ∧
      ofNode? letterA = some (.text "x41") ∧
      (Text.ofString "x41").units ≠ (Text.ofString "A").units := by
  refine ⟨⟨by decide +kernel, by decide +kernel⟩, ?_, ?_, ?_⟩ <;> decide +kernel

end ContractInference
