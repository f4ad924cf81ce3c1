import ContractInference.Literal
import Mathlib

/-!
# Decimal numerals

The decimal digits of an integer that fits into the 53 bits of a significand are read as that
integer: reading them as a double rounds nothing, and the double is found to be an integer again.
-/

namespace ContractInference

namespace Binary64

theorem roundDiv_one (n : Nat) : roundDiv n 1 = n := by
  simp [roundDiv, Nat.mod_one]

theorem scale_neg (n k : Nat) : scale n (-(k : Int)) = (n, 2 ^ k) := by
  unfold scale
  split
  · obtain rfl : k = 0 := by omega
    simp
  · simp

theorem log2_le_of_lt {n : Nat} (hn : n ≠ 0) (h : n < 2 ^ 53) : n.log2 ≤ 52 :=
  Nat.le_of_lt_succ ((Nat.log2_lt hn).2 h)

/-- An integer of at most 53 bits is not rounded. -/
theorem ofRatio_one {n : Nat} (hn : n ≠ 0) (h : n < 2 ^ 53) (negative : Bool) :
    ofRatio negative n 1 =
      .finite negative (n * 2 ^ (52 - n.log2)) (-((52 - n.log2 : Nat) : Int)) := by
  have hlog : n.log2 ≤ 52 := log2_le_of_lt hn h
  have hlow : leastSignificand ≤ n * 2 ^ (52 - n.log2) := by
    calc leastSignificand = 2 ^ n.log2 * 2 ^ (52 - n.log2) := by
          rw [← Nat.pow_add, Nat.add_sub_cancel' hlog]
          rfl
      _ ≤ n * 2 ^ (52 - n.log2) := Nat.mul_le_mul_right _ (Nat.log2_self_le hn)
  have hhigh : n * 2 ^ (52 - n.log2) < 2 * leastSignificand := by
    calc n * 2 ^ (52 - n.log2) < 2 ^ (n.log2 + 1) * 2 ^ (52 - n.log2) :=
          Nat.mul_lt_mul_of_pos_right Nat.lt_log2_self (Nat.two_pow_pos _)
      _ = 2 * leastSignificand := by
          rw [← Nat.pow_add, show n.log2 + 1 + (52 - n.log2) = 53 by omega]
          rfl
  have hguess : (n.log2 : Int) - ((1 : Nat).log2 : Int) - 52 = -((52 - n.log2 : Nat) : Int) := by
    have : (1 : Nat).log2 = 0 := by decide
    omega
  have hexponent : exponentOf n 1 = -((52 - n.log2 : Nat) : Int) := by
    unfold exponentOf
    dsimp only
    rw [hguess, scale_neg]
    dsimp only
    rw [Nat.mul_one, if_neg (Nat.not_lt.2 hlow)]
  have hmax : max (-((52 - n.log2 : Nat) : Int)) leastExponent = -((52 - n.log2 : Nat) : Int) := by
    unfold leastExponent
    omega
  unfold ofRatio
  dsimp only
  rw [if_neg hn, hexponent, hmax, scale_neg]
  dsimp only
  rw [roundDiv_one, if_neg (Nat.ne_of_lt hhigh)]
  dsimp only
  rw [if_neg (by unfold greatestExponent; omega)]

theorem toInt?_finite (n k : Nat) :
    toInt? (.finite false (n * 2 ^ k) (-(k : Int))) = some (n : Int) := by
  have hpos : ((2 ^ k : Nat) : Int) ≠ 0 := by
    have := Nat.two_pow_pos k
    omega
  simp only [toInt?, toRatio?, scale_neg, Bool.false_eq_true, if_false]
  rw [Int.natCast_mul, Int.mul_emod_left, if_pos rfl, Int.mul_ediv_cancel _ hpos]

theorem toInt?_zero (k : Nat) : toInt? (.finite false 0 (-(k : Int))) = some 0 := by
  have hzero := toInt?_finite 0 k
  rwa [Nat.zero_mul] at hzero

theorem toInt?_ofDecimal {n : Nat} (h : n < 2 ^ 53) :
    toInt? (ofDecimal false n 0) = some (n : Int) := by
  by_cases hn : n = 0
  · rw [ofDecimal, if_pos hn, hn]
    exact toInt?_zero 1074
  · have hlog := log2_le_of_lt hn h
    have hdecimal : ofDecimal false n 0 = ofRatio false n 1 := by
      unfold ofDecimal
      rw [if_neg hn]
      dsimp only
      rw [if_neg (by omega), if_neg (by omega), if_pos (by omega)]
      simp
    rw [hdecimal, ofRatio_one hn h, toInt?_finite]

end Binary64

theorem Literal.ofFloat_ofDecimal {n : Nat} (h : n < 2 ^ 53) :
    ofFloat (.ofDecimal false n 0) = .int n := by
  have hbound : (n : Int).natAbs < integerBound := by
    rw [Int.natAbs_natCast]
    exact Nat.lt_trans h (by decide)
  rw [ofFloat, Binary64.toInt?_ofDecimal h]
  exact if_pos hbound

theorem forall_digit {P : Char → Prop} (h : ∀ d < 10, P (Nat.digitChar d)) {c : Char}
    (hc : c.isDigit = true) : P c := by
  have hrange : 48 ≤ c.toNat ∧ c.toNat ≤ 57 := Char.isDigit_iff_toNat.1 hc
  have hdigit : Nat.digitChar (c.toNat - 48) = c := by
    have hchar : ∀ d < 10, Nat.digitChar d = Char.ofNat (d + 48) := by decide
    rw [hchar _ (by omega), Nat.sub_add_cancel hrange.1, Char.ofNat_toNat]
  exact hdigit ▸ h _ (by omega)

namespace Json

theorem natOfDigits_toDigits (n : Nat) : natOfDigits (Nat.toDigits 10 n) = n := by
  have hdigit : ∀ d < 10, (Nat.digitChar d).toNat - '0'.toNat = d := by decide
  induction n using Nat.strongRecOn with
  | ind n ih =>
    by_cases hn : n < 10
    · rw [Nat.toDigits_of_lt_base hn, natOfDigits, List.foldl_cons, List.foldl_nil, hdigit n hn]
      omega
    · have happend : ∀ cs c,
          natOfDigits (cs ++ [c]) = 10 * natOfDigits cs + (c.toNat - '0'.toNat) :=
        fun cs c => by simp [natOfDigits]
      rw [Nat.toDigits_of_base_le (by decide) (by omega), happend, ih (n / 10) (by omega),
        hdigit _ (by omega)]
      omega

end Json

theorem digit_plain {c : Char} (hc : c.isDigit = true) :
    c ≠ 'Σ' ∧ lowerChar c = [c] ∧ plainDigit c = c ∧ isPlainSpace c = false ∧
      c ∉ ['_', 'n', '-', '+', 'x', 'o', 'b'] ∧ c.toLower ∉ ['i', 'n'] :=
  forall_digit (P := fun c => c ≠ 'Σ' ∧ lowerChar c = [c] ∧ plainDigit c = c ∧
    isPlainSpace c = false ∧ c ∉ ['_', 'n', '-', '+', 'x', 'o', 'b'] ∧ c.toLower ∉ ['i', 'n'])
    (by decide) hc

theorem numberChars_of_plain {cs : List Char}
    (h : ∀ c ∈ cs, plainDigit c = c ∧ isPlainSpace c = false) :
    numberChars (String.ofList cs) = cs := by
  have hdrop : ∀ ds : List Char, (∀ c ∈ ds, c ∈ cs) → ds.dropWhile isPlainSpace = ds := by
    intro ds hds
    cases ds with
    | nil => rfl
    | cons c ds =>
      rw [List.dropWhile_cons_of_neg (by simp [(h c (hds c List.mem_cons_self)).2])]
  have hplain : cs.map plainDigit = cs :=
    (List.map_congr_left fun c hc => (h c hc).1).trans (List.map_id cs)
  rw [numberChars, String.toList_ofList, hplain, hdrop cs fun _ hc => hc,
    hdrop cs.reverse fun _ hc => List.mem_reverse.1 hc, List.reverse_reverse]

section

variable {cs : List Char} (h : ∀ c ∈ cs, c.isDigit = true)
include h

theorem lowerAfter_of_digits (before : List Char) : lowerAfter before cs = cs := by
  induction cs generalizing before with
  | nil => rfl
  | cons c cs ih =>
    obtain ⟨hc, hcs⟩ := List.forall_mem_cons.1 h
    obtain ⟨hsigma, hlower, -⟩ := digit_plain hc
    rw [lowerAfter, if_neg hsigma, hlower, ih hcs]
    rfl

theorem numberChars_of_digits : numberChars (String.ofList cs) = cs :=
  numberChars_of_plain fun c hc => (digit_plain (h c hc)).2.2.imp_right And.left

theorem readSign_of_digits : readSign cs = (false, cs) := by
  unfold readSign
  split
  · exact absurd (h '-' List.mem_cons_self) (by decide)
  · exact absurd (h '+' List.mem_cons_self) (by decide)
  · rfl

theorem readFloat?_of_digits (hne : cs ≠ []) :
    readFloat? (String.ofList cs) = some (.ofDecimal false (Json.natOfDigits cs) 0) := by
  obtain ⟨c, rest, rfl⟩ := List.exists_cons_of_ne_nil hne
  have hword : ∀ w : String, w.toList.head? ∈ [some 'i', some 'n'] →
      String.ofList ((c :: rest).map Char.toLower) ≠ w := by
    rintro w hw rfl
    obtain ⟨-, -, -, -, -, hc⟩ := digit_plain (h c List.mem_cons_self)
    simp_all
  have htake : (c :: rest ++ []).takeWhile Char.isDigit = c :: rest ++ [] :=
    List.takeWhile_append_of_pos h
  have hdrop : (c :: rest ++ []).dropWhile Char.isDigit = [] := List.dropWhile_append_of_pos h
  rw [List.append_nil] at htake hdrop
  rw [readFloat?, numberChars_of_digits h, readSign_of_digits h]
  dsimp only
  rw [if_neg, if_neg, decimalOfChars?, htake, hdrop]
  · simp [Json.readExponent]
  · rw [beq_iff_eq]
    exact hword "nan" (by decide)
  · rw [Bool.or_eq_true, beq_iff_eq, beq_iff_eq, not_or]
    exact ⟨hword "inf" (by decide), hword "infinity" (by decide)⟩

end

/-- The digits of an integer of at most 53 bits are read as that integer. -/
theorem Literal.ofNumeral?_toString {n : Nat} (h : n < 2 ^ 53) :
    ofNumeral? (toString n) = some (.int n) := by
  have hdigits : ∀ c ∈ Nat.toDigits 10 n, c.isDigit = true := fun c hc =>
    Nat.isDigit_of_mem_toDigits (by decide) (by decide) hc
  have hfilter : (Nat.toDigits 10 n).filter (· ≠ '_') = Nat.toDigits 10 n := by
    refine List.filter_eq_self.2 fun c hc => ?_
    obtain ⟨-, -, -, -, hmark, -⟩ := digit_plain (hdigits c hc)
    simp_all
  have hstart : ∀ c ∈ ['x', 'o', 'b'],
      (String.ofList (Nat.toDigits 10 n)).startsWith (String.ofList ['0', c]) = false := by
    intro c hc
    rw [Bool.eq_false_iff, ne_eq, String.startsWith_string_iff, String.toList_ofList,
      String.toList_ofList]
    intro hpre
    have hmem : c ∈ Nat.toDigits 10 n := hpre.subset (by simp)
    obtain ⟨-, -, -, -, hmark, -⟩ := digit_plain (hdigits c hmem)
    exact hmark (by simp_all)
  have hlast : (Nat.toDigits 10 n).getLast? ≠ some 'n' := by
    intro hn
    obtain ⟨-, -, -, -, hmark, -⟩ := digit_plain (hdigits 'n' (List.mem_of_getLast? hn))
    exact hmark (by decide)
  have hlower : (lowercase (String.ofList (Nat.toDigits 10 n))).toList = Nat.toDigits 10 n := by
    rw [lowercase, String.toList_ofList, String.toList_ofList, lowerAfter_of_digits hdigits]
  have htext : (toString n).toList = Nat.toDigits 10 n := Nat.toList_repr
  unfold ofNumeral?
  rw [htext, hfilter]
  dsimp only
  rw [hlower]
  split
  · rename_i hn
    exact absurd hn hlast
  · rw [hstart 'x' (by decide), hstart 'o' (by decide), hstart 'b' (by decide)]
    rw [if_neg (by decide), readFloat?_of_digits hdigits Nat.toDigits_ne_nil,
      Json.natOfDigits_toDigits, Option.map_some, ofFloat_ofDecimal h]

end ContractInference
