import ContractInference.Proofs.Numeral

/-!
# Shares

The share that some of a number of things are, as a double: how it is rounded, and how it compares
to other doubles. A share is at most one; it is above zero unless it is so small that it is rounded
to zero, and that takes at least `2 ^ 1075` things.
-/

namespace ContractInference

namespace Binary64

theorem scale_pos (n : Nat) (e : Int) : 0 < (scale n e).2 := by
  unfold scale
  split
  · exact Nat.one_pos
  · exact Nat.two_pow_pos _

theorem scale_eq_zero {n : Nat} {e : Int} : (scale n e).1 = 0 ↔ n = 0 := by
  unfold scale
  split
  · simp
  · rfl

theorem lt_finite {s t : Bool} {m n : Nat} {e f : Int} :
    lt (.finite s m e) (.finite t n f) = true ↔
      (if s then -((scale m e).1 : Int) else (scale m e).1) * (scale n f).2 <
        (if t then -((scale n f).1 : Int) else (scale n f).1) * (scale m e).2 :=
  decide_eq_true_iff

theorem cross_lt_trans {a b c d e f : Int} (hb : 0 < b) (hd : 0 < d) (hf : 0 < f)
    (hac : a * d < c * b) (hce : c * f < e * d) : a * f < e * b := by
  refine lt_of_mul_lt_mul_right ?_ hd.le
  calc a * f * d = a * d * f := by ring
    _ < c * b * f := mul_lt_mul_of_pos_right hac hf
    _ = c * f * b := by ring
    _ < e * d * b := mul_lt_mul_of_pos_right hce hb
    _ = e * b * d := by ring

protected theorem lt_trans {x y z : Binary64} (hxy : x.lt y = true) (hyz : y.lt z = true) :
    x.lt z = true := by
  rcases y with _ | t | ⟨t, n, f⟩
  · cases hyz
  · -- Nothing lies on both sides of an infinity.
    have hbelow : t = false := by rcases x with _ | s | _ <;> simp_all [lt]
    have habove : t = true := by rcases z with _ | u | _ <;> simp_all [lt]
    rw [hbelow] at habove
    cases habove
  · rcases x with _ | s | ⟨s, m, e⟩
    · cases hxy
    · rcases z with _ | u | _ <;> simp_all [lt]
    · rcases z with _ | u | ⟨u, k, g⟩
      · cases hyz
      · exact hyz
      · have hpos : ∀ (n : Nat) (e : Int), (0 : Int) < (scale n e).2 :=
          fun n e => Int.natCast_pos.2 (scale_pos n e)
        rw [lt_finite] at hxy hyz ⊢
        exact cross_lt_trans (hpos m e) (hpos n f) (hpos k g) hxy hyz

theorem zero_lt_finite {m : Nat} {e : Int} : zero.lt (.finite false m e) = true ↔ m ≠ 0 := by
  have hzero : (scale 0 leastExponent).1 = 0 := scale_eq_zero.2 rfl
  have hpos : (0 : Int) < (scale 0 leastExponent).2 := Int.natCast_pos.2 (scale_pos _ _)
  rw [zero, lt_finite, hzero]
  simp only [Bool.false_eq_true, if_false, Int.natCast_zero, zero_mul]
  rw [mul_pos_iff_of_pos_right hpos, Int.natCast_pos, Nat.pos_iff_ne_zero, Ne, scale_eq_zero]

theorem one_lt_finite {m k : Nat} :
    (ofInt 1).lt (.finite false m (-(k : Int))) = true ↔ 2 ^ k < m := by
  have hone : ofInt 1 = .finite false (2 ^ 52) (-(52 : Nat)) := by decide
  rw [hone, lt_finite, scale_neg, scale_neg]
  simp only [Bool.false_eq_true, if_false]
  rw [← Int.natCast_mul, ← Int.natCast_mul, Int.ofNat_lt, Nat.mul_comm m]
  exact Nat.mul_lt_mul_left (Nat.two_pow_pos 52)

/-- Twice a significand stands for the same number at the exponent below. -/
theorem lt_carry (x : Binary64) (m k : Nat) :
    x.lt (.finite false (2 * m) (-((k + 1 : Nat) : Int))) =
      x.lt (.finite false m (-(k : Int))) := by
  rcases x with _ | s | ⟨s, n, e⟩
  · rfl
  · rfl
  · rw [Bool.eq_iff_iff, lt_finite, lt_finite, scale_neg, scale_neg]
    simp only [Bool.false_eq_true, if_false]
    generalize (if s then -((scale n e).1 : Int) else (scale n e).1) = a
    push_cast
    rw [pow_succ]
    constructor <;> intro h <;> linarith

theorem roundDiv_le {p q k : Nat} (h : p ≤ k * q) : roundDiv p q ≤ k := by
  have hquotient : p / q ≤ k := Nat.div_le_of_le_mul (by rwa [Nat.mul_comm])
  unfold roundDiv
  dsimp only
  rcases Nat.lt_or_eq_of_le hquotient with hlt | heq
  · split
    · exact hlt
    · split <;> omega
  · -- The bound is met exactly, so there is nothing to round.
    have hmod : p % q = 0 := by
      have := Nat.div_add_mod p q
      rw [heq, Nat.mul_comm] at this
      omega
    rw [hmod, Nat.mul_zero, if_neg (Nat.not_lt_zero q)]
    split
    · rename_i hq
      rw [← hq, Nat.div_zero]
      exact Nat.zero_le k
    · exact hquotient

/-- Up to a half, ties included, is rounded to zero. -/
theorem roundDiv_ne_zero {p q : Nat} : roundDiv p q ≠ 0 ↔ q < 2 * p := by
  unfold roundDiv
  dsimp only
  rcases Nat.lt_or_ge p q with hlt | hge
  · rw [Nat.div_eq_of_lt hlt, Nat.mod_eq_of_lt hlt]
    split
    · omega
    · split <;> omega
  · rcases Nat.eq_zero_or_pos q with rfl | hq
    · rw [Nat.div_zero, Nat.mod_zero]
      split
      · omega
      · split <;> omega
    · have hquotient : 1 ≤ p / q := (Nat.one_le_div_iff hq).2 hge
      split
      · omega
      · split <;> omega

theorem exponentOf_le (n d : Nat) : exponentOf n d ≤ (n.log2 : Int) - d.log2 - 52 := by
  unfold exponentOf
  dsimp only
  split <;> omega

/-- A share compares like its quotient, rounded at some exponent. Unless the exponent is the least
one, the quotient is above one there and not rounded to zero. -/
theorem lt_ofRatio {n d : Nat} (h : n ≤ d) :
    ∃ k : Nat, k ≤ 1074 ∧ (k = 1074 ∨ d < n * 2 ^ k) ∧
      ∀ x : Binary64, x.lt (ofRatio false n d) =
        x.lt (.finite false (roundDiv (n * 2 ^ k) d) (-(k : Int))) := by
  rcases Nat.eq_zero_or_pos n with rfl | hpos
  · have hround : roundDiv (0 * 2 ^ 1074) d = 0 :=
      Nat.le_zero.1 (roundDiv_le (by rw [Nat.zero_mul, Nat.zero_mul]))
    refine ⟨1074, Nat.le_refl _, .inl rfl, fun x => ?_⟩
    rw [hround, ofRatio, if_pos rfl]
    rfl
  have hn : n ≠ 0 := Nat.ne_of_gt hpos
  have hlog : n.log2 ≤ d.log2 := (Nat.le_log2 (by omega)).2 ((Nat.log2_self_le hn).trans h)
  have hexponent := exponentOf_le n d
  obtain ⟨k, hk⟩ : ∃ k : Nat, max (exponentOf n d) leastExponent = -(k : Int) :=
    ⟨(-max (exponentOf n d) leastExponent).toNat, by unfold leastExponent; omega⟩
  obtain ⟨hhigh, hlow, hcover⟩ :
      52 ≤ k ∧ k ≤ 1074 ∧ (k = 1074 ∨ d.log2 + 1 ≤ n.log2 + k) := by
    unfold leastExponent at hk
    omega
  refine ⟨k, hlow, hcover.imp_right fun hsum => ?_, fun x => ?_⟩
  · calc d < 2 ^ (d.log2 + 1) := Nat.lt_log2_self
      _ ≤ 2 ^ (n.log2 + k) := Nat.pow_le_pow_right Nat.two_pos hsum
      _ = 2 ^ n.log2 * 2 ^ k := Nat.pow_add 2 _ _
      _ ≤ n * 2 ^ k := Nat.mul_le_mul_right _ (Nat.log2_self_le hn)
  · unfold ofRatio
    dsimp only
    rw [if_neg hn, hk, scale_neg]
    dsimp only
    split
    · rename_i hcarry
      obtain ⟨j, rfl⟩ : ∃ j, k = j + 1 := ⟨k - 1, by omega⟩
      have he : -((j + 1 : Nat) : Int) + 1 = -(j : Int) := by omega
      dsimp only
      rw [he, if_neg (by unfold greatestExponent; omega), hcarry, lt_carry]
    · dsimp only
      rw [if_neg (by unfold greatestExponent; omega)]

theorem zero_lt_ofRatio {n d : Nat} (h : n ≤ d) :
    zero.lt (ofRatio false n d) = true ↔ d < n * 2 ^ 1075 := by
  obtain ⟨k, hk, hcover, hlt⟩ := lt_ofRatio h
  rw [hlt, zero_lt_finite, roundDiv_ne_zero]
  rcases hcover with rfl | hcover
  · have hdouble : ∀ j, n * 2 ^ (j + 1) = 2 * (n * 2 ^ j) := by
      intro j
      rw [pow_succ]
      ring
    rw [← hdouble]
  · have hpow : n * 2 ^ k ≤ n * 2 ^ 1075 :=
      Nat.mul_le_mul_left n (pow_le_pow_right₀ one_le_two (by omega))
    exact iff_of_true (hcover.trans_le (Nat.le_mul_of_pos_left _ Nat.two_pos))
      (hcover.trans_le hpow)

theorem not_one_lt_ofRatio {n d : Nat} (h : n ≤ d) : (ofInt 1).lt (ofRatio false n d) = false := by
  obtain ⟨k, -, -, hlt⟩ := lt_ofRatio h
  rw [Bool.eq_false_iff, ne_eq, hlt, one_lt_finite, Nat.not_lt]
  apply roundDiv_le
  rw [Nat.mul_comm]
  exact Nat.mul_le_mul_left _ h

end Binary64

end ContractInference
