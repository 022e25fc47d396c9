import DocStore.Proofs.Double.Number

/-!
# Arithmetic of integers in doubles

A fraction is rounded by its value, however it is written (`ofRatio_mul_power`).  So integers of at
most 53 bits, which are doubles, are added and divided as integers, and the sum or the quotient is
rounded once (`add_ofInt`, `div_ofInt`).
-/

namespace DocStore.Double

open DocStore.Number

/-! ## Fractions -/

theorem log2_mul_power {n : Nat} (hn : n ≠ 0) (k : Nat) : (n * power 2 k).log2 = n.log2 + k := by
  rw [power_eq]
  induction k with
  | zero => rw [Nat.pow_zero, Nat.mul_one, Nat.add_zero]
  | succ k ih =>
      have hpos : n * 2 ^ k ≠ 0 := Nat.mul_ne_zero hn (Nat.two_pow_pos k).ne'
      rw [Nat.pow_succ', Nat.mul_left_comm, Nat.log2_two_mul hpos, ih, Nat.add_assoc]

/-- A fraction is rounded in the same way when both of its sides are shifted. -/
theorem ofRatio_mul_power (negative : Bool) (num : Nat) {den : Nat} (hden : den ≠ 0) (k : Nat) :
    ofRatio negative (num * power 2 k) (den * power 2 k) = ofRatio negative num den := by
  by_cases hnum : num = 0
  · rw [hnum, Nat.zero_mul, ofRatio, if_pos rfl, ofRatio, if_pos rfl]
  have hpos : 0 < power 2 k := power_two_pos k
  have hshifted : num * power 2 k ≠ 0 := Nat.mul_ne_zero hnum hpos.ne'
  have hguess : Int.ofNat (num * power 2 k).log2 - Int.ofNat (den * power 2 k).log2 - 53
      = Int.ofNat num.log2 - Int.ofNat den.log2 - 53 := by
    rw [log2_mul_power hnum, log2_mul_power hden]
    simp only [Int.ofNat_eq_natCast]
    omega
  have hdouble (r : Nat) : 2 * (r * power 2 k) = 2 * r * power 2 k := (Nat.mul_assoc _ _ _).symm
  have hlt (r d : Nat) : r * power 2 k < d * power 2 k ↔ r < d := Nat.mul_lt_mul_right hpos
  have heq (r d : Nat) : (r * power 2 k == d * power 2 k) = (r == d) := by
    rw [Bool.eq_iff_iff, beq_iff_eq, beq_iff_eq, Nat.mul_left_inj hpos.ne']
  unfold ofRatio
  rw [if_neg hnum, if_neg hshifted]
  simp only [hguess, Nat.mul_right_comm _ (power 2 k), Nat.mul_div_mul_right _ _ hpos,
    Nat.mul_mod_mul_right, hdouble, hlt, heq]

/-! ## Sums and quotients of integers -/

/-- A sum that is an integer is rounded as one.  It has no sign of its own if it is zero. -/
theorem add_eq_ofInt {a b : Double} {n : Int} (ha : a.isFinite = true) (hb : b.isFinite = true)
    (hunits : a.units + b.units = n * unitsOfOne)
    (hsign : n = 0 → (a.isNegative && b.isNegative) = false) : a.add b = ofInt n := by
  unfold add
  rw [isNaN_of_isFinite ha, isNaN_of_isFinite hb, isInfinite_of_isFinite ha,
    isInfinite_of_isFinite hb, hunits]
  simp only [Bool.false_eq_true, if_false]
  by_cases hzero : n = 0
  · rw [hsign hzero, hzero, Int.zero_mul, if_pos rfl]
    rfl
  · have hneg : n * (unitsOfOne : Int) < 0 * unitsOfOne ↔ n < 0 :=
      Int.mul_lt_mul_right unitsOfOne_pos
    rw [Int.zero_mul] at hneg
    have hshift := ofRatio_mul_power (decide (n < 0)) n.natAbs Nat.one_ne_zero 1074
    rw [Nat.one_mul] at hshift
    rw [if_neg (Int.mul_ne_zero hzero unitsOfOne_pos.ne'), decide_eq_decide.2 hneg,
      Int.natAbs_mul, Int.natAbs_natCast]
    exact hshift

/-- The sum of two integers is rounded once. -/
theorem add_ofInt {m n : Int} (hm : m.natAbs < 2 ^ 53) (hn : n.natAbs < 2 ^ 53) :
    (ofInt m).add (ofInt n) = ofInt (m + n) := by
  have hm' : m.natAbs < 2 ^ 64 := by omega
  have hn' : n.natAbs < 2 ^ 64 := by omega
  refine add_eq_ofInt (isFinite_ofInt hm') (isFinite_ofInt hn') ?_ fun hzero => ?_
  · rw [units_ofInt hm, units_ofInt hn, Int.add_mul]
  · rw [isNegative_ofInt hm', isNegative_ofInt hn', Bool.and_eq_false_iff,
      decide_eq_false_iff_not, decide_eq_false_iff_not]
    omega

/-- The negative zero adds nothing, not even its sign. -/
theorem negativeZero_add_ofInt {n : Int} (hn : n.natAbs < 2 ^ 53) :
    (ofMagnitude true 0).add (ofInt n) = ofInt n := by
  have hn' : n.natAbs < 2 ^ 64 := by omega
  have hunits : (ofMagnitude true 0).units = 0 := rfl
  refine add_eq_ofInt rfl (isFinite_ofInt hn') ?_ fun hzero => ?_
  · rw [hunits, units_ofInt hn, Int.zero_add]
  · rw [isNegative_ofInt hn', hzero, decide_eq_false (Int.lt_irrefl 0), Bool.and_false]

/-- The quotient of two integers is rounded once. -/
theorem div_ofInt {m : Int} {n : Nat} (hm : m.natAbs < 2 ^ 53) (hn : n < 2 ^ 53) (hpos : n ≠ 0) :
    (ofInt m).div (ofInt n) = ofRatio (m < 0) m.natAbs n := by
  have hm' : m.natAbs < 2 ^ 64 := by omega
  have hden : (n : Int).natAbs < 2 ^ 53 := hn
  have hn' : (n : Int).natAbs < 2 ^ 64 := by omega
  have hzero : (ofInt n).isZero = false := by
    rw [isZero, magnitude_ofInt hn', beq_eq_false_iff_ne, Ne, nearestMagnitude_eq_zero]
    exact hpos
  have hsign : ((ofInt m).isNegative != (ofInt n).isNegative) = decide (m < 0) := by
    have hnot : ¬ (n : Int) < 0 := by omega
    rw [isNegative_ofInt hm', isNegative_ofInt hn', decide_eq_false hnot, Bool.bne_false]
  unfold div
  rw [isNaN_ofInt hm', isNaN_ofInt hn', isInfinite_of_isFinite (isFinite_ofInt hm'),
    isInfinite_of_isFinite (isFinite_ofInt hn'), hzero, hsign, unitsAbs_ofInt hm,
    unitsAbs_ofInt hden, Int.natAbs_natCast, unitsOfOne]
  simp only [Bool.false_eq_true, if_false]
  exact ofRatio_mul_power _ _ hpos 1074

end DocStore.Double
