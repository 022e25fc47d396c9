import DocStore.Proofs.Double.Text
import Mathlib

/-!
# The number of a double

Counted in units of `2 ^ -1074` every double but a NaN denotes an integer or an infinity
(`number`).  The order of all patterns is the order of those numbers, and of the two zeros the
negative one comes first (`compareBits_eq`).

An integer of at most 64 bits rounds to a double whose magnitude is written out in
`nearestMagnitude`.  Rounding keeps the order of integers (`orderKey_ofInt_le`), never gives an
infinity, a NaN or a negative zero, and changes no integer of at most 53 bits
(`number_ofInt_of_lt`).
-/

namespace DocStore.Double

open DocStore.Number

/-! ## Units by magnitude -/

/-- The units of a finite double, by its magnitude. -/
def unitsOf (m : Nat) : Nat := significandOf m * 2 ^ scaleOf m

theorem unitsAbs_eq (d : Double) : d.unitsAbs = unitsOf d.magnitude := by
  have hscale : (d.exponent + 1074).toNat = scaleOf d.magnitude := by
    rw [exponent_eq]
    omega
  rw [unitsAbs, significand_eq, hscale, power_eq, unitsOf]

theorem unitsOf_zero : unitsOf 0 = 0 := rfl

/-- The units of a magnitude lie in the interval of its decimals. -/
theorem unitsOf_mem_interval (m : Nat) : lowEnd m ≤ 4 * unitsOf m ∧ 4 * unitsOf m < highEnd m := by
  rw [lowEnd, highEnd, unitsOf, ← Nat.mul_assoc]
  exact ⟨Nat.mul_le_mul_right _ (Nat.sub_le _ _),
    Nat.mul_lt_mul_of_pos_right (by omega) (Nat.two_pow_pos _)⟩

/-- A larger magnitude has more units: the intervals follow each other. -/
theorem unitsOf_lt {m n : Nat} (h : m < n) : unitsOf m < unitsOf n := by
  have hm := (unitsOf_mem_interval m).2
  have hn := (unitsOf_mem_interval n).1
  have hgap := highEnd_le_lowEnd h
  omega

/-! ## The number and the order of patterns -/

/-- The number that a double denotes, in units of `2 ^ -1074`.  A NaN denotes none, and is given
the infinity of its sign. -/
def number (d : Double) : WithBot (WithTop Int) :=
  if d.isFinite then ((d.units : WithTop Int) : WithBot (WithTop Int))
  else if d.isNegative then ⊥
  else ((⊤ : WithTop Int) : WithBot (WithTop Int))

/-- The zero with the sign bit set. -/
def isNegativeZero (d : Double) : Bool := d.isNegative && d.isZero

theorem unitsOfOne_pos : (0 : Int) < unitsOfOne := Int.ofNat_lt.2 (power_two_pos 1074)

theorem isFinite_iff (d : Double) : d.isFinite = true ↔ d.magnitude < infinityBits :=
  decide_eq_true_iff

theorem isNaN_of_isFinite {d : Double} (h : d.isFinite = true) : d.isNaN = false :=
  decide_eq_false (Nat.lt_asymm ((isFinite_iff d).1 h))

theorem isInfinite_of_isFinite {d : Double} (h : d.isFinite = true) : d.isInfinite = false :=
  beq_eq_false_iff_ne.2 (Nat.ne_of_lt ((isFinite_iff d).1 h))

theorem magnitude_le_of_isNaN {d : Double} (h : d.isNaN = false) : d.magnitude ≤ infinityBits :=
  Nat.le_of_not_lt (of_decide_eq_false h)

theorem number_of_isFinite {d : Double} (h : d.isFinite = true) :
    d.number = ((d.units : WithTop Int) : WithBot (WithTop Int)) :=
  if_pos h

theorem units_of_isNegative {d : Double} (h : d.isNegative = true) :
    d.units = -(unitsOf d.magnitude : Int) := by
  rw [units, if_pos h, unitsAbs_eq, Int.ofNat_eq_natCast]

theorem units_of_not_isNegative {d : Double} (h : d.isNegative = false) :
    d.units = (unitsOf d.magnitude : Int) := by
  rw [units, h, unitsAbs_eq]
  rfl

theorem orderKey_of_isNegative {d : Double} (h : d.isNegative = true) :
    d.orderKey = -(d.magnitude : Int) - 1 := by
  rw [orderKey, if_pos h, Int.ofNat_eq_natCast]

theorem orderKey_of_not_isNegative {d : Double} (h : d.isNegative = false) :
    d.orderKey = (d.magnitude : Int) := by
  rw [orderKey, h]
  rfl

/-- The place tells the patterns apart. -/
theorem orderKey_injective {a b : Double} (h : a.orderKey = b.orderKey) : a = b := by
  cases ha : a.isNegative <;> cases hb : b.isNegative
  · rw [orderKey_of_not_isNegative ha, orderKey_of_not_isNegative hb] at h
    exact eq_of_sign_of_magnitude (ha.trans hb.symm) (by omega)
  · rw [orderKey_of_not_isNegative ha, orderKey_of_isNegative hb] at h
    omega
  · rw [orderKey_of_isNegative ha, orderKey_of_not_isNegative hb] at h
    omega
  · rw [orderKey_of_isNegative ha, orderKey_of_isNegative hb] at h
    exact eq_of_sign_of_magnitude (ha.trans hb.symm) (by omega)

/-- Finite numbers, and those beyond them, by the place of their patterns. -/
theorem number_lt_of_orderKey_lt {a b : Double} (ha : a.isNaN = false) (hb : b.isNaN = false)
    (h : a.orderKey < b.orderKey) :
    a.number < b.number ∨
      a.number = b.number ∧ a.isNegativeZero = true ∧ b.isNegativeZero = false := by
  have hale := magnitude_le_of_isNaN ha
  have hble := magnitude_le_of_isNaN hb
  cases hna : a.isNegative <;> cases hnb : b.isNegative
  · -- Both positive: the smaller magnitude is finite.
    rw [orderKey_of_not_isNegative hna, orderKey_of_not_isNegative hnb] at h
    have hfa : a.isFinite = true := (isFinite_iff a).2 (by omega)
    left
    rw [number_of_isFinite hfa, units_of_not_isNegative hna, number]
    cases hfb : b.isFinite with
    | true =>
        have hlt := unitsOf_lt (Int.ofNat_lt.1 h)
        rw [if_pos rfl, units_of_not_isNegative hnb, WithBot.coe_lt_coe, WithTop.coe_lt_coe]
        exact Int.ofNat_lt.2 hlt
    | false =>
        simp only [hnb, Bool.false_eq_true, if_false]
        exact WithBot.coe_lt_coe.2 (WithTop.coe_lt_top _)
  · rw [orderKey_of_not_isNegative hna, orderKey_of_isNegative hnb] at h
    omega
  · -- Of different signs: only the zeros denote the same number.
    cases hfa : a.isFinite with
    | false =>
        left
        simp only [number, hfa, hna, hnb, Bool.false_eq_true, if_false, if_true]
        split <;> exact WithBot.bot_lt_coe _
    | true =>
        rw [number_of_isFinite hfa, units_of_isNegative hna]
        cases hfb : b.isFinite with
        | false =>
            left
            simp only [number, hfb, hnb, Bool.false_eq_true, if_false]
            exact WithBot.coe_lt_coe.2 (WithTop.coe_lt_top _)
        | true =>
            rw [number_of_isFinite hfb, units_of_not_isNegative hnb]
            by_cases hzero : a.magnitude = 0 ∧ b.magnitude = 0
            · right
              refine ⟨?_, ?_, ?_⟩
              · rw [hzero.1, hzero.2, unitsOf_zero]
                rfl
              · rw [isNegativeZero, hna, isZero, hzero.1]
                rfl
              · rw [isNegativeZero, hnb, Bool.false_and]
            · left
              have hsome : 0 < unitsOf a.magnitude ∨ 0 < unitsOf b.magnitude := by
                rcases Nat.eq_zero_or_pos a.magnitude with h0 | hpos
                · exact .inr (unitsOf_lt (by omega : 0 < b.magnitude))
                · exact .inl (unitsOf_lt hpos)
              rw [WithBot.coe_lt_coe, WithTop.coe_lt_coe]
              omega
  · -- Both negative: the smaller magnitude is the larger number.
    rw [orderKey_of_isNegative hna, orderKey_of_isNegative hnb] at h
    have hfb : b.isFinite = true := (isFinite_iff b).2 (by omega)
    left
    rw [number_of_isFinite hfb, units_of_isNegative hnb, number]
    cases hfa : a.isFinite with
    | true =>
        have hlt := unitsOf_lt (by omega : b.magnitude < a.magnitude)
        rw [if_pos rfl, units_of_isNegative hna, WithBot.coe_lt_coe, WithTop.coe_lt_coe]
        omega
    | false =>
        simp only [hna, Bool.false_eq_true, if_false, if_true]
        exact WithBot.bot_lt_coe _

/-- Two doubles that are numbers compare as numbers, and of equal ones the negative zero comes
first. -/
theorem compareBits_eq {a b : Double} (ha : a.isNaN = false) (hb : b.isNaN = false) :
    a.compareBits b
      = (compare a.number b.number).then (compare b.isNegativeZero a.isNegativeZero) := by
  unfold compareBits
  rcases Int.lt_trichotomy a.orderKey b.orderKey with hlt | heq | hgt
  · rw [compare_lt_iff_lt.2 hlt]
    rcases number_lt_of_orderKey_lt ha hb hlt with h | ⟨h, hza, hzb⟩
    · rw [compare_lt_iff_lt.2 h]
      rfl
    · rw [compare_eq_iff_eq.2 h, hza, hzb]
      rfl
  · rw [orderKey_injective heq, compare_eq_iff_eq.2 rfl, compare_eq_iff_eq.2 rfl,
      compare_eq_iff_eq.2 rfl]
    rfl
  · rw [compare_gt_iff_gt.2 hgt]
    rcases number_lt_of_orderKey_lt hb ha hgt with h | ⟨h, hzb, hza⟩
    · rw [compare_gt_iff_gt.2 h]
      rfl
    · rw [compare_eq_iff_eq.2 h.symm, hza, hzb]
      rfl

/-! ## The double nearest to an integer -/

/-- `num / den` rounded to an integer, a tie to the even one. -/
def roundHalfEven (num den : Nat) : Nat :=
  if 2 * (num % den) < den || (2 * (num % den) == den && num / den % 2 == 0) then num / den
  else num / den + 1

theorem roundHalfEven_bounds (num den : Nat) :
    num / den ≤ roundHalfEven num den ∧ roundHalfEven num den ≤ num / den + 1 := by
  unfold roundHalfEven
  split <;> omega

/-- Rounding keeps the order. -/
theorem roundHalfEven_mono {m n : Nat} (den : Nat) (h : m ≤ n) :
    roundHalfEven m den ≤ roundHalfEven n den := by
  rcases Nat.lt_or_eq_of_le (Nat.div_le_div_right (c := den) h) with hlt | heq
  · have hm := (roundHalfEven_bounds m den).2
    have hn := (roundHalfEven_bounds n den).1
    omega
  · -- Within one unit the remainders decide, and the parity is the same.
    have hrest : m % den ≤ n % den := by
      have hm := Nat.div_add_mod m den
      have hn := Nat.div_add_mod n den
      rw [heq] at hm
      omega
    unfold roundHalfEven
    rw [heq]
    simp only [Bool.or_eq_true, Bool.and_eq_true, decide_eq_true_eq, beq_iff_eq]
    split <;> split <;> omega

theorem roundHalfEven_one (num : Nat) : roundHalfEven num 1 = num := by
  simp [roundHalfEven, Nat.mod_one]

/-- Shifted so that its first bit has weight `2 ^ k`, an integer lies between that power and the
next. -/
theorem leading_bits {n : Nat} (hn : n ≠ 0) (k : Nat) :
    2 ^ k ≤ n * 2 ^ (k - n.log2) / 2 ^ (n.log2 - k) ∧
      n * 2 ^ (k - n.log2) / 2 ^ (n.log2 - k) < 2 ^ (k + 1) := by
  have hlow := Nat.mul_le_mul_right (2 ^ (k - n.log2)) (Nat.log2_self_le hn)
  have hhigh := Nat.mul_lt_mul_of_pos_right (@Nat.lt_log2_self n)
    (Nat.two_pow_pos (k - n.log2))
  have hshift : k + (n.log2 - k) = n.log2 + (k - n.log2) := by omega
  have hshift' : k + 1 + (n.log2 - k) = n.log2 + 1 + (k - n.log2) := by omega
  constructor
  · rw [Nat.le_div_iff_mul_le (Nat.two_pow_pos _), ← Nat.pow_add, hshift, Nat.pow_add]
    exact hlow
  · rw [Nat.div_lt_iff_lt_mul (Nat.two_pow_pos _), ← Nat.pow_add, hshift', Nat.pow_add]
    exact hhigh

/-- The significand nearest to a positive integer. -/
def nearestSignificand (n : Nat) : Nat :=
  roundHalfEven (n * 2 ^ (52 - n.log2)) (2 ^ (n.log2 - 52))

/-- The magnitude of the double nearest to an integer without sign. -/
def nearestMagnitude (n : Nat) : Nat :=
  if n = 0 then 0 else (n.log2 + 1022) * hiddenBit + nearestSignificand n

theorem hiddenBit_eq : hiddenBit = 2 ^ 52 := rfl

theorem nearestSignificand_bounds {n : Nat} (hn : n ≠ 0) :
    hiddenBit ≤ nearestSignificand n ∧ nearestSignificand n ≤ 2 * hiddenBit := by
  obtain ⟨hlow, hhigh⟩ := leading_bits hn 52
  obtain ⟨hle, hge⟩ := roundHalfEven_bounds (n * 2 ^ (52 - n.log2)) (2 ^ (n.log2 - 52))
  unfold nearestSignificand
  rw [hiddenBit_eq]
  omega

theorem log2_lt_64 {n : Nat} (h : n < 2 ^ 64) : n.log2 < 64 := by
  by_cases hn : n = 0
  · rw [hn]
    decide
  · exact (Nat.log2_lt hn).2 h

/-- The nearest double is far below the infinities. -/
theorem nearestMagnitude_lt {n : Nat} (h : n < 2 ^ 64) : nearestMagnitude n < infinityBits := by
  have hbits : infinityBits = 2047 * hiddenBit := rfl
  have hpos : hiddenBit = 4503599627370496 := rfl
  unfold nearestMagnitude
  split
  · decide
  · next hn =>
    have hlog := Nat.mul_le_mul_right hiddenBit (by have := log2_lt_64 h; omega :
      n.log2 + 1022 ≤ 1085)
    have hsig := (nearestSignificand_bounds hn).2
    omega

theorem nearestMagnitude_eq_zero {n : Nat} : nearestMagnitude n = 0 ↔ n = 0 := by
  unfold nearestMagnitude
  split
  · simpa
  · next hn =>
    have hsig := (nearestSignificand_bounds hn).1
    have hpos : 0 < hiddenBit := by decide
    omega

/-- Rounding keeps the order of integers without sign. -/
theorem nearestMagnitude_mono {m n : Nat} (h : m ≤ n) :
    nearestMagnitude m ≤ nearestMagnitude n := by
  by_cases hm : m = 0
  · rw [hm, nearestMagnitude_eq_zero.2 rfl]
    exact Nat.zero_le _
  · have hn : n ≠ 0 := by omega
    rw [nearestMagnitude, nearestMagnitude, if_neg hm, if_neg hn]
    have hlog : m.log2 ≤ n.log2 := (Nat.le_log2 hn).2 ((Nat.log2_self_le hm).trans h)
    rcases Nat.lt_or_eq_of_le hlog with hlt | heq
    · -- The larger integer has more bits: even rounding up stays within the next power of two.
      have hsm := (nearestSignificand_bounds hm).2
      have hsn := (nearestSignificand_bounds hn).1
      have hstep := Nat.mul_le_mul_right hiddenBit (by omega :
        m.log2 + 1022 + 1 ≤ n.log2 + 1022)
      rw [Nat.succ_mul] at hstep
      omega
    · unfold nearestSignificand
      rw [heq]
      exact Nat.add_le_add_left (roundHalfEven_mono _ (Nat.mul_le_mul_right _ h)) _

/-- The double nearest to an integer of at most 64 bits, written out. -/
theorem ofInt_eq {n : Int} (h : n.natAbs < 2 ^ 64) :
    ofInt n = ofMagnitude (n < 0) (nearestMagnitude n.natAbs) := by
  unfold ofInt ofRatio
  by_cases hzero : n.natAbs = 0
  · rw [if_pos hzero, nearestMagnitude, if_pos hzero]
  have hguess : max (-1074) (Int.ofNat n.natAbs.log2 - Int.ofNat (Nat.log2 1) - 53)
      = (n.natAbs.log2 : Int) - 53 := by
    have hone : Int.ofNat (Nat.log2 1) = 0 := by decide
    rw [hone]
    simp only [Int.ofNat_eq_natCast]
    omega
  have hup : (-((n.natAbs.log2 : Int) - 53)).toNat = 53 - n.natAbs.log2 := by omega
  have hdown : ((n.natAbs.log2 : Int) - 53).toNat = n.natAbs.log2 - 53 := by omega
  -- The guess has one bit too many.
  have hlarge : ¬ n.natAbs * 2 ^ (53 - n.natAbs.log2) / 2 ^ (n.natAbs.log2 - 53)
      < 2 * hiddenBit := by
    have hlow := (leading_bits hzero 53).1
    rw [hiddenBit_eq]
    omega
  have hup' : (-((n.natAbs.log2 : Int) - 53 + 1)).toNat = 52 - n.natAbs.log2 := by omega
  have hdown' : ((n.natAbs.log2 : Int) - 53 + 1).toNat = n.natAbs.log2 - 52 := by omega
  have hscale : ((n.natAbs.log2 : Int) - 53 + 1 + 1074).toNat = n.natAbs.log2 + 1022 := by omega
  have hfinite := nearestMagnitude_lt h
  rw [nearestMagnitude, if_neg hzero] at hfinite ⊢
  simp only [if_neg hzero, hguess, power_eq, Nat.one_mul, hup, hdown, if_neg hlarge, hup', hdown',
    hscale]
  exact if_neg (Nat.not_le_of_lt hfinite)

theorem isNegative_ofMagnitude {negative : Bool} {m : Nat} (h : m < signBit) :
    (ofMagnitude negative m).isNegative = negative := by
  have hbit : signBit = 9223372036854775808 := rfl
  rw [hbit] at h
  cases negative
  · simp only [isNegative, ofMagnitude, Bool.false_eq_true, if_false, UInt64.toNat_ofNat', hbit]
    exact decide_eq_false (by omega)
  · simp only [isNegative, ofMagnitude, if_true, UInt64.toNat_ofNat', hbit]
    exact decide_eq_true (by omega)

theorem magnitude_ofMagnitude {negative : Bool} {m : Nat} (h : m < signBit) :
    (ofMagnitude negative m).magnitude = m := by
  have hbit : signBit = 9223372036854775808 := rfl
  rw [hbit] at h
  cases negative <;>
    simp only [magnitude, ofMagnitude, Bool.false_eq_true, if_false, if_true,
      UInt64.toNat_ofNat', hbit] <;>
    omega

section Integers

variable {m n : Int} (hm : m.natAbs < 2 ^ 64) (hn : n.natAbs < 2 ^ 64)

include hn

theorem nearestMagnitude_lt_signBit : nearestMagnitude n.natAbs < signBit :=
  Nat.lt_trans (nearestMagnitude_lt hn) (by decide)

theorem magnitude_ofInt : (ofInt n).magnitude = nearestMagnitude n.natAbs := by
  rw [ofInt_eq hn, magnitude_ofMagnitude (nearestMagnitude_lt_signBit hn)]

theorem isNegative_ofInt : (ofInt n).isNegative = decide (n < 0) := by
  rw [ofInt_eq hn, isNegative_ofMagnitude (nearestMagnitude_lt_signBit hn)]

theorem isFinite_ofInt : (ofInt n).isFinite = true := by
  rw [isFinite_iff, magnitude_ofInt hn]
  exact nearestMagnitude_lt hn

theorem isNaN_ofInt : (ofInt n).isNaN = false := isNaN_of_isFinite (isFinite_ofInt hn)

/-- An integer has no negative zero. -/
theorem isNegativeZero_ofInt : (ofInt n).isNegativeZero = false := by
  rw [isNegativeZero, isNegative_ofInt hn, isZero, magnitude_ofInt hn]
  by_cases hneg : n < 0
  · have hpos : nearestMagnitude n.natAbs ≠ 0 := by
      rw [Ne, nearestMagnitude_eq_zero]
      omega
    rw [beq_false_of_ne hpos, Bool.and_false]
  · rw [decide_eq_false hneg, Bool.false_and]

theorem orderKey_ofInt :
    (ofInt n).orderKey = if n < 0 then -(nearestMagnitude n.natAbs : Int) - 1
      else nearestMagnitude n.natAbs := by
  unfold orderKey
  rw [isNegative_ofInt hn, magnitude_ofInt hn]
  simp only [decide_eq_true_eq, Int.ofNat_eq_natCast]

include hm in
/-- Rounding keeps the order of integers. -/
theorem orderKey_ofInt_le (h : m ≤ n) : (ofInt m).orderKey ≤ (ofInt n).orderKey := by
  rw [orderKey_ofInt hm, orderKey_ofInt hn]
  by_cases hmneg : m < 0 <;> by_cases hnneg : n < 0
  · have hmono := nearestMagnitude_mono (by omega : n.natAbs ≤ m.natAbs)
    rw [if_pos hmneg, if_pos hnneg]
    omega
  · rw [if_pos hmneg, if_neg hnneg]
    omega
  · omega
  · have hmono := nearestMagnitude_mono (by omega : m.natAbs ≤ n.natAbs)
    rw [if_neg hmneg, if_neg hnneg]
    omega

end Integers

/-- The units of the nearest double are exact where the shift leaves nothing to round. -/
theorem unitsOf_nearestMagnitude {n : Nat} (hn : n < 2 ^ 53) :
    unitsOf (nearestMagnitude n) = n * unitsOfOne := by
  by_cases hzero : n = 0
  · rw [hzero, Nat.zero_mul]
    rfl
  have hlog : n.log2 ≤ 52 := by
    have := (Nat.log2_lt hzero).2 hn
    omega
  have hlow := (nearestSignificand_bounds hzero).1
  have hhigh := (leading_bits hzero 52).2
  have hsig : nearestSignificand n = n * 2 ^ (52 - n.log2) := by
    rw [nearestSignificand, Nat.sub_eq_zero_of_le hlog, Nat.pow_zero, roundHalfEven_one]
  rw [Nat.sub_eq_zero_of_le hlog, Nat.pow_zero, Nat.div_one, ← hsig] at hhigh
  have hform : nearestMagnitude n
      = (n.log2 + 1022 + 1) * hiddenBit + (nearestSignificand n - hiddenBit) := by
    rw [nearestMagnitude, if_neg hzero, Nat.succ_mul (n.log2 + 1022)]
    omega
  obtain ⟨hs, hk, -⟩ := @parts_of_normal (n.log2 + 1022) (nearestSignificand n - hiddenBit)
    (by rw [hiddenBit_eq]; omega)
  have hshift : 52 - n.log2 + (n.log2 + 1022) = 1074 := by omega
  rw [unitsOf, hform, hs, hk, Nat.add_sub_cancel' hlow, hsig, Nat.mul_assoc, ← Nat.pow_add]
  exact congrArg (fun k => n * power 2 k) hshift

/-- An integer of at most 53 bits keeps its units without sign. -/
theorem unitsAbs_ofInt {n : Int} (hn : n.natAbs < 2 ^ 53) :
    (ofInt n).unitsAbs = n.natAbs * unitsOfOne := by
  rw [unitsAbs_eq, magnitude_ofInt (by omega), unitsOf_nearestMagnitude hn]

/-- An integer of at most 53 bits keeps its units. -/
theorem units_ofInt {n : Int} (hn : n.natAbs < 2 ^ 53) : (ofInt n).units = n * unitsOfOne := by
  rw [units, isNegative_ofInt (by omega), unitsAbs_ofInt hn]
  simp only [decide_eq_true_eq, Int.ofNat_eq_natCast, Int.natCast_mul]
  split
  next hneg =>
    have habs : (n.natAbs : Int) = -n := by omega
    rw [habs, Int.neg_mul, Int.neg_neg]
  next hneg =>
    have habs : (n.natAbs : Int) = n := by omega
    rw [habs]

/-- An integer of at most 53 bits is the number of its double. -/
theorem number_ofInt_of_lt {n : Int} (hn : n.natAbs < 2 ^ 53) :
    (ofInt n).number = (((n * unitsOfOne : Int) : WithTop Int) : WithBot (WithTop Int)) := by
  rw [number_of_isFinite (isFinite_ofInt (by omega)), units_ofInt hn]

end DocStore.Double
