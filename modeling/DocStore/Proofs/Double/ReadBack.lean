import DocStore.Double.Shortest
import Mathlib.Algebra.Group.Nat.Defs

/-!
# Decimals that read back as a double

The finite doubles without sign are numbered by their magnitudes.  Counted in quarters of the
smallest positive double, the decimals that read back as the double of magnitude `m` lie between
`lowEnd m` and `highEnd m`, and `highEnd m = lowEnd (m + 1)`: the intervals follow each other
without gaps.  Both ends belong to a double with an even magnitude and none to one with an odd
magnitude, so no decimal reads back as two doubles (`magnitude_eq_of_holds`).

Seventeen digits are always enough (`shortest_holds`): the grid of that many digits has a step
of at most `10 ^ -16` of the double, and the nearest point of it is off by half a step.
-/

namespace DocStore.Double

open DocStore.Number

theorem power_eq (base n : Nat) : power base n = base ^ n := rfl

/-! ## Intervals by magnitude -/

/-- The significand of a magnitude. -/
def significandOf (m : Nat) : Nat := if m < hiddenBit then m else hiddenBit + m % hiddenBit

/-- The exponent of a magnitude, counted from the smallest one. -/
def scaleOf (m : Nat) : Nat := if m < hiddenBit then 0 else m / hiddenBit - 1

/-- The gap to the double below, in quarters of the last bit, halved. -/
def gapOf (m : Nat) : Nat := if significandOf m = hiddenBit ∧ 0 < scaleOf m then 1 else 2

/-- The lower end of the decimals that read back, in quarters of the smallest double. -/
def lowEnd (m : Nat) : Nat := (4 * significandOf m - gapOf m) * 2 ^ scaleOf m

/-- The upper end of the decimals that read back. -/
def highEnd (m : Nat) : Nat := (4 * significandOf m + 2) * 2 ^ scaleOf m

/-- Below the first normal double magnitude and significand agree. -/
theorem parts_of_lt {m : Nat} (h : m < hiddenBit) :
    significandOf m = m ∧ scaleOf m = 0 ∧ gapOf m = 2 := by
  refine ⟨if_pos h, if_pos h, ?_⟩
  simp [gapOf, scaleOf, h]

/-- From the first normal double on a magnitude is a scale and the bits below the hidden one. -/
theorem parts_of_normal {q r : Nat} (hr : r < hiddenBit) :
    significandOf ((q + 1) * hiddenBit + r) = hiddenBit + r ∧
      scaleOf ((q + 1) * hiddenBit + r) = q ∧
      gapOf ((q + 1) * hiddenBit + r) = if r = 0 ∧ 0 < q then 1 else 2 := by
  have hpos : 0 < hiddenBit := by decide
  have hbig : ¬ (q + 1) * hiddenBit + r < hiddenBit := by
    rw [Nat.succ_mul]
    omega
  have hsig : significandOf ((q + 1) * hiddenBit + r) = hiddenBit + r := by
    rw [significandOf, if_neg hbig, Nat.mul_comm, Nat.mul_add_mod, Nat.mod_eq_of_lt hr]
  have hscale : scaleOf ((q + 1) * hiddenBit + r) = q := by
    rw [scaleOf, if_neg hbig, Nat.mul_comm, Nat.mul_add_div hpos, Nat.div_eq_of_lt hr]
    omega
  refine ⟨hsig, hscale, ?_⟩
  rw [gapOf, hsig, hscale]
  simp

/-- A magnitude is below the first normal double or has a scale. -/
theorem normal_cases (m : Nat) :
    m < hiddenBit ∨ ∃ q r, r < hiddenBit ∧ m = (q + 1) * hiddenBit + r := by
  by_cases h : m < hiddenBit
  · exact .inl h
  · have hpos : 0 < hiddenBit := by decide
    have hq : 0 < m / hiddenBit := Nat.div_pos (by omega) hpos
    refine .inr ⟨m / hiddenBit - 1, m % hiddenBit, Nat.mod_lt _ hpos, ?_⟩
    rw [Nat.sub_add_cancel hq, Nat.mul_comm]
    exact (Nat.div_add_mod m hiddenBit).symm

/-- The parity of a magnitude is that of its significand. -/
theorem significandOf_mod_two (m : Nat) : significandOf m % 2 = m % 2 := by
  have heven : hiddenBit % 2 = 0 := by decide
  rcases normal_cases m with hm | ⟨q, r, hr, rfl⟩
  · rw [(parts_of_lt hm).1]
  · rw [(parts_of_normal hr).1, Nat.add_mod, heven, Nat.add_mod ((q + 1) * hiddenBit),
      Nat.mul_mod, heven]
    simp

theorem significandOf_lt (m : Nat) : significandOf m < 2 * hiddenBit := by
  rcases normal_cases m with hm | ⟨q, r, hr, rfl⟩
  · rw [(parts_of_lt hm).1]
    omega
  · rw [(parts_of_normal hr).1]
    omega

theorem significandOf_pos {m : Nat} (hm : 0 < m) : 0 < significandOf m := by
  have hpos : 0 < hiddenBit := by decide
  rcases normal_cases m with hlt | ⟨q, r, hr, rfl⟩
  · rwa [(parts_of_lt hlt).1]
  · rw [(parts_of_normal hr).1]
    omega

/-- The interval of a double ends where that of the next one starts. -/
theorem highEnd_eq_lowEnd_succ (m : Nat) : highEnd m = lowEnd (m + 1) := by
  have hpos : 0 < hiddenBit := by decide
  unfold highEnd lowEnd
  rcases normal_cases m with hm | ⟨q, r, hr, rfl⟩
  · obtain ⟨hs, hk, -⟩ := parts_of_lt hm
    rw [hs, hk]
    by_cases hnext : m + 1 < hiddenBit
    · obtain ⟨hs', hk', hg'⟩ := parts_of_lt hnext
      rw [hs', hk', hg']
      omega
    · -- The next double is the first normal one.
      have hfirst : m + 1 = (0 + 1) * hiddenBit + 0 := by omega
      obtain ⟨hs', hk', hg'⟩ := @parts_of_normal 0 0 hpos
      rw [hfirst, hs', hk', hg']
      simp
      omega
  · obtain ⟨hs, hk, -⟩ := @parts_of_normal q r hr
    rw [hs, hk]
    by_cases hnext : r + 1 < hiddenBit
    · obtain ⟨hs', hk', hg'⟩ := @parts_of_normal q (r + 1) hnext
      rw [Nat.add_assoc, hs', hk', hg', if_neg (by omega)]
      congr 1
    · -- The next double is a power of two, and the gap below it is half as wide.
      have hpower : (q + 1) * hiddenBit + r + 1 = (q + 1 + 1) * hiddenBit + 0 := by
        rw [Nat.succ_mul (q + 1)]
        omega
      obtain ⟨hs', hk', hg'⟩ := @parts_of_normal (q + 1) 0 hpos
      rw [hpower, hs', hk', hg', if_pos ⟨rfl, Nat.succ_pos q⟩, Nat.pow_succ, Nat.mul_comm (2 ^ q),
        ← Nat.mul_assoc]
      congr 1
      omega

theorem lowEnd_lt_highEnd (m : Nat) : lowEnd m < highEnd m := by
  unfold lowEnd highEnd
  exact Nat.mul_lt_mul_of_pos_right (by omega) (Nat.two_pow_pos _)

/-- The intervals of larger doubles lie above. -/
theorem highEnd_le_lowEnd {m n : Nat} (h : m < n) : highEnd m ≤ lowEnd n := by
  induction n with
  | zero => omega
  | succ n ih =>
      rcases Nat.lt_succ_iff_lt_or_eq.1 h with hlt | rfl
      · have hbelow := ih hlt
        have hwidth := lowEnd_lt_highEnd n
        rw [← highEnd_eq_lowEnd_succ]
        omega
      · exact Nat.le_of_eq (highEnd_eq_lowEnd_succ m)

/-- Doubles that are no neighbours have a gap between their intervals. -/
theorem highEnd_lt_lowEnd {m n : Nat} (h : m + 1 < n) : highEnd m < lowEnd n := by
  have hstep := highEnd_le_lowEnd h
  have hwidth := lowEnd_lt_highEnd (m + 1)
  rw [highEnd_eq_lowEnd_succ]
  omega

/-! ## The interval of a double -/

/-- The number of quarters of the smallest double in one. -/
def quartersOfOne : Nat := 4 * unitsOfOne

theorem significand_eq (d : Double) : d.significand = significandOf d.magnitude := rfl

/-- The exponent is the scale, counted from the exponent of the smallest double. -/
theorem exponent_eq (d : Double) : d.exponent = (scaleOf d.magnitude : Int) - 1074 := by
  unfold exponent scaleOf
  have hpos : 0 < hiddenBit := by decide
  by_cases hm : d.magnitude < hiddenBit
  · rw [if_pos hm, if_pos hm]
    rfl
  · have hq : 0 < d.magnitude / hiddenBit := Nat.div_pos (by omega) hpos
    rw [if_neg hm, if_neg hm, Int.ofNat_eq_natCast]
    omega

theorem power_mul_power {a b c e : Nat} (h : a + b = c + e) :
    power 2 a * power 2 b = power 2 c * power 2 e := by
  simp only [power_eq, ← Nat.pow_add, h]

/-- The last bit of a double in quarters of the smallest one. -/
theorem power_exponent_mul (d : Double) :
    power 2 d.exponent.toNat * quartersOfOne
      = power 2 (scaleOf d.magnitude) * (4 * power 2 (-d.exponent).toNat) := by
  have hsum : d.exponent.toNat + 1074 = scaleOf d.magnitude + (-d.exponent).toNat := by
    have hexp := exponent_eq d
    omega
  rw [quartersOfOne, unitsOfOne, Nat.mul_left_comm, power_mul_power hsum, Nat.mul_left_comm]

theorem readBack_den (d : Double) : d.readBack.den = 4 * power 2 (-d.exponent).toNat := rfl

theorem readBack_den_pos (d : Double) : 0 < d.readBack.den := by
  rw [readBack_den]
  exact Nat.mul_pos (by decide) (Nat.two_pow_pos _)

theorem readBack_mid (d : Double) :
    d.readBack.mid = 4 * d.significand * power 2 d.exponent.toNat := rfl

theorem readBack_low (d : Double) :
    d.readBack.low = (4 * d.significand - gapOf d.magnitude) * power 2 d.exponent.toNat := by
  have hgap : (if d.significand == hiddenBit && -1074 < d.exponent then 1 else 2)
      = gapOf d.magnitude := by
    have hiff : -1074 < d.exponent ↔ 0 < scaleOf d.magnitude := by
      rw [exponent_eq]
      omega
    simp [gapOf, significand_eq, hiff]
  rw [← hgap]
  rfl

theorem readBack_high (d : Double) :
    d.readBack.high = (4 * d.significand + 2) * power 2 d.exponent.toNat := rfl

theorem readBack_closed (d : Double) : d.readBack.closed = true ↔ d.magnitude % 2 = 0 := by
  rw [← significandOf_mod_two, ← significand_eq]
  exact beq_iff_eq

/-- The lower end in quarters of the smallest double. -/
theorem readBack_low_mul (d : Double) :
    d.readBack.low * quartersOfOne = lowEnd d.magnitude * d.readBack.den := by
  rw [readBack_low, readBack_den, lowEnd, significand_eq, Nat.mul_assoc, power_exponent_mul,
    Nat.mul_assoc, power_eq 2 (scaleOf _)]

/-- The upper end in quarters of the smallest double. -/
theorem readBack_high_mul (d : Double) :
    d.readBack.high * quartersOfOne = highEnd d.magnitude * d.readBack.den := by
  rw [readBack_high, readBack_den, highEnd, significand_eq, Nat.mul_assoc, power_exponent_mul,
    Nat.mul_assoc, power_eq 2 (scaleOf _)]

theorem power_two_pos (n : Nat) : 0 < power 2 n := Nat.two_pow_pos n

theorem quartersOfOne_pos : 0 < quartersOfOne := by
  rw [quartersOfOne, unitsOfOne]
  exact Nat.mul_pos (by decide) (power_two_pos _)

/-- Two fractions are compared alike in both units. -/
theorem compare_units {a b c q : Nat} (hc : 0 < c) (hq : 0 < q) (hunits : a * q = b * c)
    (x y : Nat) : (a * y ≤ x * c ↔ b * y ≤ x * q) ∧ (x * c ≤ a * y ↔ x * q ≤ b * y) := by
  have hleft : a * y * q = b * y * c := by
    rw [Nat.mul_right_comm, hunits, Nat.mul_right_comm]
  have hright : x * c * q = x * q * c := Nat.mul_right_comm x c q
  refine ⟨?_, ?_⟩
  · rw [← Nat.mul_le_mul_right_iff hq, hleft, hright, Nat.mul_le_mul_right_iff hc]
  · rw [← Nat.mul_le_mul_right_iff hq, hleft, hright, Nat.mul_le_mul_right_iff hc]

/-- What reads back as a double lies between the ends of its interval, and at an end only if the
magnitude is even. -/
theorem readBack_holds_iff (d : Double) (num den : Nat) :
    d.readBack.holds num den = true ↔
      if d.magnitude % 2 = 0 then
        lowEnd d.magnitude * den ≤ num * quartersOfOne ∧
          num * quartersOfOne ≤ highEnd d.magnitude * den
      else
        lowEnd d.magnitude * den < num * quartersOfOne ∧
          num * quartersOfOne < highEnd d.magnitude * den := by
  obtain ⟨hlow, hlow'⟩ := compare_units (readBack_den_pos d) quartersOfOne_pos
    (readBack_low_mul d) num den
  obtain ⟨hhigh, hhigh'⟩ := compare_units (readBack_den_pos d) quartersOfOne_pos
    (readBack_high_mul d) num den
  unfold ReadBack.holds
  by_cases heven : d.magnitude % 2 = 0
  · rw [if_pos ((readBack_closed d).2 heven), if_pos heven, Bool.and_eq_true, decide_eq_true_iff,
      decide_eq_true_iff, hlow, hhigh']
  · have hopen : ¬ d.readBack.closed = true := fun h => heven ((readBack_closed d).1 h)
    rw [if_neg hopen, if_neg heven, Bool.and_eq_true, decide_eq_true_iff, decide_eq_true_iff,
      ← Nat.not_le, ← Nat.not_le, hlow', hhigh, Nat.not_le, Nat.not_le]

/-- **Unique reading.**  No decimal reads back as two doubles. -/
theorem magnitude_eq_of_holds {a b : Double} {num den : Nat} (hden : 0 < den)
    (ha : a.readBack.holds num den = true) (hb : b.readBack.holds num den = true) :
    a.magnitude = b.magnitude := by
  have hapart {a b : Double} (ha : a.readBack.holds num den = true)
      (hb : b.readBack.holds num den = true) : ¬ a.magnitude < b.magnitude := by
    intro hlt
    rw [readBack_holds_iff] at ha hb
    have hends : highEnd a.magnitude * den ≤ lowEnd b.magnitude * den :=
      Nat.mul_le_mul_right den (highEnd_le_lowEnd hlt)
    by_cases hea : a.magnitude % 2 = 0
    · rw [if_pos hea] at ha
      by_cases heb : b.magnitude % 2 = 0
      · -- Two doubles with even magnitudes are no neighbours.
        rw [if_pos heb] at hb
        have hgap : highEnd a.magnitude * den < lowEnd b.magnitude * den :=
          Nat.mul_lt_mul_of_pos_right (highEnd_lt_lowEnd (by omega)) hden
        omega
      · rw [if_neg heb] at hb
        omega
    · rw [if_neg hea] at ha
      by_cases heb : b.magnitude % 2 = 0
      · rw [if_pos heb] at hb
        omega
      · rw [if_neg heb] at hb
        omega
  have hab := hapart ha hb
  have hba := hapart hb ha
  omega

/-- Zero reads back as no double but zero. -/
theorem magnitude_eq_zero_of_holds {d : Double} {den : Nat} (h : d.readBack.holds 0 den = true)
    (hden : 0 < den) : d.magnitude = 0 := by
  refine Decidable.byContradiction fun hne => ?_
  have hlow : 0 < lowEnd d.magnitude := by
    have hsig := significandOf_pos (Nat.pos_of_ne_zero hne)
    have hgap : gapOf d.magnitude ≤ 2 := by
      unfold gapOf
      split <;> decide
    exact Nat.mul_pos (by omega) (Nat.two_pow_pos _)
  have hpos : 0 < lowEnd d.magnitude * den := Nat.mul_pos hlow hden
  rw [readBack_holds_iff, Nat.zero_mul] at h
  by_cases heven : d.magnitude % 2 = 0
  · rw [if_pos heven] at h
    omega
  · rw [if_neg heven] at h
    omega

/-! ## Grids of decimals -/

theorem lt_pow_digitCount (n : Nat) : n < 10 ^ digitCount n :=
  (Nat.length_toDigits_le_iff (by decide) Nat.length_toDigits_pos).1 (Nat.le_refl _)

theorem pow_digitCount_le {n : Nat} (hn : 0 < n) : 10 ^ (digitCount n - 1) ≤ n := by
  by_cases hone : digitCount n - 1 = 0
  · rw [hone]
    exact hn
  · refine Nat.not_lt.1 fun hlt => ?_
    have hle := (Nat.length_toDigits_le_iff (by decide) (by omega)).2 hlt
    unfold digitCount at hle hone
    omega

/-- The first digit of a fraction stands before its point place. -/
theorem pointPlace_le {num den : Nat} (hnum : 0 < num) (hden : 0 < den) :
    den * 10 ^ (pointPlace num den - 1).toNat ≤ num * 10 ^ (1 - pointPlace num den).toNat := by
  unfold pointPlace
  split
  next hge =>
    have hquot : 0 < num / den := Nat.div_pos hge hden
    have hcount : 0 < digitCount (num / den) := Nat.length_toDigits_pos
    have hplace : ((digitCount (num / den) : Int) - 1).toNat = digitCount (num / den) - 1 := by
      omega
    have hzero : (1 - (digitCount (num / den) : Int)).toNat = 0 := by omega
    rw [hplace, hzero, Nat.pow_zero, Nat.mul_one]
    exact Nat.le_trans (Nat.mul_le_mul_left den (pow_digitCount_le hquot))
      (Nat.mul_div_le num den)
  next hlt =>
    have hzero : (1 - Int.ofNat (digitCount ((den + num - 1) / num - 1)) - 1).toNat = 0 := by
      rw [Int.ofNat_eq_natCast]
      omega
    have hplace : (1 - (1 - Int.ofNat (digitCount ((den + num - 1) / num - 1)))).toNat
        = digitCount ((den + num - 1) / num - 1) := by
      rw [Int.ofNat_eq_natCast]
      omega
    rw [hzero, hplace, Nat.pow_zero, Nat.mul_one]
    -- The quotient is rounded up, so that it is not below `den / num`.
    have hup : den ≤ num * ((den + num - 1) / num) := by
      have hmod := Nat.mod_lt (den + num - 1) hnum
      have hdiv := Nat.div_add_mod (den + num - 1) num
      omega
    have hpow := lt_pow_digitCount ((den + num - 1) / num - 1)
    exact Nat.le_trans hup (Nat.mul_le_mul_left num (by omega))

/-- The step of the grid of seventeen digits is small against the number. -/
theorem grid_step_le {num den : Nat} (hnum : 0 < num) (hden : 0 < den) :
    den * power 10 (pointPlace num den - 17).toNat * 10 ^ 16
      ≤ num * power 10 (-(pointPlace num den - 17)).toNat := by
  have hplace := pointPlace_le hnum hden
  generalize pointPlace num den = place at hplace
  -- Both sides of the bound on the point place are multiplied by what is missing.
  obtain ⟨k, hleft, hright⟩ : ∃ k, (place - 1).toNat + k = (place - 17).toNat + 16 ∧
      (1 - place).toNat + k = (-(place - 17)).toNat := by
    refine ⟨(-(place - 17)).toNat - (1 - place).toNat, ?_, ?_⟩ <;> omega
  have hscaled := Nat.mul_le_mul_right (10 ^ k) hplace
  rw [Nat.mul_assoc, ← Nat.pow_add, hleft, Nat.mul_assoc, ← Nat.pow_add, hright] at hscaled
  rwa [power_eq, power_eq, Nat.mul_assoc, ← Nat.pow_add]

/-- What is strictly inside the interval reads back. -/
theorem holds_of_lt {r : ReadBack} {num den : Nat} (hlow : r.low * den < num * r.den)
    (hhigh : num * r.den < r.high * den) : r.holds num den = true := by
  unfold ReadBack.holds
  split
  · simp [Nat.le_of_lt hlow, Nat.le_of_lt hhigh]
  · simp [hlow, hhigh]

/-- The decimal that a grid gives reads back. -/
theorem onGrid?_holds {r : ReadBack} {digits : Nat} {c : Decimal}
    (h : onGrid? r digits = some c) :
    r.holds (c.coefficient * power 10 c.exponent.toNat) (power 10 (-c.exponent).toNat) = true := by
  unfold onGrid? at h
  dsimp only at h
  split at h
  next hbelow habove =>
    cases h
    dsimp only
    split
    · exact hbelow
    · exact habove
  next hbelow _ =>
    cases h
    exact hbelow
  next _ habove =>
    cases h
    exact habove
  next => cases h

/-- Some point of a grid reads back if one of the two around the double does. -/
theorem onGrid?_ne_none {r : ReadBack} {digits : Nat}
    (h : ∃ c, (c = r.mid * power 10 (-(pointPlace r.mid r.den - digits)).toNat
          / (r.den * power 10 (pointPlace r.mid r.den - digits).toNat) ∨
        c = r.mid * power 10 (-(pointPlace r.mid r.den - digits)).toNat
          / (r.den * power 10 (pointPlace r.mid r.den - digits).toNat) + 1) ∧
      r.holds (c * power 10 (pointPlace r.mid r.den - digits).toNat)
        (power 10 (-(pointPlace r.mid r.den - digits)).toNat) = true) :
    onGrid? r digits ≠ none := by
  intro hnone
  unfold onGrid? at hnone
  dsimp only at hnone
  split at hnone
  · cases hnone
  · cases hnone
  · cases hnone
  next hbelow habove =>
    obtain ⟨c, rfl | rfl, hc⟩ := h
    · rw [Int.ofNat_eq_natCast, hc] at hbelow
      cases hbelow
    · rw [Int.ofNat_eq_natCast, hc] at habove
      cases habove

/-- With a small step one of the two multiples around a number `4 * s * w` is inside its
interval: the nearer one is off by half a step at most. -/
theorem nearer_multiple {s gap w step : Nat} (hs : s < 2 * hiddenBit)
    (hgap : gap = 2 ∨ gap = 1 ∧ s = hiddenBit) (hw : 0 < w) (hpos : 0 < s) (hstep : 0 < step)
    (hsmall : step * 10 ^ 16 ≤ 4 * s * w) :
    ∃ c, (c = 4 * s * w / step ∨ c = 4 * s * w / step + 1) ∧
      (4 * s - gap) * w < c * step ∧ c * step < (4 * s + 2) * w := by
  have hbit : hiddenBit = 4503599627370496 := rfl
  have hlow : (4 * s - gap) * w = 4 * s * w - gap * w := Nat.sub_mul ..
  have hhigh : (4 * s + 2) * w = 4 * s * w + 2 * w := Nat.add_mul ..
  have hproduct : 4 * s * w = 4 * (s * w) := Nat.mul_assoc ..
  have hbound : s * w ≤ 9007199254740991 * w := Nat.mul_le_mul_right w (by omega)
  have hgapw : gap * w = 2 * w ∨ gap * w = w ∧ s * w = 4503599627370496 * w := by
    rcases hgap with rfl | ⟨rfl, rfl⟩
    · exact .inl rfl
    · exact .inr ⟨Nat.one_mul w, by rw [hbit]⟩
  have hsw : 0 < s * w := Nat.mul_pos hpos hw
  rw [hlow, hhigh]
  generalize 4 * s * w = number at hsmall hproduct ⊢
  have hdiv := Nat.div_add_mod number step
  have hmod := Nat.mod_lt number hstep
  by_cases hnear : 2 * (number % step) < step
  · refine ⟨number / step, .inl rfl, ?_⟩
    rw [Nat.mul_comm (number / step)]
    omega
  · refine ⟨number / step + 1, .inr rfl, ?_⟩
    rw [Nat.succ_mul, Nat.mul_comm (number / step)]
    omega

theorem gapOf_cases (m : Nat) : gapOf m = 2 ∨ gapOf m = 1 ∧ significandOf m = hiddenBit := by
  unfold gapOf
  split
  next h => exact .inr ⟨rfl, h.1⟩
  next => exact .inl rfl

/-- **Seventeen digits.**  The grid of seventeen digits has a point that reads back. -/
theorem onGrid?_seventeen {d : Double} (hd : 0 < d.magnitude) :
    onGrid? d.readBack 17 ≠ none := by
  have hsig : 0 < d.significand := significandOf_pos hd
  have hmid : 0 < d.readBack.mid := by
    rw [readBack_mid]
    exact Nat.mul_pos (by omega) (power_two_pos _)
  have hstep := grid_step_le hmid (readBack_den_pos d)
  refine onGrid?_ne_none ?_
  rw [show ((17 : Nat) : Int) = 17 from rfl]
  generalize pointPlace d.readBack.mid d.readBack.den - 17 = e at hstep ⊢
  let up := power 10 (-e).toNat
  let w := power 2 d.exponent.toNat * up
  have hup : 0 < up := Nat.pow_pos (by decide)
  have hw : 0 < w := Nat.mul_pos (power_two_pos _) hup
  have hpos : 0 < d.readBack.den * power 10 e.toNat :=
    Nat.mul_pos (readBack_den_pos d) (Nat.pow_pos (by decide))
  have hnum : d.readBack.mid * up = 4 * d.significand * w := by
    rw [readBack_mid, Nat.mul_assoc]
  rw [hnum] at hstep
  obtain ⟨c, hc, hlow, hhigh⟩ := nearer_multiple (significandOf_lt d.magnitude)
    (gapOf_cases d.magnitude) hw hsig hpos hstep
  have hpoint : c * power 10 e.toNat * d.readBack.den
      = c * (d.readBack.den * power 10 e.toNat) := by
    rw [Nat.mul_assoc, Nat.mul_comm (power 10 _)]
  refine ⟨c, ?_, holds_of_lt ?_ ?_⟩
  · rw [hnum]
    exact hc
  · rw [hpoint, readBack_low, Nat.mul_assoc]
    exact hlow
  · rw [hpoint, readBack_high, Nat.mul_assoc]
    exact hhigh

/-- The shortest decimal of a double reads back. -/
theorem shortest_holds {d : Double} (hd : 0 < d.magnitude) :
    d.readBack.holds (d.shortest.coefficient * power 10 d.shortest.exponent.toNat)
      (power 10 (-d.shortest.exponent).toNat) = true := by
  have hnonzero : ¬ d.isZero = true := by
    rw [isZero, beq_iff_eq]
    omega
  obtain ⟨c, hc⟩ :
      ∃ c, (List.range 17).findSome? (fun n => onGrid? d.readBack (n + 1)) = some c := by
    rw [← Option.ne_none_iff_exists', Ne, List.findSome?_eq_none_iff]
    intro hall
    exact onGrid?_seventeen hd (hall 16 (by decide))
  obtain ⟨n, -, hn⟩ := List.exists_of_findSome?_eq_some hc
  have hshortest : d.shortest = c := by
    rw [shortest, if_neg hnonzero]
    simp only [hc, Option.getD_some]
  rw [hshortest]
  exact onGrid?_holds hn

end DocStore.Double
