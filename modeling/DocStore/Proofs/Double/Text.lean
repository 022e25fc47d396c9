import DocStore.Proofs.Double.ReadBack
import Mathlib.Data.List.TakeWhile

/-!
# The text of a double

Positional notation is read back by `Decimal.reading`: the digits without the point, over a power
of ten for the places after it.  That gives the number that was written (`reading_positional`),
so two doubles with the same text have a decimal in common that reads back as both.

The main statement, `eq_of_text_eq`, says that doubles with the same text are the same, or both
no numbers.
-/

namespace DocStore

namespace Number.Decimal

/-- The fraction `num / den` is `coefficient * 10 ^ exponent`. -/
def Denotes (num den coefficient : Nat) (exponent : Int) : Prop :=
  num * 10 ^ (-exponent).toNat = coefficient * 10 ^ exponent.toNat * den

/-- The exponent may be split into any two powers, one on each side. -/
theorem denotes_iff {num den coefficient : Nat} {exponent : Int} (down up : Nat)
    (h : (up : Int) - down = exponent) :
    Denotes num den coefficient exponent ↔ num * 10 ^ down = coefficient * 10 ^ up * den := by
  obtain ⟨common, hdown, hup⟩ : ∃ common, down = (-exponent).toNat + common ∧
      up = exponent.toNat + common := ⟨down - (-exponent).toNat, by omega, by omega⟩
  have hpos : 0 < 10 ^ common := Nat.pow_pos (by decide)
  have hleft : num * 10 ^ down = num * 10 ^ (-exponent).toNat * 10 ^ common := by
    rw [hdown, Nat.pow_add, Nat.mul_assoc]
  have hright : coefficient * 10 ^ up * den
      = coefficient * 10 ^ exponent.toNat * den * 10 ^ common := by
    rw [hup, Nat.pow_add, ← Nat.mul_assoc, Nat.mul_right_comm]
  rw [hleft, hright, Nat.mul_left_inj (Nat.pos_iff_ne_zero.1 hpos)]
  rfl

/-- Zeros at the end of the coefficient may go to the exponent. -/
theorem denotes_mul_pow_iff {num den coefficient k : Nat} {exponent : Int} :
    Denotes num den (coefficient * 10 ^ k) exponent ↔
      Denotes num den coefficient (exponent + k) := by
  refine Iff.trans ?_ (denotes_iff (-exponent).toNat (exponent.toNat + k) (by omega)).symm
  rw [Denotes, Nat.pow_add, ← Nat.mul_assoc, Nat.mul_right_comm coefficient]

/-- Numerator and denominator of a number in positional notation. -/
def reading (cs : List Char) : Nat × Nat :=
  (Nat.ofDigitChars 10 (cs.filter (· != '.')) 0,
    10 ^ ((cs.dropWhile (· != '.')).length - 1))

/-- Digits alone are a whole number. -/
theorem reading_whole {cs : List Char} (h : '.' ∉ cs) :
    reading cs = (Nat.ofDigitChars 10 cs 0, 1) := by
  have hall : ∀ c ∈ cs, (c != '.') = true := by
    intro c hc
    exact bne_iff_ne.2 fun heq => h (heq ▸ hc)
  have hdrop : cs.dropWhile (· != '.') = [] := by
    rw [List.dropWhile_eq_nil_iff]
    exact hall
  rw [reading, List.filter_eq_self.2 hall, hdrop]
  rfl

/-- A point divides by a power of ten. -/
theorem reading_point {whole fraction : List Char} (hw : '.' ∉ whole) (hf : '.' ∉ fraction) :
    reading (whole ++ '.' :: fraction)
      = (Nat.ofDigitChars 10 (whole ++ fraction) 0, 10 ^ fraction.length) := by
  have hno {cs : List Char} (h : '.' ∉ cs) : cs.filter (· != '.') = cs :=
    List.filter_eq_self.2 fun c hc => bne_iff_ne.2 fun heq => h (heq ▸ hc)
  have hdrop : (whole ++ '.' :: fraction).dropWhile (· != '.') = '.' :: fraction := by
    rw [List.dropWhile_append_of_pos]
    · simp
    · intro c hc
      exact bne_iff_ne.2 fun heq => hw (heq ▸ hc)
  rw [reading, List.filter_append, hno hw, List.filter_cons_of_neg (by simp), hno hf, hdrop]
  rfl

theorem ne_point_of_mem_toDigits {n : Nat} {c : Char} (h : c ∈ Nat.toDigits 10 n) : c ≠ '.' := by
  intro hc
  have hdigit := Nat.isDigit_of_mem_toDigits (by decide) (by decide) h
  rw [hc] at hdigit
  cases hdigit

/-- A list ends with what is taken off its end. -/
theorem eq_append_zeros (cs : List Char) :
    ∃ k, cs = (cs.reverse.dropWhile (· == '0')).reverse ++ List.replicate k '0' := by
  refine ⟨(cs.reverse.takeWhile (· == '0')).length, ?_⟩
  have hzeros : cs.reverse.takeWhile (· == '0')
      = List.replicate (cs.reverse.takeWhile (· == '0')).length '0' := by
    rw [List.eq_replicate_iff]
    refine ⟨rfl, fun c hc => ?_⟩
    have hzero := List.mem_takeWhile_imp (p := (· == '0')) hc
    exact beq_iff_eq.1 hzero
  have hsplit := List.takeWhile_append_dropWhile (p := (· == '0')) (l := cs.reverse)
  have hreverse := congrArg List.reverse hsplit
  rw [List.reverse_append, List.reverse_reverse] at hreverse
  rw [← List.reverse_replicate, ← hzeros]
  exact hreverse.symm

/-- **Reading back.**  Positional notation denotes the number that is written. -/
theorem reading_positional (d : Decimal) :
    Denotes (reading d.positional.toList).1 (reading d.positional.toList).2 d.coefficient
      d.exponent := by
  unfold positional Denotes
  dsimp only
  by_cases hexp : 0 ≤ d.exponent
  · have hzero : (-d.exponent).toNat = 0 := by omega
    have hpoint : '.' ∉ Nat.toDigits 10 d.coefficient ++ List.replicate d.exponent.toNat '0' := by
      rw [List.mem_append, not_or]
      refine ⟨fun h => ne_point_of_mem_toDigits h rfl, fun h => ?_⟩
      cases List.eq_of_mem_replicate h
    rw [if_pos hexp, String.toList_ofList, reading_whole hpoint, hzero,
      Nat.ofDigitChars_append, Nat.ofDigitChars_ten_toDigits, Nat.ofDigitChars_replicate_zero,
      Nat.pow_zero, Nat.mul_one, Nat.mul_one, Nat.mul_comm]
  · rw [if_neg hexp, String.toList_ofList]
    have hzero : d.exponent.toNat = 0 := by omega
    generalize hplaces : (-d.exponent).toNat = places
    have hvalue : Nat.ofDigitChars 10 (List.replicate
        (places + 1 - (Nat.toDigits 10 d.coefficient).length) '0'
          ++ Nat.toDigits 10 d.coefficient) 0 = d.coefficient := by
      simp [Nat.ofDigitChars_append]
    have hpoint : '.' ∉ List.replicate
        (places + 1 - (Nat.toDigits 10 d.coefficient).length) '0'
          ++ Nat.toDigits 10 d.coefficient := by
      rw [List.mem_append, not_or]
      refine ⟨fun h => ?_, fun h => ne_point_of_mem_toDigits h rfl⟩
      cases List.eq_of_mem_replicate h
    have hlen : places + 1 ≤ (List.replicate
        (places + 1 - (Nat.toDigits 10 d.coefficient).length) '0'
          ++ Nat.toDigits 10 d.coefficient).length := by
      rw [List.length_append, List.length_replicate]
      omega
    generalize List.replicate (places + 1 - (Nat.toDigits 10 d.coefficient).length) '0'
      ++ Nat.toDigits 10 d.coefficient = digits at hvalue hpoint hlen ⊢
    -- The digits are the whole part, the fraction as it is written, and the zeros taken off.
    obtain ⟨k, hzeros⟩ := eq_append_zeros (digits.drop (digits.length - places))
    generalize hfraction : ((digits.drop (digits.length - places)).reverse.dropWhile
      (· == '0')).reverse = fraction at hzeros ⊢
    generalize hwhole : digits.take (digits.length - places) = whole
    have hdigits : digits = whole ++ (fraction ++ List.replicate k '0') := by
      rw [← hzeros, ← hwhole, List.take_append_drop]
    have hplace : fraction.length + k = places := by
      have hdrop := congrArg List.length hzeros
      rw [List.length_drop, List.length_append, List.length_replicate] at hdrop
      omega
    rw [hdigits, List.mem_append, List.mem_append, not_or, not_or] at hpoint
    have hreading : reading (if fraction.isEmpty = true then whole else whole ++ '.' :: fraction)
        = (Nat.ofDigitChars 10 (whole ++ fraction) 0, 10 ^ fraction.length) := by
      cases fraction with
      | nil => simpa using reading_whole hpoint.1
      | cons c rest => exact reading_point hpoint.1 hpoint.2.1
    have hcoefficient : 10 ^ k * Nat.ofDigitChars 10 (whole ++ fraction) 0 = d.coefficient := by
      rw [← hvalue, hdigits, ← List.append_assoc]
      generalize whole ++ fraction = written
      rw [Nat.ofDigitChars_append, Nat.ofDigitChars_replicate_zero]
    rw [hreading, hzero, ← hcoefficient, ← hplace, Nat.pow_zero, Nat.mul_one, Nat.pow_add,
      Nat.mul_comm (10 ^ k), Nat.mul_assoc, Nat.mul_comm (10 ^ k)]

/-- A number is written with digits and a point. -/
theorem mem_positional {d : Decimal} {c : Char} (h : c ∈ d.positional.toList) :
    c.isDigit = true ∨ c = '.' := by
  have hdigits {n k : Nat} (h : c ∈ List.replicate k '0' ++ Nat.toDigits 10 n) :
      c.isDigit = true := by
    rcases List.mem_append.1 h with h | h
    · rw [List.eq_of_mem_replicate h]
      rfl
    · exact Nat.isDigit_of_mem_toDigits (by decide) (by decide) h
  unfold positional at h
  dsimp only at h
  split at h
  · rw [String.toList_ofList, List.mem_append, or_comm, ← List.mem_append] at h
    exact .inl (hdigits h)
  · rw [String.toList_ofList] at h
    split at h
    · exact .inl (hdigits (List.mem_of_mem_take h))
    · rcases List.mem_append.1 h with h | h
      · exact .inl (hdigits (List.mem_of_mem_take h))
      · rcases List.mem_cons.1 h with h | h
        · exact .inr h
        · have hfraction := List.mem_reverse.1 h
          have hdrop := (List.dropWhile_sublist _).subset hfraction
          exact .inl (hdigits (List.mem_of_mem_drop (List.mem_reverse.1 hdrop)))

end Number.Decimal

namespace Double

open Number

/-- Reading back depends on the number alone. -/
theorem holds_of_eq {r : ReadBack} {num den num' den' : Nat} (hden : 0 < den) (hden' : 0 < den')
    (heq : num * den' = num' * den) (h : r.holds num den = true) : r.holds num' den' = true := by
  have hlow : r.low * den * den' = r.low * den' * den := Nat.mul_right_comm ..
  have hhigh : r.high * den * den' = r.high * den' * den := Nat.mul_right_comm ..
  have hnum : num * r.den * den' = num' * r.den * den := by
    rw [Nat.mul_right_comm, heq, Nat.mul_right_comm]
  unfold ReadBack.holds at h ⊢
  split
  next hclosed =>
    rw [if_pos hclosed, Bool.and_eq_true, decide_eq_true_iff, decide_eq_true_iff] at h
    rw [Bool.and_eq_true, decide_eq_true_iff, decide_eq_true_iff]
    refine ⟨Nat.le_of_mul_le_mul_right ?_ hden, Nat.le_of_mul_le_mul_right ?_ hden⟩
    · rw [← hlow, ← hnum]
      exact Nat.mul_le_mul_right den' h.1
    · rw [← hhigh, ← hnum]
      exact Nat.mul_le_mul_right den' h.2
  next hopen =>
    rw [if_neg hopen, Bool.and_eq_true, decide_eq_true_iff, decide_eq_true_iff] at h
    rw [Bool.and_eq_true, decide_eq_true_iff, decide_eq_true_iff]
    refine ⟨Nat.lt_of_mul_lt_mul_right (a := den) ?_, Nat.lt_of_mul_lt_mul_right (a := den) ?_⟩
    · rw [← hlow, ← hnum]
      exact Nat.mul_lt_mul_of_pos_right h.1 hden'
    · rw [← hhigh, ← hnum]
      exact Nat.mul_lt_mul_of_pos_right h.2 hden'

/-- A fraction that denotes the shortest decimal of a double reads back as the double. -/
theorem holds_of_denotes {d : Double} (hd : 0 < d.magnitude) {num den : Nat} (hden : 0 < den)
    (h : Decimal.Denotes num den d.shortest.coefficient d.shortest.exponent) :
    d.readBack.holds num den = true := by
  refine holds_of_eq ?_ hden ?_ (shortest_holds hd)
  · exact Nat.pow_pos (by decide)
  · exact h.symm

/-- A fraction denotes the shortest decimals of doubles of one magnitude only. -/
theorem magnitude_eq_of_denotes {a b : Double} {num den : Nat} (hden : 0 < den)
    (ha : Decimal.Denotes num den a.shortest.coefficient a.shortest.exponent)
    (hb : Decimal.Denotes num den b.shortest.coefficient b.shortest.exponent) :
    a.magnitude = b.magnitude := by
  have hzero {d e : Double} (hd : d.magnitude = 0)
      (hdenotes : Decimal.Denotes num den d.shortest.coefficient d.shortest.exponent)
      (he : Decimal.Denotes num den e.shortest.coefficient e.shortest.exponent) :
      e.magnitude = 0 := by
    have hshortest : d.shortest = ⟨0, 0⟩ := if_pos (beq_iff_eq.2 hd)
    have hnum : num = 0 := by
      rw [hshortest] at hdenotes
      simpa [Decimal.Denotes] using hdenotes
    rcases Nat.eq_zero_or_pos e.magnitude with hzero | hpos
    · exact hzero
    · have hholds := holds_of_denotes hpos hden he
      rw [hnum] at hholds
      exact magnitude_eq_zero_of_holds hholds hden
  rcases Nat.eq_zero_or_pos a.magnitude with hmagnitude | hmagnitude
  · rw [hmagnitude, hzero hmagnitude ha hb]
  · rcases Nat.eq_zero_or_pos b.magnitude with hmagnitude' | hmagnitude'
    · rw [hmagnitude', hzero hmagnitude' hb ha]
    · exact magnitude_eq_of_holds hden (holds_of_denotes hmagnitude hden ha)
        (holds_of_denotes hmagnitude' hden hb)

/-- The digits of a finite double determine its magnitude. -/
theorem magnitude_eq_of_positional_eq {a b : Double}
    (h : a.shortest.positional = b.shortest.positional) : a.magnitude = b.magnitude := by
  have hb := Decimal.reading_positional b.shortest
  rw [← h] at hb
  exact magnitude_eq_of_denotes (Nat.pow_pos (by decide)) (Decimal.reading_positional a.shortest) hb

/-- The bits of a double are its sign and its magnitude. -/
theorem eq_of_sign_of_magnitude {a b : Double} (hsign : a.isNegative = b.isNegative)
    (hmagnitude : a.magnitude = b.magnitude) : a = b := by
  have ha := a.bits.toNat_lt
  have hb := b.bits.toNat_lt
  have hbits : a.bits.toNat = b.bits.toNat := by
    have hbit : signBit = 9223372036854775808 := rfl
    have hiff := Bool.eq_iff_iff.1 hsign
    unfold isNegative at hiff
    unfold magnitude at hmagnitude
    rw [decide_eq_true_iff, decide_eq_true_iff, hbit] at hiff
    rw [hbit] at hmagnitude
    omega
  cases a
  cases b
  exact congrArg mk (UInt64.toNat_inj.1 hbits)

/-- The letter of a NaN is in no other text. -/
theorem mem_text_isNaN (d : Double) : 'N' ∈ d.text.toList ↔ d.isNaN = true := by
  unfold text
  split
  next h => simp [h]
  next h =>
    refine ⟨fun hmem => ?_, fun hnan => absurd hnan h⟩
    rw [String.toList_append, List.mem_append] at hmem
    rcases hmem with hmem | hmem
    · split at hmem
      · simp at hmem
      · simp at hmem
    · split at hmem
      · simp at hmem
      · rcases Decimal.mem_positional hmem with hdigit | hpoint
        · cases hdigit
        · cases hpoint

/-- The text of a number is its sign and its digits, or its name. -/
theorem text_of_number {d : Double} (h : d.isNaN = false) :
    d.text = (if d.isNegative then "-" else "")
      ++ if d.isInfinite then "inf" else d.shortest.positional := by
  rw [text, h, if_neg Bool.false_ne_true]

/-- Negative numbers, and no others, are written with a sign. -/
theorem mem_text_isNegative {d : Double} (h : d.isNaN = false) :
    '-' ∈ d.text.toList ↔ d.isNegative = true := by
  rw [text_of_number h, String.toList_append, List.mem_append]
  constructor
  · intro hmem
    rcases hmem with hmem | hmem
    · split at hmem
      next hneg => exact hneg
      next => simp at hmem
    · split at hmem
      · simp at hmem
      · rcases Decimal.mem_positional hmem with hdigit | hpoint
        · cases hdigit
        · cases hpoint
  · intro hneg
    simp [hneg]

/-- The letter of an infinity is in no text of digits. -/
theorem mem_text_isInfinite {d : Double} (h : d.isNaN = false) :
    'i' ∈ d.text.toList ↔ d.isInfinite = true := by
  rw [text_of_number h, String.toList_append, List.mem_append]
  constructor
  · intro hmem
    rcases hmem with hmem | hmem
    · split at hmem
      · simp at hmem
      · simp at hmem
    · split at hmem
      next hinf => exact hinf
      next =>
        rcases Decimal.mem_positional hmem with hdigit | hpoint
        · cases hdigit
        · cases hpoint
  · intro hinf
    simp [hinf]

/-- **Texts of doubles.**  Doubles with the same text are the same, or both no numbers. -/
theorem eq_of_text_eq {a b : Double} (h : a.text = b.text) :
    a = b ∨ a.isNaN = true ∧ b.isNaN = true := by
  have hnan : a.isNaN = true ↔ b.isNaN = true := by
    rw [← mem_text_isNaN, ← mem_text_isNaN, h]
  by_cases ha : a.isNaN = true
  · exact .inr ⟨ha, hnan.1 ha⟩
  · have hb : b.isNaN = false := Bool.eq_false_iff.2 fun hb => ha (hnan.2 hb)
    rw [Bool.not_eq_true] at ha
    have hsign : a.isNegative = b.isNegative := by
      rw [Bool.eq_iff_iff, ← mem_text_isNegative ha, ← mem_text_isNegative hb, h]
    have hinf : a.isInfinite = b.isInfinite := by
      rw [Bool.eq_iff_iff, ← mem_text_isInfinite ha, ← mem_text_isInfinite hb, h]
    refine .inl (eq_of_sign_of_magnitude hsign ?_)
    by_cases hinfinite : b.isInfinite = true
    · rw [hinfinite] at hinf
      exact (beq_iff_eq.1 hinf).trans (beq_iff_eq.1 hinfinite).symm
    · rw [text_of_number ha, text_of_number hb, hsign, hinf, if_neg hinfinite,
        if_neg hinfinite, String.append_right_inj] at h
      exact magnitude_eq_of_positional_eq h

end Double

end DocStore
