import DocStore.Json.Writer
import DocStore.Proofs.Double.Text
import DocStore.Proofs.Number.Integer

/-!
# The numbers of JSON

A finite double is written with a point, with an exponent, or with both.  Each of these forms
denotes the shortest decimal of the double (`denotes_body`), so that finite doubles with the same
text are the same (`doubleText_injective`).  A point or an exponent also tells a double from an
integer. -/

namespace DocStore

namespace Number.Decimal

/-- Numerator and denominator of a number in positional notation with or without an exponent. -/
def readingWithExponent (cs : List Char) : Nat × Nat :=
  let mantissa := reading (cs.takeWhile (· != 'e'))
  let exponent := ofIntText ((cs.dropWhile (· != 'e')).drop 1)
  (mantissa.1 * 10 ^ exponent.toNat, mantissa.2 * 10 ^ (-exponent).toNat)

theorem readingWithExponent_plain {cs : List Char} (h : 'e' ∉ cs) :
    readingWithExponent cs = reading cs := by
  have hall : ∀ c ∈ cs, (c != 'e') = true := by
    intro c hc
    exact bne_iff_ne.2 fun heq => h (heq ▸ hc)
  have htake : cs.takeWhile (· != 'e') = cs := List.takeWhile_eq_self_iff.2 hall
  have hdrop : cs.dropWhile (· != 'e') = [] := List.dropWhile_eq_nil_iff.2 hall
  rw [readingWithExponent, htake, hdrop]
  simp [ofIntText]

theorem readingWithExponent_exponent {cs : List Char} (h : 'e' ∉ cs) (n : Int) :
    readingWithExponent (cs ++ 'e' :: (intText n).toList)
      = ((reading cs).1 * 10 ^ n.toNat, (reading cs).2 * 10 ^ (-n).toNat) := by
  have hall : ∀ c ∈ cs, (c != 'e') = true := by
    intro c hc
    exact bne_iff_ne.2 fun heq => h (heq ▸ hc)
  have htake : (cs ++ 'e' :: (intText n).toList).takeWhile (· != 'e') = cs := by
    rw [List.takeWhile_append_of_pos hall]
    simp
  have hdrop : (cs ++ 'e' :: (intText n).toList).dropWhile (· != 'e')
      = 'e' :: (intText n).toList := by
    rw [List.dropWhile_append_of_pos hall]
    simp
  rw [readingWithExponent, htake, hdrop, List.drop_one, List.tail_cons, ofIntText_intText]

end Number.Decimal

namespace Json

open Number Number.Decimal

/-- The digits of a decimal without the zeros at their end. -/
def significantDigits (d : Decimal) : List Char :=
  ((Nat.toDigits 10 d.coefficient).reverse.dropWhile (· == '0')).reverse

/-- The place of the point, counted from the first digit. -/
def pointOf (d : Decimal) : Int := d.exponent + Int.ofNat (digitCount d.coefficient)

/-- Digits with a point at some place, in the form that is written. -/
def body (digits : List Char) (point : Int) : List Char :=
  if digits.isEmpty then ['0', '.', '0']
  else if Int.ofNat digits.length ≤ point && point ≤ 16 then
    digits ++ List.replicate (point - Int.ofNat digits.length).toNat '0' ++ ['.', '0']
  else if 0 < point && point ≤ 16 then
    digits.take point.toNat ++ '.' :: digits.drop point.toNat
  else if -5 < point && point ≤ 0 then
    ['0', '.'] ++ List.replicate (-point).toNat '0' ++ digits
  else if digits.length = 1 then digits ++ 'e' :: (intText (point - 1)).toList
  else digits.take 1 ++ '.' :: digits.drop 1 ++ 'e' :: (intText (point - 1)).toList

/-- The text of a double is its sign and its digits. -/
theorem toList_doubleText (d : Double) :
    (doubleText d).toList = (if d.isNegative then ['-'] else [])
      ++ body (significantDigits d.shortest) (pointOf d.shortest) := by
  show (if (significantDigits d.shortest).isEmpty then String.ofList _
    else String.ofList _).toList = _
  rw [apply_ite String.toList, String.toList_ofList, String.toList_ofList, body]
  split <;> rfl

section Body

variable {digits : List Char} {point : Int}

/-- The digits of a number are neither a point nor the letter of an exponent. -/
theorem not_mem_of_digits {c : Char} (hc : c.isDigit = false)
    (h : ∀ d ∈ digits, d.isDigit = true) : c ∉ digits := by
  intro hmem
  rw [h c hmem] at hc
  cases hc

theorem isDigit_of_mem_zeros {k : Nat} {c : Char} (h : c ∈ List.replicate k '0') :
    c.isDigit = true := by
  rw [List.eq_of_mem_replicate h]
  rfl

/-- A number with a point and no exponent. -/
theorem readingWithExponent_point {whole fraction : List Char}
    (hwhole : ∀ c ∈ whole, c.isDigit = true) (hfraction : ∀ c ∈ fraction, c.isDigit = true) :
    readingWithExponent (whole ++ '.' :: fraction)
      = (Nat.ofDigitChars 10 (whole ++ fraction) 0, 10 ^ fraction.length) := by
  have hletter : 'e' ∉ whole ++ '.' :: fraction := by
    rw [List.mem_append, List.mem_cons, not_or, not_or]
    exact ⟨not_mem_of_digits rfl hwhole, by decide, not_mem_of_digits rfl hfraction⟩
  rw [readingWithExponent_plain hletter, reading_point (not_mem_of_digits rfl hwhole)
    (not_mem_of_digits rfl hfraction)]

/-- **The forms of a number.**  The digits with a point at some place are written in a form that
denotes their number. -/
theorem denotes_body (h : ∀ c ∈ digits, c.isDigit = true) :
    Denotes (readingWithExponent (body digits point)).1 (readingWithExponent (body digits point)).2
      (Nat.ofDigitChars 10 digits 0) (point - digits.length) := by
  unfold body
  split
  next hempty =>
    rw [List.isEmpty_iff.1 hempty]
    show (0 : Nat) * _ = 0 * _ * _
    simp
  next hdigits =>
    have hpos : 0 < digits.length := List.length_pos_iff.2 fun hnil => hdigits (by simp [hnil])
    have htake : ∀ n, ∀ c ∈ digits.take n, c.isDigit = true :=
      fun n c hc => h c (List.mem_of_mem_take hc)
    have hdrop : ∀ n, ∀ c ∈ digits.drop n, c.isDigit = true :=
      fun n c hc => h c (List.mem_of_mem_drop hc)
    split
    next hwhole =>
      simp only [Bool.and_eq_true, decide_eq_true_eq, Int.ofNat_eq_natCast] at hwhole
      have hzeros : ∀ c ∈ digits ++ List.replicate (point - Int.ofNat digits.length).toNat '0',
          c.isDigit = true := by
        intro c hc
        rcases List.mem_append.1 hc with hc | hc
        · exact h c hc
        · exact isDigit_of_mem_zeros hc
      rw [readingWithExponent_point hzeros (List.forall_mem_singleton.2 rfl),
        denotes_iff 0 (point - digits.length).toNat (by omega), Nat.ofDigitChars_append,
        Nat.ofDigitChars_append, Nat.ofDigitChars_replicate_zero]
      simp [Nat.ofDigitChars_cons, Nat.mul_comm]
    next hnotWhole =>
      simp only [Bool.and_eq_true, decide_eq_true_eq, Int.ofNat_eq_natCast] at hnotWhole
      split
      next hmiddle =>
        simp only [Bool.and_eq_true, decide_eq_true_eq] at hmiddle
        rw [readingWithExponent_point (htake _) (hdrop _), List.take_append_drop, List.length_drop,
          denotes_iff (digits.length - point.toNat) 0 (by omega), Nat.pow_zero, Nat.mul_one]
      next =>
        split
        next hsmall =>
          simp only [Bool.and_eq_true, decide_eq_true_eq] at hsmall
          have hfraction : ∀ c ∈ List.replicate (-point).toNat '0' ++ digits,
              c.isDigit = true := by
            intro c hc
            rcases List.mem_append.1 hc with hc | hc
            · exact isDigit_of_mem_zeros hc
            · exact h c hc
          have hform : ['0', '.'] ++ List.replicate (-point).toNat '0' ++ digits
              = ['0'] ++ '.' :: (List.replicate (-point).toNat '0' ++ digits) := rfl
          rw [hform, readingWithExponent_point (List.forall_mem_singleton.2 rfl) hfraction,
            denotes_iff (List.replicate (-point).toNat '0' ++ digits).length 0
              (by simp; omega), Nat.pow_zero, Nat.mul_one]
          simp [Nat.ofDigitChars_append, Nat.ofDigitChars_cons]
        next =>
          split
          next hone =>
            rw [readingWithExponent_exponent (not_mem_of_digits rfl h),
              reading_whole (not_mem_of_digits rfl h), hone,
              denotes_iff (-(point - 1)).toNat (point - 1).toNat (by omega), Nat.one_mul]
          next =>
            have hletter : 'e' ∉ digits.take 1 ++ '.' :: digits.drop 1 := by
              rw [List.mem_append, List.mem_cons, not_or, not_or]
              exact ⟨not_mem_of_digits rfl (htake 1), by decide, not_mem_of_digits rfl (hdrop 1)⟩
            rw [readingWithExponent_exponent hletter,
              reading_point (not_mem_of_digits rfl (htake 1)) (not_mem_of_digits rfl (hdrop 1)),
              List.take_append_drop, List.length_drop,
              denotes_iff (digits.length - 1 + (-(point - 1)).toNat) (point - 1).toNat (by omega),
              Nat.pow_add]

/-- A number without its sign starts with a digit. -/
theorem body_eq_cons (h : ∀ c ∈ digits, c.isDigit = true) :
    ∃ c rest, body digits point = c :: rest ∧ c.isDigit = true := by
  cases digits with
  | nil => exact ⟨'0', ['.', '0'], rfl, rfl⟩
  | cons first others =>
      have hfirst := h first List.mem_cons_self
      unfold body
      rw [if_neg (by simp)]
      split
      · exact ⟨first, _, rfl, hfirst⟩
      · split
        next hmiddle =>
          simp only [Bool.and_eq_true, decide_eq_true_eq] at hmiddle
          obtain ⟨n, hn⟩ : ∃ n, point.toNat = n + 1 := ⟨point.toNat - 1, by omega⟩
          rw [hn]
          exact ⟨first, _, rfl, hfirst⟩
        next =>
          split
          · exact ⟨'0', _, rfl, rfl⟩
          · split
            · exact ⟨first, _, rfl, hfirst⟩
            · exact ⟨first, _, rfl, hfirst⟩

/-- A number without its sign has a point or an exponent. -/
theorem mem_body : '.' ∈ body digits point ∨ 'e' ∈ body digits point := by
  unfold body
  split
  · exact .inl (by decide)
  · split
    · exact .inl (by simp)
    · split
      · exact .inl (by simp)
      · split
        · exact .inl (by simp)
        · split
          · exact .inr (by simp)
          · exact .inr (by simp)

/-- The characters of a number. -/
def IsNumberChar (c : Char) : Prop := c.isDigit = true ∨ c ∈ ['-', '.', 'e']

instance : DecidablePred IsNumberChar := fun c =>
  inferInstanceAs (Decidable (c.isDigit = true ∨ c ∈ ['-', '.', 'e']))

/-- A number is written with digits, a point, signs and the letter of an exponent. -/
theorem isNumberChar_of_mem_body (h : ∀ c ∈ digits, c.isDigit = true) :
    ∀ c ∈ body digits point, IsNumberChar c := by
  have hdigits : ∀ c ∈ digits, IsNumberChar c := fun c hc => .inl (h c hc)
  have htake : ∀ n, ∀ c ∈ digits.take n, IsNumberChar c :=
    fun n c hc => hdigits c (List.mem_of_mem_take hc)
  have hdrop : ∀ n, ∀ c ∈ digits.drop n, IsNumberChar c :=
    fun n c hc => hdigits c (List.mem_of_mem_drop hc)
  have hzeros : ∀ k, ∀ c ∈ List.replicate k '0', IsNumberChar c :=
    fun k c hc => .inl (isDigit_of_mem_zeros hc)
  have hexponent : ∀ c ∈ (intText (point - 1)).toList, IsNumberChar c := by
    intro c hc
    rcases mem_intText hc with hdigit | rfl
    · exact .inl hdigit
    · exact .inr (by decide)
  have hpoint : IsNumberChar '.' := .inr (by decide)
  have hletter : IsNumberChar 'e' := .inr (by decide)
  have hzero : IsNumberChar '0' := .inl rfl
  unfold body
  split
  · simp [hzero, hpoint]
  · split
    · simp only [List.forall_mem_append, List.forall_mem_cons]
      exact ⟨⟨hdigits, hzeros _⟩, hpoint, hzero, by simp⟩
    · split
      · simp only [List.forall_mem_append, List.forall_mem_cons]
        exact ⟨htake _, hpoint, hdrop _⟩
      · split
        · simp only [List.forall_mem_append, List.forall_mem_cons]
          exact ⟨⟨⟨hzero, hpoint, by simp⟩, hzeros _⟩, hdigits⟩
        · split
          · simp only [List.forall_mem_append, List.forall_mem_cons]
            exact ⟨hdigits, hletter, hexponent⟩
          · simp only [List.forall_mem_append, List.forall_mem_cons]
            exact ⟨⟨htake _, hpoint, hdrop _⟩, hletter, hexponent⟩

end Body

/-! ## Texts of doubles -/

theorem isDigit_of_mem_significantDigits {d : Decimal} :
    ∀ c ∈ significantDigits d, c.isDigit = true := by
  intro c hc
  have hdrop := (List.dropWhile_sublist _).subset (List.mem_reverse.1 hc)
  exact isDigit_of_mem_toDigits (List.mem_reverse.1 hdrop)

/-- What is written for a decimal denotes the decimal. -/
theorem denotes_decimal (d : Decimal) :
    Denotes (readingWithExponent (body (significantDigits d) (pointOf d))).1
      (readingWithExponent (body (significantDigits d) (pointOf d))).2
      d.coefficient d.exponent := by
  obtain ⟨k, hk⟩ := eq_append_zeros (Nat.toDigits 10 d.coefficient)
  have hcoefficient : d.coefficient = Nat.ofDigitChars 10 (significantDigits d) 0 * 10 ^ k := by
    have hread : Nat.ofDigitChars 10 (Nat.toDigits 10 d.coefficient) 0 = d.coefficient :=
      Nat.ofDigitChars_ten_toDigits
    rw [hk, Nat.ofDigitChars_append, Nat.ofDigitChars_replicate_zero, Nat.mul_comm] at hread
    exact hread.symm
  have hpoint : pointOf d - (significantDigits d).length = d.exponent + k := by
    have hlength := congrArg List.length hk
    rw [List.length_append, List.length_replicate] at hlength
    unfold pointOf digitCount
    rw [hlength]
    show d.exponent + (((significantDigits d).length + k : Nat) : Int) - _ = _
    omega
  have hbody := @denotes_body _ (pointOf d) (@isDigit_of_mem_significantDigits d)
  rw [hpoint, ← denotes_mul_pow_iff, ← hcoefficient] at hbody
  exact hbody

theorem readingWithExponent_pos (cs : List Char) : 0 < (readingWithExponent cs).2 :=
  Nat.mul_pos (Nat.pow_pos (by decide)) (Nat.pow_pos (by decide))

/-- **Texts of doubles.**  Doubles with the same text are the same. -/
theorem doubleText_injective {a b : Double} (h : doubleText a = doubleText b) : a = b := by
  have hlist := congrArg String.toList h
  rw [toList_doubleText, toList_doubleText] at hlist
  obtain ⟨c, rest, hbodyA, hc⟩ := @body_eq_cons _ (pointOf a.shortest)
    (@isDigit_of_mem_significantDigits a.shortest)
  obtain ⟨c', rest', hbodyB, hc'⟩ := @body_eq_cons _ (pointOf b.shortest)
    (@isDigit_of_mem_significantDigits b.shortest)
  have hsame : a.isNegative = b.isNegative ∧
      body (significantDigits a.shortest) (pointOf a.shortest)
        = body (significantDigits b.shortest) (pointOf b.shortest) := by
    cases ha : a.isNegative with
    | true =>
        cases hb : b.isNegative with
        | true =>
            rw [ha, hb] at hlist
            exact ⟨rfl, List.append_cancel_left hlist⟩
        | false =>
            rw [ha, hb, hbodyB] at hlist
            cases hlist
            cases hc'
    | false =>
        cases hb : b.isNegative with
        | true =>
            rw [ha, hb, hbodyA] at hlist
            cases hlist
            cases hc
        | false =>
            rw [ha, hb] at hlist
            exact ⟨rfl, hlist⟩
  have hdenotes := denotes_decimal b.shortest
  rw [← hsame.2] at hdenotes
  exact Double.eq_of_sign_of_magnitude hsame.1
    (Double.magnitude_eq_of_denotes (readingWithExponent_pos _) (denotes_decimal a.shortest)
      hdenotes)

/-- Doubles are written with the characters of numbers. -/
theorem isNumberChar_of_mem_doubleText {d : Double} :
    ∀ c ∈ (doubleText d).toList, IsNumberChar c := by
  rw [toList_doubleText, List.forall_mem_append]
  refine ⟨fun c hc => ?_, isNumberChar_of_mem_body isDigit_of_mem_significantDigits⟩
  split at hc
  · exact .inr (by rw [List.mem_singleton.1 hc]; decide)
  · cases hc

/-- Integers are written with the characters of numbers. -/
theorem isNumberChar_of_mem_intText {n : Int} : ∀ c ∈ (intText n).toList, IsNumberChar c := by
  intro c hc
  rcases mem_intText hc with hdigit | rfl
  · exact .inl hdigit
  · exact .inr (by decide)

/-- A double is not written as an integer is. -/
theorem doubleText_ne_intText (d : Double) (n : Int) : doubleText d ≠ intText n := by
  intro heq
  have hmem : '.' ∈ (doubleText d).toList ∨ 'e' ∈ (doubleText d).toList := by
    rw [toList_doubleText, List.mem_append, List.mem_append]
    exact mem_body.imp .inr .inr
  rw [heq] at hmem
  rcases hmem with hmem | hmem
  · exact absurd (mem_intText hmem) (by decide)
  · exact absurd (mem_intText hmem) (by decide)

end Json

end DocStore
