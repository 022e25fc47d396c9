import DocStore.Number.Integer

/-!
# Integers read back

The decimal text of an integer denotes the integer: its digits are read as the number they come
from, and a number that fits in 64 bits is read back from its text (`int64OfText_intText`).
-/

namespace DocStore.Number

theorem fitsInt64_iff {n : Int} :
    fitsInt64 n = true ↔ -0x8000000000000000 ≤ n ∧ n < 0x8000000000000000 := by
  simp [fitsInt64]

theorem fitsInt64_toInt (n : Int64) : fitsInt64 n.toInt = true :=
  fitsInt64_iff.2 ⟨n.le_toInt, n.toInt_lt⟩

/-- A decimal digit has a value. -/
theorem digit?_of_isDigit {c : Char} (h : c.isDigit = true) :
    digit? c = some (c.toNat - '0'.toNat) := by
  have hrange : ('0' ≤ c && c ≤ '9') = true := h
  rw [digit?, if_pos hrange]

theorem isDigit_of_mem_toDigits {n : Nat} {c : Char} (h : c ∈ Nat.toDigits 10 n) :
    c.isDigit = true :=
  Nat.isDigit_of_mem_toDigits (by decide) (by decide) h

/-- Digits read on from a number give no less. -/
theorem le_ofDigitChars (cs : List Char) (n : Nat) : n ≤ Nat.ofDigitChars 10 cs n := by
  induction cs generalizing n with
  | nil => exact Nat.le_refl n
  | cons c cs ih =>
      rw [Nat.ofDigitChars_cons]
      have hrest := ih (10 * n + (c.toNat - '0'.toNat))
      omega

/-- Digits are read as the number they denote, if it keeps within the limit. -/
theorem boundedDigits_eq_ok {limit n : Nat} {overflow : IntegerFault} {cs : List Char}
    (hdigits : ∀ c ∈ cs, c.isDigit = true) (hlimit : Nat.ofDigitChars 10 cs n ≤ limit) :
    boundedDigits limit overflow n cs = .ok (Nat.ofDigitChars 10 cs n) := by
  induction cs generalizing n with
  | nil => rfl
  | cons c cs ih =>
      rw [Nat.ofDigitChars_cons] at hlimit ⊢
      have hfits := Nat.le_trans (le_ofDigitChars cs _) hlimit
      unfold boundedDigits
      rw [digit?_of_isDigit (hdigits c List.mem_cons_self)]
      dsimp only
      rw [if_pos hfits]
      exact ih (fun d hd => hdigits d (List.mem_cons_of_mem c hd)) hlimit

theorem toList_intText (n : Int) :
    (intText n).toList = (if n < 0 then ['-'] else []) ++ Nat.toDigits 10 n.natAbs :=
  String.toList_ofList

/-- An integer is written with digits and a sign. -/
theorem mem_intText {n : Int} {c : Char} (h : c ∈ (intText n).toList) :
    c.isDigit = true ∨ c = '-' := by
  rw [toList_intText, List.mem_append] at h
  rcases h with h | h
  · split at h
    · exact .inr (List.mem_singleton.1 h)
    · cases h
  · exact .inl (isDigit_of_mem_toDigits h)

/-- The integer of its decimal text. -/
def ofIntText : List Char → Int
  | '-' :: cs => -(Nat.ofDigitChars 10 cs 0 : Int)
  | cs => Nat.ofDigitChars 10 cs 0

theorem ofIntText_of_isDigit {cs : List Char} (h : ∀ c ∈ cs, c.isDigit = true) :
    ofIntText cs = Nat.ofDigitChars 10 cs 0 := by
  unfold ofIntText
  split
  next => exact absurd (h '-' List.mem_cons_self) (by decide)
  next => rfl

theorem ofIntText_intText (n : Int) : ofIntText (intText n).toList = n := by
  rw [toList_intText]
  by_cases hneg : n < 0
  · rw [if_pos hneg]
    show -(Nat.ofDigitChars 10 (Nat.toDigits 10 n.natAbs) 0 : Int) = n
    rw [Nat.ofDigitChars_ten_toDigits]
    omega
  · rw [if_neg hneg, List.nil_append, ofIntText_of_isDigit fun c hc => isDigit_of_mem_toDigits hc,
      Nat.ofDigitChars_ten_toDigits]
    omega

/-- Integers with the same text are the same. -/
theorem intText_injective {m n : Int} (h : intText m = intText n) : m = n := by
  rw [← ofIntText_intText m, h, ofIntText_intText]

/-- A number of 64 bits is read back from its text. -/
theorem int64OfText_intText (n : Int64) : int64OfText (intText n.toInt) = .ok n := by
  have hlow := n.le_toInt
  have hhigh := n.toInt_lt
  have hne : Nat.toDigits 10 n.toInt.natAbs ≠ [] := Nat.toDigits_ne_nil
  have hdigits := @isDigit_of_mem_toDigits n.toInt.natAbs
  have hread : Nat.ofDigitChars 10 (Nat.toDigits 10 n.toInt.natAbs) 0 = n.toInt.natAbs :=
    Nat.ofDigitChars_ten_toDigits
  unfold int64OfText
  rw [toList_intText]
  obtain ⟨first, rest, hcons⟩ := List.exists_cons_of_ne_nil hne
  have hfirst : first.isDigit = true := hdigits (hcons ▸ List.mem_cons_self)
  rw [hcons] at hread
  rw [hcons] at hdigits
  by_cases hneg : n.toInt < 0
  · rw [if_pos hneg, hcons]
    show (boundedDigits _ _ 0 (first :: rest)).map _ = _
    rw [boundedDigits_eq_ok (fun c hc => hdigits hc) (by omega), hread]
    show Except.ok (Int64.ofInt (-(n.toInt.natAbs : Int))) = _
    rw [show -(n.toInt.natAbs : Int) = n.toInt by omega, Int64.ofInt_toInt]
  · rw [if_neg hneg, List.nil_append, hcons]
    -- The text starts with a digit, so it is none of the texts with a sign.
    split
    next heq => cases heq
    next heq =>
      cases heq
      cases hfirst
    next heq =>
      cases heq
      cases hfirst
    next heq =>
      cases heq
      cases hfirst
    next heq =>
      cases heq
      cases hfirst
    · rw [boundedDigits_eq_ok (fun c hc => hdigits hc) (by omega), hread]
      show Except.ok (Int64.ofInt (n.toInt.natAbs : Int)) = _
      rw [show (n.toInt.natAbs : Int) = n.toInt by omega, Int64.ofInt_toInt]

end DocStore.Number
