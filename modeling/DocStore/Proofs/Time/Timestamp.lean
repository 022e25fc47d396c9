import DocStore.Proofs.Number.Integer
import DocStore.Proofs.Time.Calendar
import DocStore.Time.Timestamp
import Mathlib.Algebra.Group.Nat.Defs
import Mathlib.Data.List.TakeDrop

/-!
# Timestamps read back

The text of a normal timestamp between the years 0 and 9999 is read as the timestamp
(`read?_text`).  All its numbers have a fixed width (`fixedDigits?_padded`), and the days of its
date are counted back from it.
-/

namespace DocStore

namespace Number

/-! ## Numbers of a fixed width -/

variable {width n : Nat}

theorem toList_padded (width n : Nat) :
    (padded width n).toList
      = List.replicate (width - (Nat.toDigits 10 n).length) '0' ++ Nat.toDigits 10 n :=
  String.toList_ofList

theorem length_padded (hwidth : 0 < width) (h : n < 10 ^ width) :
    (padded width n).toList.length = width := by
  have hfits : (Nat.toDigits 10 n).length ≤ width :=
    (Nat.length_toDigits_le_iff (by decide) hwidth).2 h
  rw [toList_padded, List.length_append, List.length_replicate]
  omega

theorem isDigit_of_mem_padded {c : Char} (h : c ∈ (padded width n).toList) : isDigit c = true := by
  rw [toList_padded, List.mem_append] at h
  rcases h with hzero | hdigit
  · rw [List.eq_of_mem_replicate hzero]
    rfl
  · exact isDigit_of_mem_toDigits hdigit

/-- Zeros before a number do not count. -/
theorem ofDigits_padded (width n : Nat) : ofDigits (padded width n).toList = n := by
  have hzeros (k : Nat) : Nat.ofDigitChars 10 (List.replicate k '0') 0 = 0 := by
    induction k with
    | zero => rfl
    | succ k ih => exact ih
  show Nat.ofDigitChars 10 (padded width n).toList 0 = n
  rw [toList_padded, Nat.ofDigitChars_append, hzeros, Nat.ofDigitChars_ten_toDigits]

end Number

namespace Timestamp

open DocStore.Number DocStore.Time

/-- A number is read in its width. -/
theorem fixedDigits?_padded {width n : Nat} (hwidth : 0 < width) (h : n < 10 ^ width)
    (rest : List Char) : fixedDigits? width ((padded width n).toList ++ rest) = some (n, rest) := by
  have hlength := length_padded hwidth h
  have htake : ((padded width n).toList ++ rest).take width = (padded width n).toList :=
    List.take_left' hlength
  have hdrop : ((padded width n).toList ++ rest).drop width = rest := List.drop_left' hlength
  have hdigits : (padded width n).toList.all isDigit = true :=
    List.all_eq_true.2 fun c hc => isDigit_of_mem_padded hc
  simp only [fixedDigits?, htake, hdrop, hlength, hdigits, ofDigits_padded, decide_true,
    Bool.and_self, if_true]

/-- A fraction of nine places is read as the number of its places. -/
theorem fraction?_padded {n : Nat} (h : n < 10 ^ 9) {next : Char} (hnext : isDigit next = false)
    (rest : List Char) :
    fraction? ((padded 9 n).toList ++ next :: rest) = some (n, next :: rest) := by
  have hlength := length_padded (by decide) h
  have hspan : spanDigits ((padded 9 n).toList ++ next :: rest)
      = ((padded 9 n).toList, next :: rest) := by
    have hdigits : ∀ c ∈ (padded 9 n).toList, isDigit c = true := fun c hc =>
      isDigit_of_mem_padded hc
    rw [spanDigits, List.span_eq_takeWhile_dropWhile, List.takeWhile_append_of_pos hdigits,
      List.dropWhile_append_of_pos hdigits]
    simp [hnext]
  have hempty : (padded 9 n).toList.isEmpty = false := by
    rw [List.isEmpty_eq_false_iff, ← List.length_pos_iff, hlength]
    decide
  have htake : (padded 9 n).toList.take 9 = (padded 9 n).toList :=
    List.take_of_length_le (Nat.le_of_eq hlength)
  simp only [fraction?, hspan, hempty, htake, hlength, ofDigits_padded]
  simp [power]

/-- The year is written with four digits, and all numbers are ones of a clock. -/
structure CivilTime.IsWritten (c : CivilTime) : Prop where
  date : c.date.isValid = true
  year : 0 ≤ c.date.year ∧ c.date.year ≤ 9999
  hour : c.hour ≤ 23
  minute : c.minute ≤ 59
  second : c.second ≤ 60
  nanos : c.nanos < 10 ^ 9

theorem CivilTime.toList_text {c : CivilTime} (hyear : 0 ≤ c.date.year ∧ c.date.year ≤ 9999) :
    c.text.toList = (padded 4 c.date.year.toNat).toList ++ '-' :: ((padded 2 c.date.month).toList
      ++ '-' :: ((padded 2 c.date.day).toList ++ 'T' :: ((padded 2 c.hour).toList
      ++ ':' :: ((padded 2 c.minute).toList ++ ':' :: ((padded 2 c.second).toList
      ++ '.' :: ((padded 9 c.nanos).toList ++ ['Z'])))))) := by
  simp [CivilTime.text, yearText, hyear]

/-- Months and days have at most two digits. -/
theorem date_lt_hundred {date : Date} (h : date.isValid = true) :
    date.month < 10 ^ 2 ∧ date.day < 10 ^ 2 := by
  simp only [Date.isValid, Bool.and_eq_true, decide_eq_true_eq] at h
  have hlength : daysInMonth date.year date.month ≤ 31 := by
    unfold daysInMonth
    split_ifs <;> decide
  omega

/-- The seconds of a date and a time of day, and its nanoseconds, are read off its text. -/
theorem read?_civil {c : CivilTime} (h : c.IsWritten) :
    read? c.text = some ⟨Int64.ofInt (c.date.toDays * secondsPerDay
      + Int.ofNat (c.hour * 3600 + c.minute * 60 + c.second)), Int32.ofInt c.nanos⟩ := by
  obtain ⟨hdate, hyear, hhour, hminute, hsecond, hnanos⟩ := h
  obtain ⟨hmonth, hday⟩ := date_lt_hundred hdate
  have hread : (⟨(c.date.year.toNat : Int), c.date.month, c.date.day⟩ : Date) = c.date := by
    rw [Int.toNat_of_nonneg hyear.1]
  have hzone : offset? ['Z'] = some (0, []) := rfl
  have hnumber {width n : Nat} (hwidth : 0 < width) (hn : n < 10 ^ width) (rest : List Char)
      {α : Type} (f : Nat × List Char → Option α) :
      (fixedDigits? width ((padded width n).toList ++ rest) >>= f) = f (n, rest) := by
    rw [fixedDigits?_padded hwidth hn]
    rfl
  have hchar (c : Char) (rest : List Char) {α : Type} (f : List Char → Option α) :
      (char? c (c :: rest) >>= f) = f rest := by
    rw [char?, if_pos BEq.rfl]
    rfl
  have hsome {α β : Type} (a : α) (f : α → Option β) : (some a >>= f) = f a := rfl
  unfold read?
  rw [CivilTime.toList_text hyear, hnumber (by decide) (by omega)]
  dsimp only
  rw [hchar, hnumber (by decide) hmonth]
  dsimp only
  rw [hchar, hnumber (by decide) hday]
  dsimp only
  rw [if_pos (show ('T' == 'T' || 'T' == 't' || 'T' == ' ') = true from rfl), hsome,
    hnumber (by decide) (show c.hour < 10 ^ 2 by omega)]
  dsimp only
  rw [hchar, hnumber (by decide) (show c.minute < 10 ^ 2 by omega)]
  dsimp only
  rw [hchar, hnumber (by decide) (show c.second < 10 ^ 2 by omega)]
  show (fraction? ((padded 9 c.nanos).toList ++ ['Z']) >>= _) = _
  rw [fraction?_padded hnanos rfl, hsome, hzone, hsome, hread, hdate, if_neg (by
    simp [Nat.not_lt.2 hhour, Nat.not_lt.2 hminute, Nat.not_lt.2 hsecond]), Int.zero_mul,
    Int.sub_zero]

/-- The year of a timestamp. -/
def year (t : Timestamp) : Int := (Date.ofDays (t.seconds.toInt / secondsPerDay)).year

/-- Nanoseconds that make less than a second are no leap second. -/
theorem toCivil?_eq {t : Timestamp} (h : t.IsNormal) (hyear : yearInRange t.year = true) :
    t.toCivil? = some
      { date := Date.ofDays (t.seconds.toInt / secondsPerDay)
        hour := (t.seconds.toInt % secondsPerDay).toNat / 3600
        minute := (t.seconds.toInt % secondsPerDay).toNat / 60 % 60
        second := (t.seconds.toInt % secondsPerDay).toNat % 60
        nanos := t.nanos.toInt.toNat } := by
  obtain ⟨hlow, hhigh⟩ := h
  have hseconds : t.nanos.toInt / nanosPerSecond = 0 := Int.ediv_eq_zero_of_lt hlow hhigh
  have hnanos : t.nanos.toInt % nanosPerSecond = t.nanos.toInt := Int.emod_eq_of_lt hlow hhigh
  have hshort : ¬ nanosPerSecond ≤ t.nanos.toInt := Int.not_le.2 hhigh
  have htwo : ¬ 2 * nanosPerSecond ≤ t.nanos.toInt := by
    unfold nanosPerSecond at hhigh ⊢
    omega
  unfold year at hyear
  simp [toCivil?, hyear, hseconds, hnanos, hshort, htwo, Int.not_lt.2 hlow]

/-- **Timestamps.**  A normal timestamp of the years 0 to 9999 is read back from its text. -/
theorem read?_text {t : Timestamp} (h : t.IsNormal) (hyear : 0 ≤ t.year ∧ t.year ≤ 9999) :
    read? t.text = some t := by
  have hrange : yearInRange t.year = true := by
    simp only [yearInRange, Bool.and_eq_true, decide_eq_true_eq]
    omega
  have hinDay : (t.seconds.toInt % secondsPerDay).toNat < 86400 := by
    unfold secondsPerDay
    omega
  have hseconds : (Date.ofDays (t.seconds.toInt / secondsPerDay)).toDays * secondsPerDay
      + Int.ofNat ((t.seconds.toInt % secondsPerDay).toNat / 3600 * 3600
        + (t.seconds.toInt % secondsPerDay).toNat / 60 % 60 * 60
        + (t.seconds.toInt % secondsPerDay).toNat % 60) = t.seconds.toInt := by
    rw [Date.toDays_ofDays, Int.ofNat_eq_natCast]
    unfold secondsPerDay
    omega
  have hnanos : ((t.nanos.toInt.toNat : Nat) : Int) = t.nanos.toInt := Int.toNat_of_nonneg h.1
  have hsmall : t.nanos.toInt.toNat < 10 ^ 9 := by
    have hhigh := h.2
    unfold nanosPerSecond at hhigh
    omega
  rw [text, toCivil?_eq h hrange, Option.getD_some, read?_civil]
  · dsimp only
    rw [hseconds, hnanos, Int64.ofInt_toInt, Int32.ofInt_toInt]
  · exact ⟨Date.ofDays_isValid _, hyear, by dsimp only; omega, by dsimp only; omega,
      by dsimp only; omega, hsmall⟩

end Timestamp

end DocStore
