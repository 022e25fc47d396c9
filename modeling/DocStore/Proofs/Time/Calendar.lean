import DocStore.Time.Calendar

/-!
# Days and dates

Every day has a date that exists (`ofDays_isValid`), and the days up to it are counted back from
the date (`toDays_ofDays`).  The year within a span of 400 years is known from its first day:
the formula for the year only grows with the day, and is right at both ends of every year.
-/

namespace DocStore.Time

/-! ## The year of a day -/

/-- The first day of a year within 400 years. -/
def yearStart (year : Nat) : Nat := 365 * year + year / 4 - year / 100

/-- The year of a day within 400 years. -/
def yearOfDay (day : Nat) : Nat := (day - day / 1460 + day / 36524 - day / 146096) / 365

theorem yearOfDay_mono {a b : Nat} (h : a ≤ b) (hb : b < 146097) : yearOfDay a ≤ yearOfDay b := by
  have hleap : a - a / 1460 ≤ b - b / 1460 := by omega
  have hcentury : a / 36524 ≤ b / 36524 := Nat.div_le_div_right h
  have hlast : a / 36524 - a / 146096 ≤ b / 36524 - b / 146096 := by omega
  exact Nat.div_le_div_right (by omega)

/-- The formula is right on the first day of a year and on the day before it. -/
theorem yearOfDay_ends : ∀ year < 400, yearOfDay (yearStart year) = year ∧
    (0 < year → yearOfDay (yearStart year - 1) < year) := by
  decide +kernel

theorem yearOfDay_lt {day : Nat} (h : day < 146097) : yearOfDay day < 400 := by
  have hlast : yearOfDay 146096 = 399 := by decide
  have hmono := yearOfDay_mono (show day ≤ 146096 by omega) (by decide)
  omega

/-- A year has started by each of its days. -/
theorem yearStart_le {day : Nat} (h : day < 146097) : yearStart (yearOfDay day) ≤ day := by
  refine Nat.not_lt.1 fun hlate => ?_
  have hpos : 0 < yearOfDay day := by
    refine Nat.pos_of_ne_zero fun hzero => ?_
    rw [hzero] at hlate
    exact absurd hlate (Nat.not_lt_zero day)
  have hbefore := (yearOfDay_ends _ (yearOfDay_lt h)).2 hpos
  have hlarge : yearStart (yearOfDay day) - 1 < 146097 := by
    have hyear := yearOfDay_lt h
    unfold yearStart
    omega
  have hmono := yearOfDay_mono (show day ≤ yearStart (yearOfDay day) - 1 by omega) hlarge
  omega

/-- The next year has not started by any day of a year; the last year is the longer one. -/
theorem lt_yearStart {day : Nat} (h : day < 146097) :
    day < yearStart (yearOfDay day + 1) ∨ yearOfDay day = 399 := by
  rcases Nat.lt_or_ge (yearOfDay day + 1) 400 with hyear | hyear
  · refine .inl (Nat.not_le.1 fun hlate => ?_)
    have hnext := (yearOfDay_ends _ hyear).1
    have hmono := yearOfDay_mono hlate h
    omega
  · have hlt := yearOfDay_lt h
    exact .inr (by omega)

/-! ## The month of a day -/

/-- The month of a day of a year, both counted from the first of March. -/
def monthOfDay (day : Nat) : Nat := (5 * day + 2) / 153

/-- The first day of a month. -/
def monthStart (month : Nat) : Nat := (153 * month + 2) / 5

/-- A month has started by each of its days, and the day of the month exists: in February, up to
the day by which the year may be longer. -/
theorem monthOfDay_spec : ∀ day < 366, monthOfDay day < 12 ∧ monthStart (monthOfDay day) ≤ day ∧
    (monthOfDay day = 11 → day - monthStart 11 + 1 ≤ if day = 365 then 29 else 28) ∧
    (monthOfDay day ≠ 11 → day - monthStart (monthOfDay day) + 1
      ≤ daysInMonth 0 ((monthOfDay day + 2) % 12 + 1)) := by
  decide +kernel

theorem daysInMonth_eq {month : Nat} (h : month ≠ 2) (year year' : Int) :
    daysInMonth year month = daysInMonth year' month := by
  simp [daysInMonth, h]

/-- A year has at most 366 days, and where it has so many, it ends in a leap year. -/
theorem dayOfYear_lt {day : Nat} (h : day < 146097) :
    day - yearStart (yearOfDay day) < 366 ∧
      (day - yearStart (yearOfDay day) = 365 → ∀ era : Int,
        isLeapYear (Int.ofNat (yearOfDay day) + era * 400 + 1) = true) := by
  have hstart := yearStart_le h
  have hend := lt_yearStart h
  have hyear := yearOfDay_lt h
  generalize yearOfDay day = year at hstart hend hyear
  simp only [yearStart] at hstart hend ⊢
  have hfour : (year + 1) / 4 = year / 4 ∨ (year + 1) / 4 = year / 4 + 1 ∧ (year + 1) % 4 = 0 := by
    omega
  have hhundred : (year + 1) / 100 = year / 100 ∧ (year + 1) % 100 ≠ 0
      ∨ (year + 1) / 100 = year / 100 + 1 := by omega
  refine ⟨by omega, fun hlast era => ?_⟩
  have hleap : (year + 1) % 4 = 0 ∧ ((year + 1) % 100 ≠ 0 ∨ (year + 1) % 400 = 0) := by omega
  simp only [isLeapYear, Bool.and_eq_true, Bool.or_eq_true, beq_iff_eq, bne_iff_ne]
  rw [Int.ofNat_eq_natCast]
  omega

namespace Date

/-- A day by its span of 400 years, and its year, month and day there: its date, and how many days
came before it. -/
theorem ofDays_spec (days : Int) :
    ∃ (era : Int) (year month day : Nat), year < 400 ∧ month < 12 ∧
      days = era * 146097 + Int.ofNat (yearStart year + monthStart month + day) - 719468 ∧
      day + 1 ≤ daysInMonth (Int.ofNat year + era * 400 + (if month < 10 then 0 else 1))
        ((month + 2) % 12 + 1) ∧
      ofDays days = ⟨Int.ofNat year + era * 400 + (if month < 10 then 0 else 1),
        (month + 2) % 12 + 1, day + 1⟩ := by
  let dayOfEra := ((days + 719468) % 146097).toNat
  let dayOfYear := dayOfEra - yearStart (yearOfDay dayOfEra)
  have hera : dayOfEra < 146097 := by omega
  have hdays : days = (days + 719468) / 146097 * 146097 + Int.ofNat dayOfEra - 719468 := by
    have hnonneg := Int.emod_nonneg (days + 719468) (show (146097 : Int) ≠ 0 by decide)
    rw [Int.ofNat_eq_natCast, Int.toNat_of_nonneg hnonneg]
    omega
  have hdate : ofDays days =
      if monthOfDay dayOfYear < 10 then
        ⟨Int.ofNat (yearOfDay dayOfEra) + (days + 719468) / 146097 * 400,
          monthOfDay dayOfYear + 3, dayOfYear - monthStart (monthOfDay dayOfYear) + 1⟩
      else
        ⟨Int.ofNat (yearOfDay dayOfEra) + (days + 719468) / 146097 * 400 + 1,
          monthOfDay dayOfYear - 9, dayOfYear - monthStart (monthOfDay dayOfYear) + 1⟩ := rfl
  obtain ⟨hlength, hleap⟩ := dayOfYear_lt hera
  obtain ⟨hmonth, hstart, hfebruary, hother⟩ := monthOfDay_spec dayOfYear hlength
  have hyearStart := yearStart_le hera
  refine ⟨(days + 719468) / 146097, yearOfDay dayOfEra, monthOfDay dayOfYear,
    dayOfYear - monthStart (monthOfDay dayOfYear), yearOfDay_lt hera, hmonth, ?_, ?_, ?_⟩
  · rw [show yearStart (yearOfDay dayOfEra) + monthStart (monthOfDay dayOfYear)
      + (dayOfYear - monthStart (monthOfDay dayOfYear)) = dayOfEra by omega]
    exact hdays
  · by_cases hm : monthOfDay dayOfYear = 11
    · have hday := hfebruary hm
      rw [hm]
      show _ ≤ if isLeapYear (_ + 1) then 29 else 28
      by_cases hlast : dayOfYear = 365
      · rw [if_pos hlast] at hday
        rwa [if_pos (hleap hlast _)]
      · rw [if_neg hlast] at hday
        split
        · exact Nat.le_succ_of_le hday
        · exact hday
    · have hnot : (monthOfDay dayOfYear + 2) % 12 + 1 ≠ 2 := by omega
      rw [daysInMonth_eq hnot _ 0]
      exact hother hm
  · rw [hdate]
    split
    next =>
      rw [show (monthOfDay dayOfYear + 2) % 12 + 1 = monthOfDay dayOfYear + 3 by omega,
        Int.add_zero]
    next =>
      rw [show (monthOfDay dayOfYear + 2) % 12 + 1 = monthOfDay dayOfYear - 9 by omega]

/-- **Dates.**  Every day has a date that exists. -/
theorem ofDays_isValid (days : Int) : (ofDays days).isValid = true := by
  obtain ⟨era, year, month, day, -, -, -, hday, hdate⟩ := ofDays_spec days
  rw [hdate]
  simp only [isValid, Bool.and_eq_true, decide_eq_true_eq]
  exact ⟨⟨⟨by omega, by omega⟩, by omega⟩, hday⟩

/-- **Days.**  A day is counted back from its date. -/
theorem toDays_ofDays (days : Int) : (ofDays days).toDays = days := by
  obtain ⟨era, year, month, day, hyear, hmonth, hdays, -, hdate⟩ := ofDays_spec days
  rw [hdate, hdays]
  have hmarch : (if (month + 2) % 12 + 1 ≤ 2 then
      (year : Int) + era * 400 + (if month < 10 then 0 else 1) - 1
      else year + era * 400 + (if month < 10 then 0 else 1)) = year + era * 400 := by
    split <;> split <;> omega
  have hmonth' : ((month + 2) % 12 + 1 + 9) % 12 = month := by omega
  have hera : ((year : Int) + era * 400) / 400 = era := by omega
  have hyear' : ((year : Int) + era * 400) % 400 = year := by omega
  simp only [toDays, Int.ofNat_eq_natCast, hmarch, hmonth', hera, hyear', yearStart, monthStart]
  omega

end Date

end DocStore.Time
