import EntityQuery.Calendar.Date

/-!
# Days by their numbers

The days of the calendar are numbered from the start of the year 0, by the number of days before a
year, the number of days before a month of it, and the day of the month. The day after has the next
number and the day before the previous one, over the ends of months and years and in leap years. A
valid date is determined by its number.
-/

namespace EntityQuery.Date

/-- A date has a month of the year and a day of the month. -/
structure IsValid (d : Date) : Prop where
  month_pos : 1 ≤ d.month
  month_le : d.month ≤ 12
  day_pos : 1 ≤ d.day
  day_le : d.day ≤ daysInMonth d.year d.month

/-- The days from the start of the year 0 to that of a year: 365 for each year in between, and one
more for each leap year. -/
def daysBeforeYear (year : Int) : Int :=
  365 * year + ((year + 3) / 4 - (year + 99) / 100 + (year + 399) / 400)

/-- The days of a year. -/
def daysInYear (year : Int) : Nat := if isLeapYear year then 366 else 365

/-- The days of a year before a month of it. -/
def daysBeforeMonth (year : Int) (month : Nat) : Nat :=
  [0, 31, 59, 90, 120, 151, 181, 212, 243, 273, 304, 334].getD (month - 1) 365 +
    if isLeapYear year && decide (2 < month) then 1 else 0

/-- The number of a day, where the first day of the year 0 has the number 1. -/
def dayNumber (d : Date) : Int := daysBeforeYear d.year + daysBeforeMonth d.year d.month + d.day

theorem isLeapYear_iff {year : Int} :
    isLeapYear year = true ↔ year % 4 = 0 ∧ (year % 100 ≠ 0 ∨ year % 400 = 0) := by
  simp [isLeapYear]

theorem daysBeforeYear_succ (year : Int) :
    daysBeforeYear (year + 1) = daysBeforeYear year + daysInYear year := by
  unfold daysBeforeYear daysInYear
  split
  · next h =>
    rw [isLeapYear_iff] at h
    omega
  · next h =>
    rw [isLeapYear_iff] at h
    omega

theorem daysBeforeMonth_succ (year : Int) {month : Nat} (hpos : 1 ≤ month) (hlt : month < 12) :
    daysBeforeMonth year (month + 1) = daysBeforeMonth year month + daysInMonth year month := by
  obtain rfl | rfl | rfl | rfl | rfl | rfl | rfl | rfl | rfl | rfl | rfl :
      month = 1 ∨ month = 2 ∨ month = 3 ∨ month = 4 ∨ month = 5 ∨ month = 6 ∨ month = 7 ∨
        month = 8 ∨ month = 9 ∨ month = 10 ∨ month = 11 := by omega
  all_goals cases h : isLeapYear year <;> simp [daysBeforeMonth, daysInMonth, h]

theorem daysBeforeMonth_one (year : Int) : daysBeforeMonth year 1 = 0 := by
  simp [daysBeforeMonth]

theorem daysBeforeMonth_twelve (year : Int) : daysBeforeMonth year 12 + 31 = daysInYear year := by
  cases h : isLeapYear year <;> simp [daysBeforeMonth, daysInYear, h]

theorem daysInMonth_bounds (year : Int) (month : Nat) :
    1 ≤ daysInMonth year month ∧ daysInMonth year month ≤ 31 := by
  unfold daysInMonth
  split
  · decide
  · decide
  · decide
  · decide
  · split <;> decide
  · decide

variable {d e : Date}

/-! ### Neighbouring days -/

theorem IsValid.next (h : d.IsValid) : d.next.IsValid := by
  unfold Date.next
  split
  · next hday => exact ⟨h.month_pos, h.month_le, Nat.succ_pos _, hday⟩
  · split
    · next hlt => exact ⟨Nat.succ_pos _, hlt, Nat.le_refl 1, (daysInMonth_bounds _ _).1⟩
    · exact ⟨Nat.le_refl 1, Nat.succ_pos 11, Nat.le_refl 1, (daysInMonth_bounds _ _).1⟩

/-- The day after has the next number. -/
theorem dayNumber_next (h : d.IsValid) : d.next.dayNumber = d.dayNumber + 1 := by
  have hle := h.day_le
  have hmonth := h.month_le
  unfold Date.next
  split
  · simp only [dayNumber]
    omega
  · next hlast =>
    split
    · next hlt =>
      have hbefore := daysBeforeMonth_succ d.year h.month_pos hlt
      simp only [dayNumber, hbefore]
      omega
    · next htwelve =>
      have hdecember : d.month = 12 := by omega
      have hdays : daysInMonth d.year 12 = 31 := rfl
      have hyear := daysBeforeYear_succ d.year
      have hbefore := daysBeforeMonth_twelve d.year
      rw [hdecember, hdays] at hle hlast
      simp only [dayNumber, hyear, daysBeforeMonth_one, hdecember]
      omega

theorem IsValid.prev (h : d.IsValid) : d.prev.IsValid := by
  unfold Date.prev
  split
  · next hday =>
    exact ⟨h.month_pos, h.month_le, Nat.le_sub_one_of_lt hday,
      Nat.le_trans (Nat.sub_le _ _) h.day_le⟩
  · split
    · next hlt =>
      exact ⟨Nat.le_sub_one_of_lt hlt, Nat.le_trans (Nat.sub_le _ _) h.month_le,
        (daysInMonth_bounds _ _).1, Nat.le_refl _⟩
    · exact ⟨Nat.succ_pos 11, Nat.le_refl 12, Nat.succ_pos 30, Nat.le_refl 31⟩

/-- The day before has the previous number. -/
theorem dayNumber_prev (h : d.IsValid) : d.prev.dayNumber = d.dayNumber - 1 := by
  have hpos := h.day_pos
  have hmonth := h.month_le
  unfold Date.prev
  split
  · simp only [dayNumber]
    omega
  · next hfirst =>
    split
    · next hlt =>
      have hbefore := @daysBeforeMonth_succ d.year (d.month - 1) (by omega) (by omega)
      rw [Nat.sub_add_cancel h.month_pos] at hbefore
      simp only [dayNumber, hbefore]
      omega
    · next hone =>
      have hjanuary : d.month = 1 := Nat.le_antisymm (Nat.not_lt.mp hone) h.month_pos
      have hyear := daysBeforeYear_succ (d.year - 1)
      have hbefore := daysBeforeMonth_twelve (d.year - 1)
      rw [Int.sub_add_cancel] at hyear
      simp only [dayNumber, hyear, hjanuary, daysBeforeMonth_one]
      omega

/-! ### Dates by their numbers -/

theorem daysBeforeYear_mono {y z : Int} (h : y ≤ z) : daysBeforeYear y ≤ daysBeforeYear z := by
  unfold daysBeforeYear
  omega

theorem daysBeforeMonth_of_lt (year : Int) {m n : Nat} (hpos : 1 ≤ m) (hlt : m < n) (hle : n ≤ 12) :
    daysBeforeMonth year m + daysInMonth year m ≤ daysBeforeMonth year n := by
  induction n with
  | zero => cases hlt
  | succ n ih =>
    have hstep := @daysBeforeMonth_succ year n (by omega) (by omega)
    rcases Nat.lt_succ_iff_lt_or_eq.mp hlt with hlt | rfl
    · have hbelow := ih hlt (by omega)
      omega
    · omega

/-- The day of a year is one of its days. -/
theorem IsValid.dayOfYear_le (h : d.IsValid) :
    daysBeforeMonth d.year d.month + d.day ≤ daysInYear d.year := by
  have hle := h.day_le
  have htwelve := daysBeforeMonth_twelve d.year
  rcases Nat.lt_or_eq_of_le h.month_le with hlt | hdecember
  · have hbelow := daysBeforeMonth_of_lt d.year h.month_pos hlt (Nat.le_refl 12)
    omega
  · have hdays : daysInMonth d.year 12 = 31 := rfl
    rw [hdecember] at hle ⊢
    omega

theorem dayNumber_lt_of_year (hd : d.IsValid) (he : e.IsValid) (h : d.year < e.year) :
    d.dayNumber < e.dayNumber := by
  have hday := hd.dayOfYear_le
  have hpos := he.day_pos
  have hsucc := daysBeforeYear_succ d.year
  have hmono := @daysBeforeYear_mono (d.year + 1) e.year h
  unfold dayNumber
  omega

theorem dayNumber_lt_of_month (hd : d.IsValid) (he : e.IsValid) (hyear : d.year = e.year)
    (h : d.month < e.month) : d.dayNumber < e.dayNumber := by
  have hday := hd.day_le
  have hpos := he.day_pos
  have hbelow := daysBeforeMonth_of_lt d.year hd.month_pos h he.month_le
  unfold dayNumber
  rw [← hyear]
  omega

/-- A valid date is determined by its number. -/
theorem eq_of_dayNumber_eq (hd : d.IsValid) (he : e.IsValid) (h : d.dayNumber = e.dayNumber) :
    d = e := by
  have hyear : d.year = e.year := by
    rcases Int.lt_trichotomy d.year e.year with hlt | heq | hgt
    · exact absurd h (Int.ne_of_lt (dayNumber_lt_of_year hd he hlt))
    · exact heq
    · exact absurd h.symm (Int.ne_of_lt (dayNumber_lt_of_year he hd hgt))
  have hmonth : d.month = e.month := by
    rcases Nat.lt_trichotomy d.month e.month with hlt | heq | hgt
    · exact absurd h (Int.ne_of_lt (dayNumber_lt_of_month hd he hyear hlt))
    · exact heq
    · exact absurd h.symm (Int.ne_of_lt (dayNumber_lt_of_month he hd hyear.symm hgt))
  have hday : d.day = e.day := by
    unfold dayNumber at h
    rw [hyear, hmonth] at h
    omega
  cases d
  cases e
  cases hyear
  cases hmonth
  cases hday
  rfl

end EntityQuery.Date
