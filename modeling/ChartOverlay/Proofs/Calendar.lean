import ChartOverlay.Time.Calendar
import Mathlib

/-!
# The calendar

Days are known by counting: the first day of the year one has number one, and after each day comes the next one of
its month, of the next month or of the next year. `day?_of_isDay` says that the number of a date is what counting
gives, and `weekDay?_of_isWeekDate` that a date of weeks names the day that the rule of the first Thursday gives.
-/

namespace ChartOverlay.Calendar

/-- The days in order, each with its number. -/
inductive IsDay : (n year month day : Nat) → Prop
  | first : IsDay 1 1 1 1
  | nextDay {n year month day : Nat} : IsDay n year month day → day < daysInMonth year month →
    IsDay (n + 1) year month (day + 1)
  | nextMonth {n year month : Nat} : IsDay n year month (daysInMonth year month) → month < 12 →
    IsDay (n + 1) year (month + 1) 1
  | nextYear {n year : Nat} : IsDay n year 12 31 → IsDay (n + 1) (year + 1) 1 1

/-- A date of weeks: weeks start on Monday, which the first day was, and belong to the year of their Thursday. -/
structure IsWeekDate (n year week day : Nat) : Prop where
  filled : 1 ≤ n
  weekday : day = (n - 1) % 7 + 1
  thursday : ∃ first thursday month dayOfMonth, IsDay first year 1 1 ∧ IsDay thursday year month dayOfMonth ∧
    thursday + day = n + 4 ∧ week = (thursday - first) / 7 + 1

/-! ### Counting -/

theorem daysInMonth_pos (year month : Nat) : 0 < daysInMonth year month := by
  unfold daysInMonth
  split <;> (try split) <;> decide

theorem daysBeforeMonth_succ {month : Nat} (pos : 1 ≤ month) (year : Nat) :
    daysBeforeMonth year (month + 1) = daysBeforeMonth year month + daysInMonth year month := by
  obtain ⟨k, rfl⟩ : ∃ k, month = k + 1 := ⟨month - 1, by omega⟩
  simp [daysBeforeMonth, List.range_succ]

theorem daysInMonth_le (year month : Nat) : daysInMonth year month ≤ 31 := by
  unfold daysInMonth
  split <;> (try split) <;> decide

def yearLength (year : Nat) : Nat := if isLeap year then 366 else 365

theorem daysBeforeMonth_december (year : Nat) : daysBeforeMonth year 12 + 31 = yearLength year := by
  simp only [daysBeforeMonth, yearLength, List.range, List.range.loop, List.foldl, daysInMonth]
  split <;> rfl

theorem isLeap_iff (year : Nat) : isLeap year = true ↔ year % 4 = 0 ∧ (year % 100 ≠ 0 ∨ year % 400 = 0) := by
  simp [isLeap]

theorem succ_div_eq (y k : Nat) : (y + 1) / k = y / k + if (y + 1) % k = 0 then 1 else 0 := by
  rw [Nat.succ_div]
  simp only [Nat.dvd_iff_mod_eq_zero]

theorem daysBeforeYear_succ {year : Nat} (pos : 1 ≤ year) :
    daysBeforeYear (year + 1) = daysBeforeYear year + yearLength year := by
  obtain ⟨y, rfl⟩ : ∃ y, year = y + 1 := ⟨year - 1, by omega⟩
  have century : (y + 1) % 100 = 0 → (y + 1) % 4 = 0 := by omega
  have centuries : (y + 1) % 400 = 0 → (y + 1) % 100 = 0 := by omega
  have fewer : y / 100 ≤ y / 4 := by omega
  show 365 * (y + 1) + (y + 1) / 4 - (y + 1) / 100 + (y + 1) / 400 =
    365 * y + y / 4 - y / 100 + y / 400 + if isLeap (y + 1) then 366 else 365
  simp only [succ_div_eq y 4, succ_div_eq y 100, succ_div_eq y 400, isLeap_iff]
  -- a multiple of 400 raises all three quotients, one of 100 the first two, one of 4 the first
  generalize y / 4 = a at *
  generalize y / 100 = b at *
  generalize y / 400 = c at *
  by_cases four : (y + 1) % 4 = 0 <;> by_cases hundred : (y + 1) % 100 = 0 <;>
    by_cases fourHundred : (y + 1) % 400 = 0 <;> simp [four, hundred, fourHundred] at century centuries ⊢ <;> omega

theorem dayNumber_newYear (year : Nat) : dayNumber year 1 1 = daysBeforeYear year + 1 := rfl

theorem dayNumber_newYearsEve (year : Nat) : dayNumber year 12 31 = daysBeforeYear year + yearLength year := by
  rw [dayNumber, Nat.add_assoc, daysBeforeMonth_december]

/-- A day that is counted has a date of the calendar, and its number. -/
theorem IsDay.spec {n year month day : Nat} (h : IsDay n year month day) :
    1 ≤ year ∧ 1 ≤ month ∧ month ≤ 12 ∧ 1 ≤ day ∧ day ≤ daysInMonth year month ∧ n = dayNumber year month day := by
  induction h with
  | first => decide
  | nextDay _ more ih =>
    obtain ⟨hy, hm, hm', hd, hd', rfl⟩ := ih
    exact ⟨hy, hm, hm', by omega, more, by simp only [dayNumber]; omega⟩
  | @nextMonth n year month _ more ih =>
    obtain ⟨hy, hm, hm', hd, hd', rfl⟩ := ih
    refine ⟨hy, by omega, more, le_rfl, daysInMonth_pos _ _, ?_⟩
    simp only [dayNumber, daysBeforeMonth_succ hm]
    omega
  | @nextYear n year _ ih =>
    obtain ⟨hy, hm, hm', hd, hd', rfl⟩ := ih
    refine ⟨by omega, le_rfl, by decide, le_rfl, daysInMonth_pos _ _, ?_⟩
    rw [dayNumber_newYear, dayNumber_newYearsEve, daysBeforeYear_succ hy]

theorem daysBeforeMonth_mono {year month month' : Nat} (pos : 1 ≤ month) (le : month ≤ month') :
    daysBeforeMonth year month ≤ daysBeforeMonth year month' := by
  induction le with
  | refl => exact le_rfl
  | @step k le ih =>
    rw [daysBeforeMonth_succ (Nat.le_trans pos le)]
    exact Nat.le_trans ih (Nat.le_add_right _ _)

/-- The months of a year do not go beyond it. -/
theorem daysBeforeMonth_le {year month : Nat} (pos : 1 ≤ month) (le : month ≤ 12) :
    daysBeforeMonth year month + daysInMonth year month ≤ yearLength year := by
  rw [← daysBeforeMonth_succ pos, ← daysBeforeMonth_december]
  exact daysBeforeMonth_mono (Nat.le_add_left 1 month) (Nat.succ_le_succ le)

theorem IsDay.inMonth {n year month : Nat} (h : IsDay n year month 1) {day : Nat}
    (inside : day < daysInMonth year month) : IsDay (n + day) year month (day + 1) := by
  induction day with
  | zero => exact h
  | succ day ih => exact .nextDay (ih (by omega)) inside

theorem IsDay.inYear {n year : Nat} (h : IsDay n year 1 1) {month : Nat} (inside : month < 12) :
    IsDay (n + daysBeforeMonth year (month + 1)) year (month + 1) 1 := by
  induction month with
  | zero => exact h
  | succ month ih =>
    have pos := daysInMonth_pos year (month + 1)
    have last := (ih (by omega)).inMonth (Nat.sub_lt pos Nat.one_pos)
    rw [Nat.sub_add_cancel pos] at last
    have next := last.nextMonth inside
    rw [daysBeforeMonth_succ (Nat.le_add_left 1 month)]
    convert next using 1
    omega

theorem isDay_newYear (year : Nat) : IsDay (daysBeforeYear (year + 1) + 1) (year + 1) 1 1 := by
  induction year with
  | zero => exact .first
  | succ year ih =>
    have december : IsDay (daysBeforeYear (year + 1) + 1 + daysBeforeMonth (year + 1) 12 + 30) (year + 1) 12 31 :=
      (ih.inYear (show 11 < 12 by decide)).inMonth (show 30 < 31 by decide)
    rw [daysBeforeYear_succ (Nat.le_add_left 1 year), ← daysBeforeMonth_december]
    convert december.nextYear using 1
    omega

/-- The dates of the calendar are those that counting comes to. -/
theorem isDay_iff {n year month day : Nat} : IsDay n year month day ↔
    1 ≤ year ∧ 1 ≤ month ∧ month ≤ 12 ∧ 1 ≤ day ∧ day ≤ daysInMonth year month ∧ n = dayNumber year month day := by
  refine ⟨IsDay.spec, ?_⟩
  rintro ⟨hy, hm, hm', hd, hd', rfl⟩
  obtain ⟨year, rfl⟩ := Nat.exists_eq_add_of_le' hy
  obtain ⟨month, rfl⟩ := Nat.exists_eq_add_of_le' hm
  obtain ⟨day, rfl⟩ := Nat.exists_eq_add_of_le' hd
  have here := ((isDay_newYear year).inYear hm').inMonth hd'
  convert here using 1
  simp only [dayNumber]
  omega

instance (n year month day : Nat) : Decidable (IsDay n year month day) := decidable_of_iff _ isDay_iff.symm

example : IsDay epochDay 1970 1 1 := by decide

example : IsDay lastDay 9999 12 31 := by decide

/-- Counting comes to each number. -/
theorem exists_isDay (n : Nat) : ∃ year month day, IsDay (n + 1) year month day := by
  induction n with
  | zero => exact ⟨1, 1, 1, .first⟩
  | succ n ih =>
    obtain ⟨year, month, day, here⟩ := ih
    obtain ⟨_, _, hm, _, hd, _⟩ := here.spec
    rcases Nat.lt_or_eq_of_le hd with more | last
    · exact ⟨year, month, day + 1, .nextDay here more⟩
    rcases Nat.lt_or_eq_of_le hm with more | rfl
    · exact ⟨year, month + 1, 1, .nextMonth (last ▸ here) more⟩
    · have december : daysInMonth year 12 = 31 := rfl
      exact ⟨year + 1, 1, 1, .nextYear (december ▸ last ▸ here)⟩

/-! ### Dates of months -/

theorem lastDay_eq : daysBeforeYear 10000 = lastDay := by decide

theorem daysBeforeYear_mono : Monotone daysBeforeYear := by
  refine monotone_nat_of_le_succ fun year => ?_
  rcases Nat.eq_zero_or_pos year with rfl | pos
  · decide
  · rw [daysBeforeYear_succ pos]
    exact Nat.le_add_right _ _

theorem IsDay.year_le {n year month day : Nat} (h : IsDay n year month day) (le : n ≤ lastDay) : year ≤ 9999 := by
  obtain ⟨_, _, _, hd, _, rfl⟩ := h.spec
  by_contra later
  have before := daysBeforeYear_mono (show 10000 ≤ year by omega)
  rw [lastDay_eq] at before
  rw [dayNumber] at le
  omega

theorem day?_of_isDay {n year month day : Nat} (h : IsDay n year month day) (le : n ≤ lastDay) :
    day? year month day = some n := by
  obtain ⟨hy, hm, hm', hd, hd', rfl⟩ := h.spec
  exact if_pos ⟨hy, h.year_le le, hm, hm', hd, hd'⟩

/-! ### Dates of weeks -/

theorem IsDay.within {n year month day : Nat} (h : IsDay n year month day) :
    daysBeforeYear year < n ∧ n ≤ daysBeforeYear year + yearLength year := by
  obtain ⟨_, hm, hm', hd, hd', rfl⟩ := h.spec
  have bound : daysBeforeMonth year month + daysInMonth year month ≤ yearLength year := daysBeforeMonth_le hm hm'
  simp only [dayNumber]
  omega

/-- The year of the last week is that of the last day. -/
theorem IsWeekDate.bounds {n year week day : Nat} (h : IsWeekDate n year week day) (le : n ≤ lastDay) :
    year ≤ 9999 ∧ week ≤ 53 ∧ day ≤ 7 := by
  obtain ⟨first, thursday, month, dayOfMonth, newYear, inside, same, count⟩ := h.thursday
  have ⟨after, before⟩ := inside.within
  have weekday := h.weekday
  obtain ⟨_, _, _, _, _, start⟩ := newYear.spec
  rw [dayNumber_newYear] at start
  have short : yearLength year ≤ 366 := by
    unfold yearLength
    split <;> decide
  simp only [lastDay] at le
  exact ⟨inside.year_le (by simp only [lastDay]; omega), by omega, by omega⟩

theorem weekDay?_of_isWeekDate {n year week day : Nat} (h : IsWeekDate n year week day) (le : n ≤ lastDay) :
    weekDay? year week day = some n := by
  obtain ⟨first, thursday, month, dayOfMonth, newYear, inside, same, count⟩ := h.thursday
  have ⟨after, before⟩ := inside.within
  obtain ⟨hy, _, _, _, _, start⟩ := newYear.spec
  have filled := h.filled
  have weekday := h.weekday
  have weekdays : Calendar.weekday (dayNumber year 1 1) = (daysBeforeYear year + 7) % 7 := rfl
  rw [dayNumber_newYear] at start
  have weeks : week ≤ weeksInYear year := by
    rw [weeksInYear, weekdays]
    by_cases leap : isLeap year = true
    · rw [yearLength, if_pos leap] at before
      simp only [leap, and_true]
      split <;> omega
    · rw [yearLength, if_neg leap] at before
      simp only [leap]
      split <;> omega
  -- weeks are counted from the Monday before or after the first day, whichever is nearer
  have exact : dayBeforeWeeks year + 7 * ((week : Int) - 1) + day = n := by
    show ((daysBeforeYear year + 1 : Nat) : Int) - ((daysBeforeYear year + 7) % 7 : Nat) - 1 +
      (if 3 < (daysBeforeYear year + 7) % 7 then 7 else 0) + 7 * ((week : Int) - 1) + day = n
    split <;> omega
  rw [weekDay?, if_pos ⟨hy, by omega, weeks, by omega, by omega⟩]
  dsimp only
  rw [exact, if_pos ⟨by omega, by omega⟩, Int.toNat_natCast]

end ChartOverlay.Calendar
