/-!
# Calendar

Days are counted in the Gregorian calendar, from the first day of the year one. A day is named by
year, month and day, or by year, week and weekday, where weeks start on Monday and the first week of
a year is the one with its first Thursday.
-/

namespace ChartOverlay.Calendar

def isLeap (year : Nat) : Bool := year % 4 = 0 && (year % 100 ≠ 0 || year % 400 = 0)

def daysInMonth (year : Nat) : Nat → Nat
  | 2 => if isLeap year then 29 else 28
  | 4 | 6 | 9 | 11 => 30
  | _ => 31

/-- The days before a year, in the years from one on. -/
def daysBeforeYear (year : Nat) : Nat :=
  let y := year - 1
  365 * y + y / 4 - y / 100 + y / 400

def daysBeforeMonth (year month : Nat) : Nat :=
  (List.range (month - 1)).foldl (fun days m => days + daysInMonth year (m + 1)) 0

/-- The number of a day; the first day of the year one has number one. -/
def dayNumber (year month day : Nat) : Nat := daysBeforeYear year + daysBeforeMonth year month + day

/-- The days since Monday. -/
def weekday (dayNumber : Nat) : Nat := (dayNumber + 6) % 7

/-- The last day of the year 9999. -/
def lastDay : Nat := 3652059

/-- The first day of 1970. -/
def epochDay : Nat := 719163

/-- A day of the years from 1 to 9999. -/
def day? (year month day : Nat) : Option Nat :=
  if 1 ≤ year ∧ year ≤ 9999 ∧ 1 ≤ month ∧ month ≤ 12 ∧ 1 ≤ day ∧ day ≤ daysInMonth year month then
    some (dayNumber year month day)
  else none

/-- The weeks of a year: 53 if it starts on a Thursday, or on a Wednesday and is a leap year. -/
def weeksInYear (year : Nat) : Nat :=
  let first := weekday (dayNumber year 1 1)
  if first = 3 ∨ (first = 2 ∧ isLeap year) then 53 else 52

/-- The day before the first Monday of the weeks of a year. -/
def dayBeforeWeeks (year : Nat) : Int :=
  let first := dayNumber year 1 1
  let since := weekday first
  (first : Int) - since - 1 + if 3 < since then 7 else 0

/-- A day of a week, in the years from 1 to 9999; days count from one on Monday. -/
def weekDay? (year week day : Nat) : Option Nat :=
  if 1 ≤ year ∧ 1 ≤ week ∧ week ≤ weeksInYear year ∧ 1 ≤ day ∧ day ≤ 7 then
    let n := dayBeforeWeeks year + 7 * (week - 1) + day
    if 1 ≤ n ∧ n ≤ lastDay then some n.toNat else none
  else none

end ChartOverlay.Calendar
