/-!
# Dates

A date is the number of a day in the Gregorian calendar extended to all years, day 1 being
1 January of year 1. Years run from `leastYear` to `greatestYear`. `Date.ofYearMonthDay?` finds the
day with a year, month and day of the month, which `Date.year`, `Date.month` and `Date.dayOfMonth`
read off again.
-/

namespace KpiReport.Calendar

/-- The number of days before 1 January of a year. -/
def daysBeforeYear (year : Int) : Int :=
  365 * (year - 1) + (year - 1) / 4 - (year - 1) / 100 + (year - 1) / 400

/-- Whether a year has 366 days. -/
def isLeapYear (year : Int) : Bool :=
  year % 4 == 0 && (year % 100 != 0 || year % 400 == 0)

theorem daysBeforeYear_succ (year : Int) :
    daysBeforeYear (year + 1) = daysBeforeYear year + if isLeapYear year then 366 else 365 := by
  simp only [daysBeforeYear, isLeapYear, Bool.and_eq_true, Bool.or_eq_true, beq_iff_eq, bne_iff_ne]
  split <;> omega

/-- The lengths of the months of a year. -/
def monthLengths (leap : Bool) : List Nat :=
  [31, if leap then 29 else 28, 31, 30, 31, 30, 31, 31, 30, 31, 30, 31]

/-- The first year with dates. -/
def leastYear : Int := -262143

/-- The last year with dates. -/
def greatestYear : Int := 262142

/-- The number of the first day. -/
def firstDay : Int := daysBeforeYear leastYear + 1

/-- The number of the last day. -/
def lastDay : Int := daysBeforeYear (greatestYear + 1)

theorem firstDay_le_zero : firstDay ≤ 0 := by
  decide

theorem zero_le_lastDay : 0 ≤ lastDay := by
  decide

/-- A day of the calendar. -/
structure Date where
  number : Int
  firstDay_le : firstDay ≤ number
  le_lastDay : number ≤ lastDay
  deriving DecidableEq

namespace Date

/-- Earlier days come first. -/
instance : LE Date := ⟨fun a b => a.number ≤ b.number⟩

/-- Earlier days come first. -/
instance : LT Date := ⟨fun a b => a.number < b.number⟩

instance (a b : Date) : Decidable (a ≤ b) := inferInstanceAs (Decidable (a.number ≤ b.number))

instance (a b : Date) : Decidable (a < b) := inferInstanceAs (Decidable (a.number < b.number))

/-- The day with a number, if the calendar reaches it. -/
def ofNumber? (number : Int) : Option Date :=
  if h : firstDay ≤ number ∧ number ≤ lastDay then some ⟨number, h.1, h.2⟩ else none

/-- The day some days later, or earlier when `days` is negative. -/
def shift? (date : Date) (days : Int) : Option Date :=
  ofNumber? (date.number + days)

end Date

/-- The year that the share of the days of 400 years gives for a day; right up to one year. -/
def estimatedYear (number : Int) : Int :=
  400 * (number - 1) / 146097 + 1

/-- The year that a day falls in. -/
def yearOfDay (number : Int) : Int :=
  let guess := estimatedYear number
  if number ≤ daysBeforeYear guess then guess - 1
  else if daysBeforeYear (guess + 1) < number then guess + 1
  else guess

theorem daysBeforeYear_estimatedYear_pred_lt (number : Int) :
    daysBeforeYear (estimatedYear number - 1) < number := by
  simp only [daysBeforeYear, estimatedYear]
  omega

theorem le_daysBeforeYear_estimatedYear_add_two (number : Int) :
    number ≤ daysBeforeYear (estimatedYear number + 2) := by
  simp only [daysBeforeYear, estimatedYear]
  omega

theorem daysBeforeYear_yearOfDay_lt (number : Int) :
    daysBeforeYear (yearOfDay number) < number := by
  have low := daysBeforeYear_estimatedYear_pred_lt number
  unfold yearOfDay
  dsimp only
  by_cases h : number ≤ daysBeforeYear (estimatedYear number)
  · rwa [if_pos h]
  · rw [if_neg h]
    split
    · assumption
    · omega

theorem le_daysBeforeYear_yearOfDay_succ (number : Int) :
    number ≤ daysBeforeYear (yearOfDay number + 1) := by
  have high := le_daysBeforeYear_estimatedYear_add_two number
  unfold yearOfDay
  dsimp only
  by_cases h : number ≤ daysBeforeYear (estimatedYear number)
  · rw [if_pos h, Int.sub_add_cancel]
    exact h
  · rw [if_neg h]
    split
    · rw [Int.add_assoc]
      exact high
    · omega

/-- The month and the day of the month of a day of the year, `month` being the month whose length
comes first. -/
def monthAndDay (month : Nat) : (lengths : List Nat) → (dayOfYear : Nat) → Nat × Nat
  | [], dayOfYear => (month, dayOfYear)
  | length :: lengths, dayOfYear =>
    if dayOfYear ≤ length then (month, dayOfYear)
    else monthAndDay (month + 1) lengths (dayOfYear - length)

namespace Date

/-- The year of a date. -/
def year (date : Date) : Int :=
  yearOfDay date.number

/-- The number of a date among the days of its year, from 1. -/
def dayOfYear (date : Date) : Nat :=
  (date.number - daysBeforeYear date.year).toNat

/-- The month of a date, from 1. -/
def month (date : Date) : Nat :=
  (monthAndDay 1 (monthLengths (isLeapYear date.year)) date.dayOfYear).1

/-- The day of the month of a date, from 1. -/
def dayOfMonth (date : Date) : Nat :=
  (monthAndDay 1 (monthLengths (isLeapYear date.year)) date.dayOfYear).2

/-- The number of days since the last Monday. -/
def daysSinceMonday (date : Date) : Nat :=
  ((date.number - 1) % 7).toNat

/-- The number of days since the last Sunday. -/
def daysSinceSunday (date : Date) : Nat :=
  (date.number % 7).toNat

/-- The date with a year, month and day of the month, if there is one. -/
def ofYearMonthDay? (year : Int) (month day : Nat) : Option Date :=
  let lengths := monthLengths (isLeapYear year)
  if 1 ≤ month ∧ 1 ≤ day ∧ day ≤ lengths.getD (month - 1) 0 then
    let earlier : Nat := (lengths.take (month - 1)).foldl (· + ·) 0
    ofNumber? (daysBeforeYear year + earlier + day)
  else none

/-- The Monday of the week of a date, or the date itself where the calendar starts later. -/
def weekStart (date : Date) : Date :=
  (date.shift? (-date.daysSinceMonday)).getD date

/-- The last day of a month, found as the day before the first of the next month. -/
def lastOfMonth? (year : Int) (month : Nat) : Option Date :=
  let next? := if month = 12 then ofYearMonthDay? (year + 1) 1 1 else ofYearMonthDay? year (month + 1) 1
  next?.bind fun next => next.shift? (-1)

end Date

end KpiReport.Calendar
