import KpiReport.Ledger.Book
import KpiReport.Proofs.Calendar.RoundTrip
import KpiReport.Proofs.Lists
import KpiReport.Proofs.Period.Movement
import KpiReport.Proofs.Results
import Mathlib.Algebra.Order.BigOperators.Group.List
import Mathlib.Data.Int.ConditionallyCompleteOrder
import Mathlib.Data.List.GetD
import Mathlib.Tactic.IntervalCases

/-!
# The months of a year as fiscal periods

A month ends on the day before the first day of the next one, which for December is in the next
year. So the months of a year are cut at thirteen points, the days before each first of a month
(`daysBeforeMonth`), and a date lies between the two points of its month and of no other
(`Date.in_month_iff`).

The main statement, `Book.addMonthlyPeriods_partition`, says that the periods which are added for a
year are twelve, follow each other without a gap from January to December, and hold the dates of the
year, each in the period of its month.
-/

namespace KpiReport

open Calendar

theorem Table.insert_insert {α : Type} (table : Table α) (name : String) (value other : α) :
    (table.insert name value).insert name other = table.insert name other := by
  induction table with
  | nil => simp [insert]
  | cons entry rest ih =>
    obtain ⟨stored, _⟩ := entry
    by_cases first : name < stored
    · simp [insert, first]
    · by_cases same : name = stored
      · simp [insert, same]
      · simp [insert, first, same, ih]

namespace Calendar

/-! ## The points between months -/

/-- The number of days before a month of a year; those before a thirteenth month are the days before
the next year. -/
def daysBeforeMonth (year : Int) (month : Nat) : Int :=
  daysBeforeYear year + ((monthLengths (isLeapYear year)).take (month - 1)).sum

theorem daysBeforeMonth_one (year : Int) : daysBeforeMonth year 1 = daysBeforeYear year := by
  simp [daysBeforeMonth]

theorem daysBeforeMonth_thirteen (year : Int) :
    daysBeforeMonth year 13 = daysBeforeYear (year + 1) := by
  have whole : (monthLengths (isLeapYear year)).take 12 = monthLengths (isLeapYear year) := rfl
  rw [daysBeforeMonth, whole, sum_monthLengths, daysBeforeYear_succ]
  split <;> rfl

theorem daysBeforeMonth_mono {year : Int} {month later : Nat} (h : month ≤ later) :
    daysBeforeMonth year month ≤ daysBeforeMonth year later := by
  have sums : ((monthLengths (isLeapYear year)).take (month - 1)).sum ≤
      ((monthLengths (isLeapYear year)).take (later - 1)).sum :=
    List.monotone_sum_take _ (Nat.sub_le_sub_right h 1)
  unfold daysBeforeMonth
  omega

theorem daysBeforeMonth_succ {year : Int} {month : Nat} (first : 1 ≤ month) (last : month ≤ 12) :
    daysBeforeMonth year (month + 1) =
      daysBeforeMonth year month + (monthLengths (isLeapYear year)).getD (month - 1) 0 := by
  obtain ⟨index, rfl⟩ : ∃ index, month = index + 1 := ⟨month - 1, by omega⟩
  have inside : index < (monthLengths (isLeapYear year)).length := by
    change index < 12
    omega
  rw [daysBeforeMonth, daysBeforeMonth, Nat.add_sub_cancel, Nat.add_sub_cancel,
    List.sum_take_succ _ _ inside, List.getD_eq_getElem _ _ inside, Int.natCast_add, Int.add_assoc]

theorem one_le_getD_monthLengths {month : Nat} (first : 1 ≤ month) (last : month ≤ 12)
    (leap : Bool) : 1 ≤ (monthLengths leap).getD (month - 1) 0 := by
  cases leap <;> interval_cases month <;> decide

theorem daysBeforeMonth_lt_succ {year : Int} {month : Nat} (first : 1 ≤ month) (last : month ≤ 12) :
    daysBeforeMonth year month < daysBeforeMonth year (month + 1) := by
  have length := one_le_getD_monthLengths first last (isLeapYear year)
  rw [daysBeforeMonth_succ first last]
  omega

theorem daysBeforeYear_strictMono : StrictMono daysBeforeYear := by
  intro year later h
  unfold daysBeforeYear
  omega

/-- No month begins before its year. -/
theorem daysBeforeYear_le_daysBeforeMonth (year : Int) {month : Nat} (first : 1 ≤ month) :
    daysBeforeYear year ≤ daysBeforeMonth year month :=
  daysBeforeMonth_one year ▸ daysBeforeMonth_mono first

/-- No month ends after its year. -/
theorem daysBeforeMonth_le_daysBeforeYear (year : Int) {month : Nat} (last : month ≤ 13) :
    daysBeforeMonth year month ≤ daysBeforeYear (year + 1) :=
  daysBeforeMonth_thirteen year ▸ daysBeforeMonth_mono last

/-- The calendar reaches the first day of a month from its first year on. -/
theorem firstDay_le_daysBeforeMonth_iff {year : Int} {month : Nat} (first : 1 ≤ month)
    (last : month ≤ 12) : firstDay ≤ daysBeforeMonth year month + 1 ↔ leastYear ≤ year := by
  have step : daysBeforeMonth year month < daysBeforeMonth year (month + 1) :=
    daysBeforeMonth_lt_succ first last
  constructor
  · intro reached
    by_contra earlier
    have years : daysBeforeYear (year + 1) ≤ daysBeforeYear leastYear :=
      daysBeforeYear_strictMono.monotone (by omega)
    have ends : daysBeforeMonth year (month + 1) ≤ daysBeforeYear (year + 1) :=
      daysBeforeMonth_le_daysBeforeYear year (by omega)
    unfold firstDay at reached
    omega
  · intro within
    have years : daysBeforeYear leastYear ≤ daysBeforeYear year :=
      daysBeforeYear_strictMono.monotone within
    have starts := daysBeforeYear_le_daysBeforeMonth year first
    unfold firstDay
    omega

/-- The calendar reaches the day after a month up to its last year, but not after the last month of
that year. -/
theorem daysBeforeMonth_succ_lt_lastDay_iff {year : Int} {month : Nat} (first : 1 ≤ month)
    (last : month ≤ 12) : daysBeforeMonth year (month + 1) < lastDay ↔
      year ≤ greatestYear ∧ ¬(year = greatestYear ∧ month = 12) := by
  constructor
  · intro reached
    constructor
    · by_contra later
      have years : daysBeforeYear (greatestYear + 1) ≤ daysBeforeYear year :=
        daysBeforeYear_strictMono.monotone (by omega)
      have starts : daysBeforeYear year ≤ daysBeforeMonth year (month + 1) :=
        daysBeforeYear_le_daysBeforeMonth year (by omega)
      unfold lastDay at reached
      omega
    · rintro ⟨rfl, rfl⟩
      rw [daysBeforeMonth_thirteen] at reached
      exact lt_irrefl _ reached
  · rintro ⟨within, other⟩
    rcases Int.lt_or_eq_of_le within with earlier | rfl
    · have years : daysBeforeYear (year + 1) < daysBeforeYear (greatestYear + 1) :=
        daysBeforeYear_strictMono (by omega)
      have ends : daysBeforeMonth year (month + 1) ≤ daysBeforeYear (year + 1) :=
        daysBeforeMonth_le_daysBeforeYear year (by omega)
      unfold lastDay
      omega
    · have step : daysBeforeMonth greatestYear (month + 1) <
          daysBeforeMonth greatestYear (month + 2) :=
        daysBeforeMonth_lt_succ (by omega) (by omega)
      have ends : daysBeforeMonth greatestYear (month + 2) ≤ daysBeforeYear (greatestYear + 1) :=
        daysBeforeMonth_le_daysBeforeYear greatestYear (by omega)
      unfold lastDay
      omega

namespace Date

/-- The date with a year, a month and a day is told by the number of its day. -/
theorem ofYearMonthDay?_eq_some_iff {year : Int} {month day : Nat} {date : Date} :
    ofYearMonthDay? year month day = some date ↔
      (1 ≤ month ∧ 1 ≤ day ∧ day ≤ (monthLengths (isLeapYear year)).getD (month - 1) 0) ∧
        date.number = daysBeforeMonth year month + day := by
  unfold ofYearMonthDay?
  dsimp only
  split
  · rename_i valid
    rw [ofNumber?_eq_some_iff, ← List.sum_eq_foldl, daysBeforeMonth]
    exact (and_iff_right valid).symm
  · rename_i invalid
    exact iff_of_false nofun fun h => invalid h.1

/-- A date lies after the point before its month, and not after the next one. -/
theorem month_bounds (date : Date) : 1 ≤ date.month ∧ date.month ≤ 12 ∧
    daysBeforeMonth date.year date.month < date.number ∧
    date.number ≤ daysBeforeMonth date.year (date.month + 1) := by
  obtain ⟨⟨first, low, high⟩, number⟩ :=
    ofYearMonthDay?_eq_some_iff.1 date.ofYearMonthDay?_parts.1
  have last : date.month ≤ 12 := by
    by_contra beyond
    have none : (monthLengths (isLeapYear date.year)).getD (date.month - 1) 0 = 0 :=
      List.getD_eq_default _ _ (by change 12 ≤ _; omega)
    omega
  rw [daysBeforeMonth_succ first last]
  omega

/-- The dates of a month are those between the points around it. -/
theorem in_month_iff {date : Date} {year : Int} {month : Nat} (first : 1 ≤ month)
    (last : month ≤ 12) : daysBeforeMonth year month < date.number ∧
      date.number ≤ daysBeforeMonth year (month + 1) ↔ date.year = year ∧ date.month = month := by
  obtain ⟨own, own', low, high⟩ := date.month_bounds
  -- the points are in the order of the months, within a year and from year to year
  constructor
  · rintro ⟨after, before⟩
    have sameYear : date.year = year := by
      rcases Int.lt_trichotomy date.year year with earlier | same | later
      · have years := daysBeforeYear_strictMono.monotone (Int.add_one_le_of_lt earlier)
        have ends : daysBeforeMonth date.year (date.month + 1) ≤ daysBeforeYear (date.year + 1) :=
          daysBeforeMonth_le_daysBeforeYear date.year (by omega)
        have starts := daysBeforeYear_le_daysBeforeMonth year first
        omega
      · exact same
      · have years := daysBeforeYear_strictMono.monotone (Int.add_one_le_of_lt later)
        have ends : daysBeforeMonth year (month + 1) ≤ daysBeforeYear (year + 1) :=
          daysBeforeMonth_le_daysBeforeYear year (by omega)
        have starts := daysBeforeYear_le_daysBeforeMonth date.year own
        omega
    refine ⟨sameYear, ?_⟩
    rw [sameYear] at low high
    rcases Nat.lt_trichotomy date.month month with earlier | same | later
    · have points : daysBeforeMonth year (date.month + 1) ≤ daysBeforeMonth year month :=
        daysBeforeMonth_mono earlier
      omega
    · exact same
    · have points : daysBeforeMonth year (month + 1) ≤ daysBeforeMonth year date.month :=
        daysBeforeMonth_mono later
      omega
  · rintro ⟨rfl, rfl⟩
    exact ⟨low, high⟩

/-- The last day of a month is the one at the point after it, if the calendar reaches the day after
that. -/
theorem lastOfMonth?_eq_some_iff {year : Int} {month : Nat} (first : 1 ≤ month) (last : month ≤ 12)
    {date : Date} : lastOfMonth? year month = some date ↔
      date.number = daysBeforeMonth year (month + 1) ∧ date.number < lastDay := by
  have next (day : Date) : (if month = 12 then ofYearMonthDay? (year + 1) 1 1
      else ofYearMonthDay? year (month + 1) 1) = some day ↔
        day.number = daysBeforeMonth year (month + 1) + 1 := by
    split
    · rename_i december
      rw [ofYearMonthDay?_eq_some_iff, december, daysBeforeMonth_thirteen, daysBeforeMonth_one]
      exact and_iff_right ⟨by decide, by decide, Nat.succ_pos _⟩
    · rename_i other
      have length : 1 ≤ (monthLengths (isLeapYear year)).getD (month + 1 - 1) 0 :=
        one_le_getD_monthLengths (by omega) (by omega) _
      rw [ofYearMonthDay?_eq_some_iff]
      exact and_iff_right ⟨by omega, by decide, length⟩
  rw [lastOfMonth?, Option.bind_eq_some_iff]
  simp only [next, shift?, ofNumber?_eq_some_iff]
  constructor
  · rintro ⟨day, number, before⟩
    have reached := day.le_lastDay
    omega
  · rintro ⟨number, reached⟩
    have low := date.firstDay_le
    exact ⟨⟨date.number + 1, by omega, by omega⟩, by change date.number + 1 = _; omega,
      by change _ = date.number + 1 + -1; omega⟩

end Date

end Calendar

/-! ## The period of a month -/

theorem lastDayOfMonth_eq_ok_iff {year : Int} {month : Nat} {date : Date} :
    lastDayOfMonth year month = .ok date ↔ Date.lastOfMonth? year month = some date := by
  unfold lastDayOfMonth
  cases Date.lastOfMonth? year month with
  | none => exact iff_of_false nofun nofun
  | some found =>
    constructor <;>
      · intro same
        cases same
        rfl

namespace Book

/-- The period of a month goes from the point before it to the point after it. -/
structure IsMonth (year : Int) (month : Nat) (period : FiscalPeriod) : Prop where
  start : period.start.number = daysBeforeMonth year month + 1
  stop : period.stop.number = daysBeforeMonth year (month + 1)
  regular : period.special = false

variable {year : Int} {month : Nat} {period : FiscalPeriod}

/-- The period of a month goes from its first day to its last one as they are found. -/
theorem monthPeriod_inv (h : monthPeriod year month = .ok period) :
    Date.ofYearMonthDay? year month 1 = some period.start ∧
      lastDayOfMonth year month = .ok period.stop ∧ period.special = false := by
  unfold monthPeriod at h
  split at h
  · cases h
  · rename_i start begins
    split at h
    · cases h
    · rename_i stop ends
      cases h
      exact ⟨begins, ends, rfl⟩

theorem isMonth_of_monthPeriod (first : 1 ≤ month) (last : month ≤ 12)
    (h : monthPeriod year month = .ok period) : IsMonth year month period := by
  obtain ⟨begins, ends, regular⟩ := monthPeriod_inv h
  rw [lastDayOfMonth_eq_ok_iff, Date.lastOfMonth?_eq_some_iff first last] at ends
  exact ⟨(Date.ofYearMonthDay?_eq_some_iff.1 begins).2, ends.1, regular⟩

/-- The period of a month holds the dates of the month. -/
theorem IsMonth.contains_iff (h : IsMonth year month period) (first : 1 ≤ month)
    (last : month ≤ 12) (date : Date) :
    period.contains date = true ↔ date.year = year ∧ date.month = month := by
  rw [FiscalPeriod.contains_iff, ← Date.in_month_iff first last, h.start, h.stop]
  exact and_congr_left fun _ => Int.add_one_le_iff

/-- A month has a period if the calendar has its first day and the day after its last one. -/
theorem exists_monthPeriod_iff_reached (first : 1 ≤ month) (last : month ≤ 12) :
    (∃ period, monthPeriod year month = .ok period) ↔
      firstDay ≤ daysBeforeMonth year month + 1 ∧ daysBeforeMonth year (month + 1) < lastDay := by
  constructor
  · rintro ⟨period, made⟩
    have here := isMonth_of_monthPeriod first last made
    obtain ⟨-, ends, -⟩ := monthPeriod_inv made
    rw [lastDayOfMonth_eq_ok_iff, Date.lastOfMonth?_eq_some_iff first last] at ends
    exact ⟨here.start ▸ period.start.firstDay_le, ends.1 ▸ ends.2⟩
  · rintro ⟨reached, left⟩
    have length := one_le_getD_monthLengths first last (isLeapYear year)
    have step : daysBeforeMonth year month < daysBeforeMonth year (month + 1) :=
      daysBeforeMonth_lt_succ first last
    have begins : Date.ofYearMonthDay? year month 1 =
        some ⟨daysBeforeMonth year month + 1, reached, by omega⟩ :=
      Date.ofYearMonthDay?_eq_some_iff.2 ⟨⟨first, le_rfl, length⟩, rfl⟩
    have ends : lastDayOfMonth year month =
        .ok ⟨daysBeforeMonth year (month + 1), by omega, by omega⟩ :=
      lastDayOfMonth_eq_ok_iff.2 ((Date.lastOfMonth?_eq_some_iff first last).2 ⟨rfl, left⟩)
    exact ⟨_, by rw [monthPeriod, begins, ends]⟩

/-- The months of the calendar have a period, but for the last one. -/
theorem exists_monthPeriod_iff (first : 1 ≤ month) (last : month ≤ 12) :
    (∃ period, monthPeriod year month = .ok period) ↔
      leastYear ≤ year ∧ year ≤ greatestYear ∧ ¬(year = greatestYear ∧ month = 12) := by
  rw [exists_monthPeriod_iff_reached first last, firstDay_le_daysBeforeMonth_iff first last,
    daysBeforeMonth_succ_lt_lastDay_iff first last]

/-- The months from January to December have the numbers from 1 to 12. -/
theorem months_bounds :
    ∀ month ∈ [1, 2, 3, 4, 5, 6, 7, 8, 9, 10, 11, 12], 1 ≤ month ∧ month ≤ 12 := by
  decide

/-- Some months of a year of the calendar have their periods, if the last month is not one of
them. -/
theorem exists_monthPeriods {months : List Nat} (low : leastYear ≤ year)
    (high : year ≤ greatestYear) (bounds : ∀ month ∈ months, 1 ≤ month ∧ month ≤ 12)
    (other : ∀ month ∈ months, ¬(year = greatestYear ∧ month = 12)) :
    ∃ periods, List.Forall₂ (fun month period => monthPeriod year month = .ok period)
      months periods := by
  obtain ⟨periods, all⟩ : ∃ periods, months.mapM (monthPeriod year) = .ok periods := by
    refine exists_mapM_eq_ok fun month member => ?_
    obtain ⟨first, last⟩ := bounds month member
    exact (exists_monthPeriod_iff first last).2 ⟨low, high, other month member⟩
  exact ⟨periods, mapM_eq_ok.1 all⟩

/-! ## Adding periods -/

/-- Adds some fiscal periods of a company. -/
def addPeriods (book : Book) (company : String) (periods : List FiscalPeriod) : Book :=
  { book with periods := book.periods.insert company (book.periodsOf company ++ periods) }

theorem periodsOf_addPeriods (book : Book) (company : String) (periods : List FiscalPeriod)
    (other : String) : (book.addPeriods company periods).periodsOf other =
      if other = company then book.periodsOf company ++ periods else book.periodsOf other := by
  rw [periodsOf, addPeriods, Table.get?_insert]
  split
  · rfl
  · rfl

theorem addPeriods_append (book : Book) (company : String) (periods more : List FiscalPeriod) :
    (book.addPeriods company periods).addPeriods company more =
      book.addPeriods company (periods ++ more) := by
  have all := periodsOf_addPeriods book company periods company
  rw [if_pos rfl] at all
  rw [addPeriods, all]
  simp only [addPeriods, Table.insert_insert, List.append_assoc]

variable {book book' : Book} {company : String}

/-- Adding months goes on after a month that has a period. -/
theorem addMonths_cons_eq_ok_iff {months : List Nat} :
    book.addMonths company year (month :: months) = (book', .ok ()) ↔
      ∃ period, monthPeriod year month = .ok period ∧
        (book.addPeriods company [period]).addMonths company year months = (book', .ok ()) := by
  rw [addMonths]
  cases monthPeriod year month with
  | error e => simp
  | ok period =>
    constructor
    · intro rest
      exact ⟨period, rfl, rest⟩
    · rintro ⟨_, made, rest⟩
      cases made
      exact rest

/-- Adding some months to periods added before succeeds if each of them has a period, and adds these
periods. -/
theorem addMonths_addPeriods_eq_ok_iff {months : List Nat} {before : List FiscalPeriod} :
    (book.addPeriods company before).addMonths company year months = (book', .ok ()) ↔
      ∃ periods, List.Forall₂ (fun month period => monthPeriod year month = .ok period)
        months periods ∧ book' = book.addPeriods company (before ++ periods) := by
  induction months generalizing before with
  | nil =>
    rw [addMonths, Prod.mk.injEq]
    simp only [List.forall₂_nil_left_iff, exists_eq_left, List.append_nil, and_true]
    exact eq_comm
  | cons month months ih =>
    rw [addMonths_cons_eq_ok_iff]
    constructor
    · rintro ⟨period, made, rest⟩
      rw [addPeriods_append, ih] at rest
      obtain ⟨periods, all, same⟩ := rest
      exact ⟨period :: periods, .cons made all, by rw [same, List.append_assoc]; rfl⟩
    · rintro ⟨_, all, same⟩
      cases all with
      | cons made all =>
        refine ⟨_, made, ?_⟩
        rw [addPeriods_append, ih]
        exact ⟨_, all, by rw [same, List.append_assoc]; rfl⟩

/-- Adding some months succeeds if each of them has a period, and adds these periods. -/
theorem addMonths_eq_ok_iff {months : List Nat} (nonempty : months ≠ []) :
    book.addMonths company year months = (book', .ok ()) ↔
      ∃ periods, List.Forall₂ (fun month period => monthPeriod year month = .ok period)
        months periods ∧ book' = book.addPeriods company periods := by
  obtain ⟨month, months, rfl⟩ := List.exists_cons_of_ne_nil nonempty
  rw [addMonths_cons_eq_ok_iff]
  constructor
  · rintro ⟨period, made, rest⟩
    obtain ⟨periods, all, same⟩ := addMonths_addPeriods_eq_ok_iff.1 rest
    exact ⟨period :: periods, .cons made all, same⟩
  · rintro ⟨_, all, same⟩
    cases all with
    | cons made all => exact ⟨_, made, addMonths_addPeriods_eq_ok_iff.2 ⟨_, all, same⟩⟩

end Book

/-! ## The periods of a year -/

/-- Twelve regular periods which are the months of a year in order. -/
structure FiscalPeriod.AreMonthsOf (periods : List FiscalPeriod) (year : Int) : Prop where
  length : periods.length = 12
  regular : ∀ period ∈ periods, period.special = false
  contains_iff : ∀ {index : Nat} {period : FiscalPeriod}, periods[index]? = some period →
    ∀ date, period.contains date = true ↔ date.year = year ∧ date.month = index + 1
  first : ∃ period, periods.head? = some period ∧
    Date.ofYearMonthDay? year 1 1 = some period.start
  last : ∃ period, periods.getLast? = some period ∧
    Date.ofYearMonthDay? year 12 31 = some period.stop
  adjacent : ∀ {index : Nat} {period next : FiscalPeriod}, periods[index]? = some period →
    periods[index + 1]? = some next → period.stop.shift? 1 = some next.start

namespace FiscalPeriod.AreMonthsOf

variable {periods : List FiscalPeriod} {year : Int} {date : Date}

/-- A date of the year lies in the period of its month and in no other. -/
theorem existsUnique (h : AreMonthsOf periods year) (within : date.year = year) :
    ∃! index : Nat, ∃ period : FiscalPeriod,
      periods[index]? = some period ∧ period.contains date = true := by
  obtain ⟨first, last, -⟩ := date.month_bounds
  obtain ⟨index, month⟩ : ∃ index, date.month = index + 1 := ⟨date.month - 1, by omega⟩
  have inside : index < periods.length := by
    rw [h.length]
    omega
  refine ⟨index, ⟨periods[index], List.getElem?_eq_getElem inside, ?_⟩, ?_⟩
  · exact (h.contains_iff (List.getElem?_eq_getElem inside) date).2 ⟨within, month⟩
  · rintro other ⟨period, found, contains⟩
    have month' := ((h.contains_iff found date).1 contains).2
    omega

/-- A date of another year lies in none of the periods. -/
theorem not_contains (h : AreMonthsOf periods year) (outside : date.year ≠ year) :
    ∀ period ∈ periods, period.contains date = false := by
  intro period member
  obtain ⟨index, found⟩ := List.getElem?_of_mem member
  rw [Bool.eq_false_iff, ne_eq, h.contains_iff found]
  exact fun contains => outside contains.1

end FiscalPeriod.AreMonthsOf

namespace Book

variable {year : Int} {periods : List FiscalPeriod} {book book' : Book} {company : String}

/-- The periods made for the twelve months are the months of the year. -/
theorem areMonthsOf_of_monthPeriods (all : List.Forall₂
    (fun month period => monthPeriod year month = .ok period)
      [1, 2, 3, 4, 5, 6, 7, 8, 9, 10, 11, 12] periods) :
    FiscalPeriod.AreMonthsOf periods year := by
  have length : periods.length = 12 := all.length_eq.symm
  have made {index : Nat} {period : FiscalPeriod} (h : periods[index]? = some period) :
      index + 1 ≤ 12 ∧ IsMonth year (index + 1) period := by
    obtain ⟨inside, rfl⟩ := List.getElem?_eq_some_iff.1 h
    have bound : index < 12 := length ▸ inside
    have step := all.get bound inside
    have month : [1, 2, 3, 4, 5, 6, 7, 8, 9, 10, 11, 12].get ⟨index, bound⟩ = index + 1 := by
      interval_cases index <;> rfl
    rw [month] at step
    exact ⟨bound, isMonth_of_monthPeriod (Nat.succ_pos _) bound step⟩
  refine ⟨length, ?regular, ?contains, ?first, ?last, ?adjacent⟩
  case regular =>
    intro period member
    obtain ⟨index, found⟩ := List.getElem?_of_mem member
    exact (made found).2.regular
  case contains =>
    intro index period found
    obtain ⟨bound, month⟩ := made found
    exact month.contains_iff (Nat.succ_pos _) bound
  case first =>
    obtain ⟨period, found⟩ : ∃ period, periods[0]? = some period :=
      ⟨_, List.getElem?_eq_getElem (by omega)⟩
    refine ⟨period, List.head?_eq_getElem?.trans found, ?_⟩
    have one : 1 ≤ (monthLengths (isLeapYear year)).getD 0 0 :=
      one_le_getD_monthLengths (Nat.le_refl 1) (by decide) _
    exact Date.ofYearMonthDay?_eq_some_iff.2 ⟨⟨le_rfl, le_rfl, one⟩, (made found).2.start⟩
  case last =>
    obtain ⟨period, found⟩ : ∃ period, periods[11]? = some period :=
      ⟨_, List.getElem?_eq_getElem (by omega)⟩
    have ends : periods.getLast? = periods[11]? := by rw [List.getLast?_eq_getElem?, length]
    refine ⟨period, ends.trans found, ?_⟩
    have whole : (monthLengths (isLeapYear year)).getD 11 0 = 31 := by
      cases isLeapYear year <;> decide
    have stop := (made found).2.stop
    rw [daysBeforeMonth_succ (by decide) (by decide)] at stop
    exact Date.ofYearMonthDay?_eq_some_iff.2 ⟨⟨by decide, by decide, whole.ge⟩, whole ▸ stop⟩
  case adjacent =>
    intro index period next found after
    have start := (made after).2.start
    have stop := (made found).2.stop
    rw [Date.shift?, Date.ofNumber?_eq_some_iff, start, stop]

theorem addMonthlyPeriods_eq_ok_iff : book.addMonthlyPeriods company year = (book', .ok ()) ↔
    ∃ periods, List.Forall₂ (fun month period => monthPeriod year month = .ok period)
      [1, 2, 3, 4, 5, 6, 7, 8, 9, 10, 11, 12] periods ∧
        book' = book.addPeriods company periods :=
  addMonths_eq_ok_iff (List.cons_ne_nil _ _)

/-- The months of every year of the calendar but the last can be added. The day after the last year
is missing, from which its last day is found. -/
theorem exists_addMonthlyPeriods_iff (book : Book) (company : String) (year : Int) :
    (∃ book', book.addMonthlyPeriods company year = (book', .ok ())) ↔
      leastYear ≤ year ∧ year < greatestYear := by
  constructor
  · rintro ⟨book', done⟩
    obtain ⟨periods, all, -⟩ := addMonthlyPeriods_eq_ok_iff.1 done
    obtain ⟨december, -, made⟩ := exists_mem_of_forall₂ all (x := 12) (by decide)
    have within := (exists_monthPeriod_iff (by decide) (by decide)).1 ⟨_, made⟩
    omega
  · rintro ⟨reached, left⟩
    obtain ⟨periods, all⟩ := exists_monthPeriods reached left.le months_bounds
      fun _ _ last => left.ne last.1
    exact ⟨_, addMonthlyPeriods_eq_ok_iff.2 ⟨periods, all, rfl⟩⟩

/-- **The periods added for a year partition it.** Where adding succeeds, the company has twelve
further periods, which are the months of the year; each date of the year lies in exactly one of
them, and no other date lies in any. -/
theorem addMonthlyPeriods_partition (done : book.addMonthlyPeriods company year = (book', .ok ())) :
    ∃ periods, FiscalPeriod.AreMonthsOf periods year ∧
      book' = { book with
        periods := book.periods.insert company (book.periodsOf company ++ periods) } ∧
      (∀ other, book'.periodsOf other =
        if other = company then book.periodsOf company ++ periods else book.periodsOf other) ∧
      (∀ date : Date, date.year = year → ∃! index : Nat, ∃ period : FiscalPeriod,
        periods[index]? = some period ∧ period.contains date = true) ∧
      ∀ date : Date, date.year ≠ year → ∀ period ∈ periods, period.contains date = false := by
  obtain ⟨periods, all, rfl⟩ := addMonthlyPeriods_eq_ok_iff.1 done
  have months := areMonthsOf_of_monthPeriods all
  exact ⟨periods, months, rfl, periodsOf_addPeriods book company periods,
    fun _ within => months.existsUnique within, fun _ outside => months.not_contains outside⟩

/-- The leap year 2024 in a book with nothing in it. -/
theorem addMonthlyPeriods_partition_leap_year :
    let added := ({} : Book).addMonthlyPeriods "main" 2024
    ∃ periods, FiscalPeriod.AreMonthsOf periods 2024 ∧ added.1.periods = [("main", periods)] := by
  intro added
  have done : added = (added.1, .ok ()) := Prod.ext rfl (by rfl)
  obtain ⟨periods, months, same, -⟩ := addMonthlyPeriods_partition done
  exact ⟨periods, months, by rw [same]; rfl⟩

end Book

end KpiReport
