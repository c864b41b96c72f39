import KpiReport.Proofs.Ledger.Months

/-!
# Years that cannot be added

The last day of a month is found as the day before the first of the next month. The calendar ends
with a year, so one of its months has no next one: December of `greatestYear`, whose last day is a
date and is not found (`lastDayOfMonth_eq_ok_iff_of_isLastOf`).

The months of a year are added one by one, and what was added stays when a later month has no period
(`Book.addMonths_eq_error_iff`). Every month of a year has a period or none has, but for the last
year, of which eleven months are added (`Book.addMonthlyPeriods_greatestYear`). The main statement,
`Book.addMonthlyPeriods_all_or_nothing_iff`, says that a year which cannot be added leaves the
periods as they are exactly if it is not the last one, and that the last day of a month is found
exactly if the month is not the last one.
-/

namespace KpiReport

open Calendar

/-! ## The last day of a month -/

namespace Calendar.Date

/-- The last day of a month, whose place in the month is the length of the month. -/
structure IsLastOf (date : Date) (year : Int) (month : Nat) : Prop where
  year_eq : date.year = year
  month_eq : date.month = month
  dayOfMonth_eq : date.dayOfMonth = (monthLengths (isLeapYear year)).getD (month - 1) 0

variable {date : Date} {year : Int} {month : Nat}

theorem IsLastOf.month_bounds (h : date.IsLastOf year month) : 1 ≤ month ∧ month ≤ 12 := by
  obtain ⟨first, last, -⟩ := date.month_bounds
  rw [h.month_eq] at first last
  exact ⟨first, last⟩

/-- The last day of a month is the point after it. -/
theorem IsLastOf.number_eq (h : date.IsLastOf year month) :
    date.number = daysBeforeMonth year (month + 1) := by
  have parts := (ofYearMonthDay?_eq_some_iff.1 date.ofYearMonthDay?_parts.1).2
  rw [h.year_eq, h.month_eq, h.dayOfMonth_eq] at parts
  rw [daysBeforeMonth_succ h.month_bounds.1 h.month_bounds.2, parts]

/-- No date of a month comes after its last day. -/
theorem IsLastOf.le (h : date.IsLastOf year month) {other : Date} (sameYear : other.year = year)
    (sameMonth : other.month = month) : other ≤ date := by
  obtain ⟨-, -, -, high⟩ := other.month_bounds
  rw [sameYear, sameMonth, ← h.number_eq] at high
  exact high

theorem year_le_greatestYear (date : Date) : date.year ≤ greatestYear := by
  obtain ⟨first, -, low, -⟩ := date.month_bounds
  have starts := daysBeforeYear_le_daysBeforeMonth date.year first
  have reached := date.le_lastDay
  have years : daysBeforeYear date.year < daysBeforeYear (greatestYear + 1) := by
    unfold lastDay at reached
    omega
  exact Int.lt_add_one_iff.1 (daysBeforeYear_strictMono.lt_iff_lt.1 years)

end Calendar.Date

/-- The last day of a month is found exactly if a month of the calendar comes after it. -/
theorem lastDayOfMonth_eq_ok_iff_of_isLastOf {year : Int} {month : Nat} {date : Date}
    (h : date.IsLastOf year month) :
    lastDayOfMonth year month = .ok date ↔ ¬(year = greatestYear ∧ month = 12) := by
  obtain ⟨first, last⟩ := h.month_bounds
  have within : year ≤ greatestYear := h.year_eq ▸ date.year_le_greatestYear
  rw [lastDayOfMonth_eq_ok_iff, Date.lastOfMonth?_eq_some_iff first last, h.number_eq,
    daysBeforeMonth_succ_lt_lastDay_iff first last]
  exact (and_iff_right rfl).trans (and_iff_right within)

/-! ## Failing months -/

namespace Book

variable {book book' : Book} {company : String} {year : Int} {failure : ReportError}

/-- Adding months fails at a month without a period, with the book as it is, or goes on after a
month that has one. -/
theorem addMonths_cons_eq_error_iff {month : Nat} {months : List Nat} :
    book.addMonths company year (month :: months) = (book', .error failure) ↔
      monthPeriod year month = .error failure ∧ book' = book ∨
        ∃ period, monthPeriod year month = .ok period ∧
          (book.addPeriod company period).addMonths company year months =
            (book', .error failure) := by
  rw [addMonths]
  cases monthPeriod year month with
  | error e => simp [and_comm, eq_comm]
  | ok period => simp

/-- Adding months fails at the first month without a period; the periods of the months before it
have been added. -/
theorem addMonths_eq_error_iff {months : List Nat} :
    book.addMonths company year months = (book', .error failure) ↔
      ∃ earlier month later periods, months = earlier ++ month :: later ∧
        List.Forall₂ (fun month period => monthPeriod year month = .ok period) earlier periods ∧
        monthPeriod year month = .error failure ∧
        book' = periods.foldl (fun book period => book.addPeriod company period) book := by
  induction months generalizing book with
  | nil =>
    refine iff_of_false nofun ?_
    rintro ⟨earlier, month, later, _, split, -⟩
    exact List.append_ne_nil_of_right_ne_nil _ (List.cons_ne_nil _ _) split.symm
  | cons next months ih =>
    rw [addMonths_cons_eq_error_iff]
    constructor
    · rintro (⟨missing, rfl⟩ | ⟨period, made, rest⟩)
      · exact ⟨[], next, months, [], rfl, .nil, missing, rfl⟩
      · obtain ⟨earlier, month, later, periods, rfl, all, missing, rfl⟩ := ih.1 rest
        exact ⟨next :: earlier, month, later, period :: periods, rfl, .cons made all, missing, rfl⟩
    · rintro ⟨earlier, month, later, periods, split, all, missing, rfl⟩
      cases all with
      | nil =>
        obtain ⟨rfl, rfl⟩ := List.cons.inj split
        exact .inl ⟨missing, rfl⟩
      | cons made all =>
        obtain ⟨rfl, rfl⟩ := List.cons.inj split
        exact .inr ⟨_, made, ih.2 ⟨_, month, later, _, rfl, all, missing, rfl⟩⟩

/-- Fiscal periods added one after the other are added after those before. -/
theorem foldl_addPeriod_addPeriods (before periods : List FiscalPeriod) :
    periods.foldl (fun book period => book.addPeriod company period)
      (book.addPeriods company before) = book.addPeriods company (before ++ periods) := by
  induction periods generalizing before with
  | nil => rw [List.foldl_nil, List.append_nil]
  | cons period periods ih =>
    have one : (book.addPeriods company before).addPeriod company period =
        book.addPeriods company (before ++ [period]) :=
      addPeriods_append book company before [period]
    rw [List.foldl_cons, one, ih, List.append_assoc, List.singleton_append]

theorem periods_addPeriods_ne {periods : List FiscalPeriod} (nonempty : periods ≠ []) :
    (book.addPeriods company periods).periods ≠ book.periods := by
  intro same
  have listed : (book.addPeriods company periods).periodsOf company = book.periodsOf company := by
    rw [periodsOf, same, periodsOf]
  rw [periodsOf_addPeriods, if_pos rfl] at listed
  exact nonempty (List.append_right_eq_self.1 listed)

/-! ## Failing years -/

/-- Nothing is left of a year that cannot be added, if it is not the last one. -/
theorem eq_of_addMonthlyPeriods_eq_error (other : year ≠ greatestYear)
    (failed : book.addMonthlyPeriods company year = (book', .error failure)) : book' = book := by
  obtain ⟨earlier, month, later, periods, split, all, missing, rfl⟩ :=
    addMonths_eq_error_iff.1 failed
  have within : 1 ≤ month ∧ month ≤ 12 :=
    months_bounds month (split ▸ List.mem_append_right earlier List.mem_cons_self)
  cases all with
  | nil => rfl
  | cons made _ =>
    -- the first month of the year has a period, and so has every other one
    obtain ⟨rfl, -⟩ := List.cons.inj split
    have reached := (exists_monthPeriod_iff (by decide) (by decide)).1 ⟨_, made⟩
    obtain ⟨_, made'⟩ := (exists_monthPeriod_iff within.1 within.2).2
      ⟨reached.1, reached.2.1, fun last => other last.1⟩
    cases missing.symm.trans made'

/-- Of the last year, all months are added but the last one. -/
theorem addMonthlyPeriods_greatestYear (book : Book) (company : String) :
    ∃ periods, List.Forall₂ (fun month period => monthPeriod greatestYear month = .ok period)
      [1, 2, 3, 4, 5, 6, 7, 8, 9, 10, 11] periods ∧
        book.addMonthlyPeriods company greatestYear =
          (book.addPeriods company periods, .error (.date (.invalidMonth greatestYear 12))) := by
  obtain ⟨periods, all⟩ : ∃ periods, List.Forall₂
      (fun month period => monthPeriod greatestYear month = .ok period)
        [1, 2, 3, 4, 5, 6, 7, 8, 9, 10, 11] periods :=
    exists_monthPeriods (by decide) le_rfl (by decide) (by decide)
  have missing : monthPeriod greatestYear 12 = .error (.date (.invalidMonth greatestYear 12)) := by
    rfl
  have added : book.addPeriods company periods =
      periods.foldl (fun book period => book.addPeriod company period) book := by
    cases all with
    | cons _ _ => exact (foldl_addPeriod_addPeriods [_] _).symm
  exact ⟨periods, all, addMonths_eq_error_iff.2
    ⟨[1, 2, 3, 4, 5, 6, 7, 8, 9, 10, 11], 12, [], periods, rfl, all, missing, added⟩⟩

/-- **Adding the months of a year is all or nothing, but for the last year.** A year that cannot be
added leaves the periods as they are exactly if it is not the last year of the calendar, and a date
which is the last day of a month is found as such exactly if the month is not the last one. -/
theorem addMonthlyPeriods_all_or_nothing_iff (book : Book) (company : String) (year : Int) :
    (∀ {book' : Book} {failure : ReportError},
      book.addMonthlyPeriods company year = (book', .error failure) →
        (book'.periods = book.periods ↔ year ≠ greatestYear)) ∧
    ∀ {month : Nat} {date : Date}, date.IsLastOf year month →
      (lastDayOfMonth year month = .ok date ↔ ¬(year = greatestYear ∧ month = 12)) := by
  refine ⟨fun failed => ⟨?kept, ?other⟩, lastDayOfMonth_eq_ok_iff_of_isLastOf⟩
  case kept =>
    rintro kept rfl
    obtain ⟨periods, all, added⟩ := addMonthlyPeriods_greatestYear book company
    cases failed.symm.trans added
    cases all with
    | cons _ _ => exact periods_addPeriods_ne (List.cons_ne_nil _ _) kept
  case other =>
    intro other
    rw [eq_of_addMonthlyPeriods_eq_error other failed]

/-- The first year after the calendar, in a book with the months of 2024, and the end of its
February. -/
theorem addMonthlyPeriods_all_or_nothing_beyond :
    let book := (({} : Book).addMonthlyPeriods "main" 2024).1
    let added := book.addMonthlyPeriods "main" 262143
    let date : Date := ⟨738945, by decide, by decide⟩
    added.2 = .error (.date (.invalidYear 262143)) ∧ added.1.periods = book.periods ∧
      date.IsLastOf 2024 2 ∧ lastDayOfMonth 2024 2 = .ok date := by
  intro book added date
  have failed : added.2 = .error (.date (.invalidYear 262143)) := by rfl
  have last : date.IsLastOf 2024 2 := ⟨by rfl, by rfl, by rfl⟩
  have same := (addMonthlyPeriods_all_or_nothing_iff book "main" 262143).1 (Prod.ext rfl failed)
  have found := (addMonthlyPeriods_all_or_nothing_iff book "main" 2024).2 last
  exact ⟨failed, same.2 (by decide), last, found.2 (by decide)⟩

/-- The last year in a book with nothing in it: its last day is a date, which is not found, and so
eleven months are left of it. -/
theorem addMonthlyPeriods_leaves_eleven_months :
    let added := ({} : Book).addMonthlyPeriods "main" 262142
    let failure : ReportError := .date (.invalidMonth 262142 12)
    let date : Date := ⟨lastDay, by decide, le_rfl⟩
    added.2 = .error failure ∧ (added.1.periodsOf "main").length = 11 ∧
      date.IsLastOf 262142 12 ∧ lastDayOfMonth 262142 12 = .error failure :=
  ⟨by rfl, by rfl, ⟨by rfl, by rfl, by rfl⟩, by rfl⟩

end Book

end KpiReport
