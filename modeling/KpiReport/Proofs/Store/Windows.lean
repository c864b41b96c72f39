import KpiReport.Proofs.Account.Counting
import KpiReport.Proofs.Period.Movement
import KpiReport.Store.Fetch
import KpiReport.Store.Tables

/-!
# The days that a query covers

A query is bounded to the days of a period. A date is compared with the first and the last day, a
point in universal time with the local midnights before the first day and after the last one; either
way the records that are left are those whose local day lies in the period
(`Query.boundedFilter_selects`). So adjacent periods share out the records of the period that they
make together.
-/

namespace KpiReport

open KpiReport.Calendar

namespace Calendar

/-- The local day of a point in universal time, if the calendar reaches it; a leap second is on the
day of the second before it. -/
def UtcOffset.localDate? (offset : UtcOffset) (time : DateTime) : Option Date :=
  time.date.shift? ((time.secondOfDay + offset.seconds) / secondsPerDay)

/-- The number of the local day of a point in universal time. -/
def UtcOffset.localDay (offset : UtcOffset) (time : DateTime) : Int :=
  (time.seconds + offset.seconds) / secondsPerDay

theorem UtcOffset.localDay_eq (offset : UtcOffset) (time : DateTime) : offset.localDay time =
    time.date.number + (time.secondOfDay + offset.seconds) / secondsPerDay := by
  have positive : (secondsPerDay : Int) ≠ 0 := by decide
  rw [localDay, DateTime.seconds, Int.add_assoc, Int.add_comm, Int.add_mul_ediv_right _ _ positive,
    Int.add_comm]

/-- The local day is within two dates exactly if its number is within theirs. -/
theorem UtcOffset.exists_localDate?_iff (offset : UtcOffset) (time : DateTime) (start stop : Date) :
    (∃ day, offset.localDate? time = some day ∧ start ≤ day ∧ day ≤ stop) ↔
      start.number ≤ offset.localDay time ∧ offset.localDay time ≤ stop.number := by
  simp only [localDate?, Date.shift?, Date.ofNumber?_eq_some_iff, ← offset.localDay_eq]
  constructor
  · rintro ⟨day, number, first, last⟩
    rw [← number]
    exact ⟨first, last⟩
  · rintro ⟨first, last⟩
    exact ⟨⟨offset.localDay time, Int.le_trans start.firstDay_le first,
      Int.le_trans last stop.le_lastDay⟩, rfl, first, last⟩

theorem UtcOffset.seconds_of_midnight? {offset : UtcOffset} {date : Date} {time : DateTime}
    (h : offset.midnight? date = some time) :
    time.seconds = date.number * secondsPerDay - offset.seconds ∧ time.nanos = 0 := by
  obtain ⟨day, shifted, rfl⟩ := Option.map_eq_some_iff.1 h
  have number := Date.ofNumber?_eq_some_iff.1 shifted
  refine ⟨?_, rfl⟩
  simp only [DateTime.seconds, number, secondsPerDay]
  omega

/-- A point in time is not before the start of a second exactly if its second is not. -/
theorem DateTime.instant_le_instant_iff {first : DateTime} (start : first.nanos = 0)
    (time : DateTime) : first.instant ≤ time.instant ↔ first.seconds ≤ time.seconds := by
  have bound := time.nanos_lt_two_seconds
  simp only [DateTime.instant, start, nanosPerSecond] at bound ⊢
  omega

end Calendar

theorem seconds_of_utcMidnight {date : Date} {offset : UtcOffset} {days : Int} {time : DateTime}
    (h : utcMidnight date offset days = .ok time) :
    time.seconds = (date.number + days) * secondsPerDay - offset.seconds ∧ time.nanos = 0 := by
  unfold utcMidnight at h
  split at h
  · cases h
  · rename_i day shifted
    unfold Result.ofOption at h
    split at h
    · rename_i found
      cases h
      rw [← shiftDays_eq_ok_iff.1 shifted]
      exact UtcOffset.seconds_of_midnight? found
    · cases h

/-- Points in time are compared by their instants. -/
theorem FilterOp.holds_dateTime (t u : DateTime) :
    (FilterOp.lt.holds (.dateTime t) (.dateTime u) = true ↔ t.instant < u.instant) ∧
      (FilterOp.ge.holds (.dateTime t) (.dateTime u) = true ↔ u.instant ≤ t.instant) := by
  have order : FieldValue.order? (.dateTime t) (.dateTime u) =
      some (FieldValue.intOrder t.instant u.instant) := rfl
  simp only [FilterOp.holds, order, FieldValue.intOrder, CompareOp.holds]
  split_ifs <;> simp <;> omega

/-- A field of the kind holds a value of that kind, which stands for a local day; there is none if
the calendar does not reach it. -/
inductive FieldKind.Dates (offset : UtcOffset) : FieldKind → FieldValue → Option Date → Prop where
  | date (d : Date) : Dates offset .date (.date d) (some d)
  | time {kind : FieldKind} (other : kind ≠ .date) (t : DateTime) :
    Dates offset kind (.dateTime t) (offset.localDate? t)

/-- The day is one of the days of the period. -/
def Bounds.Includes (bounds : Bounds) (day : Option Date) : Prop :=
  ∃ d ∈ day, bounds.start ≤ d ∧ d ≤ bounds.stop

/-- The second period starts on the day after the first one ends, and neither ends before it
starts. -/
structure Bounds.Adjacent (first second : Bounds) : Prop where
  proper : first.start ≤ first.stop
  proper' : second.start ≤ second.stop
  next : first.stop.shift? 1 = some second.start

/-- No day is in both of two adjacent periods, and the period that they make together includes the
days of either. -/
theorem Bounds.Adjacent.includes {first second : Bounds} (adjacent : first.Adjacent second)
    (fiscal : Option FiscalSpan) (day : Option Date) :
    ¬ (first.Includes day ∧ second.Includes day) ∧
      (Bounds.Includes ⟨first.start, second.stop, fiscal⟩ day ↔
        first.Includes day ∨ second.Includes day) := by
  obtain ⟨proper, proper', next⟩ := adjacent
  have number := Date.ofNumber?_eq_some_iff.1 next
  have order (a b : Date) : a ≤ b ↔ a.number ≤ b.number := Iff.rfl
  simp only [order] at proper proper'
  cases day with
  | none => simp [Includes]
  | some d =>
    simp only [Includes, Option.mem_def, Option.some.injEq, exists_eq_left', order]
    omega

namespace Query

section Windows

variable {store : RecordStore} {query : Query} {offset : UtcOffset} {bounds : Bounds}
  {extra : Option Filter} {filter : Filter} {info : FieldInfo} {record : Record} {day : Option Date}

theorem matches_two (record : String → FieldValue) (field : String) (p q : FilterOp)
    (v w : FieldValue) : Filter.matches record [.field field p v, .field field q w] = true ↔
      p.holds (record field) v = true ∧ q.holds (record field) w = true := by
  simp only [Filter.matches, Condition.matches, Bool.and_true, Bool.and_eq_true]

/-- Fields that hold no dates are bounded by two midnights. -/
theorem exists_midnights {field : String} {kind : FieldKind} {dates : Filter}
    (built : dateConditions field kind bounds offset = .ok dates) (other : kind ≠ .date) :
    ∃ first last, utcMidnight bounds.start offset 0 = .ok first ∧
      utcMidnight bounds.stop offset 1 = .ok last ∧
      dates = [.field field .ge (.dateTime first), .field field .lt (.dateTime last)] := by
  unfold dateConditions at built
  split at built
  · exact absurd rfl other
  all_goals
    split at built
    · cases built
    · rename_i first start
      split at built
      · cases built
      · rename_i last stop
        cases built
        exact ⟨first, last, start, stop, rfl⟩

theorem dateConditions_matches {field : String} {kind : FieldKind} {dates : Filter}
    (built : dateConditions field kind bounds offset = .ok dates)
    (dated : kind.Dates offset (record.field field) day) :
    Filter.matches record.field dates = true ↔ bounds.Includes day := by
  generalize held : record.field field = value at dated
  cases dated with
  | date d =>
    cases built
    rw [matches_two, held, (FilterOp.holds_date _ _).2.2, (FilterOp.holds_date _ _).2.1]
    simp only [Bounds.Includes, Option.mem_def, Option.some.injEq, exists_eq_left']
    rfl
  | time other t =>
    obtain ⟨first, last, start, stop, rfl⟩ := exists_midnights built other
    obtain ⟨startSeconds, startNanos⟩ := seconds_of_utcMidnight start
    obtain ⟨stopSeconds, stopNanos⟩ := seconds_of_utcMidnight stop
    rw [matches_two, held, (FilterOp.holds_dateTime _ _).2, (FilterOp.holds_dateTime _ _).1,
      ← Int.not_le, DateTime.instant_le_instant_iff startNanos,
      DateTime.instant_le_instant_iff stopNanos, startSeconds, stopSeconds]
    refine Iff.trans ?_ (offset.exists_localDate?_iff t bounds.start bounds.stop).symm
    simp only [UtcOffset.localDay, secondsPerDay]
    omega

theorem boundedFilter_eq_ok (known : store.fieldInfo query.model query.dateField = .ok info) :
    query.boundedFilter store offset bounds extra = .ok filter ↔
      ∃ dates, dateConditions query.dateField info.kind bounds offset = .ok dates ∧
        query.filter ++ extra.getD [] ++ dates = filter := by
  rw [boundedFilter, known]
  exact map_eq_ok

/-- What the filter of a query for a period selects: records that its own filter and the extra one
select, if their local day is in the period. -/
theorem boundedFilter_matches (known : store.fieldInfo query.model query.dateField = .ok info)
    (dated : info.kind.Dates offset (record.field query.dateField) day)
    (built : query.boundedFilter store offset bounds extra = .ok filter) :
    Filter.matches record.field filter = true ↔
      Filter.matches record.field query.filter = true ∧
        Filter.matches record.field (extra.getD []) = true ∧ bounds.Includes day := by
  obtain ⟨dates, conditions, rfl⟩ := (boundedFilter_eq_ok known).1 built
  rw [Filter.matches_append, Filter.matches_append, Bool.and_eq_true, Bool.and_eq_true,
    dateConditions_matches conditions dated, and_assoc]

theorem exists_dateConditions_join {field : String} {kind : FieldKind} {first second : Bounds}
    {dates dates' : Filter} (built : dateConditions field kind first offset = .ok dates)
    (built' : dateConditions field kind second offset = .ok dates') (fiscal : Option FiscalSpan) :
    ∃ whole, dateConditions field kind ⟨first.start, second.stop, fiscal⟩ offset = .ok whole := by
  by_cases date : kind = .date
  · subst date
    exact ⟨_, rfl⟩
  · obtain ⟨start, -, midnight, -, -⟩ := exists_midnights built date
    obtain ⟨-, stop, -, midnight', -⟩ := exists_midnights built' date
    cases kind with
    | date => exact absurd rfl date
    | dateTime | other =>
      refine ⟨[.field field .ge (.dateTime start), .field field .lt (.dateTime stop)], ?_⟩
      simp only [dateConditions, midnight, midnight']

/-- **The windows of queries.** Where the filter of a query for a period can be built, it selects of
the records that hold a date, or a point in time, those that its own filter and the extra one select
and whose local day is in the period. Of two adjacent periods, at most one selects such a record,
and the period that they make together selects it exactly if one of them does. -/
theorem boundedFilter_selects (known : store.fieldInfo query.model query.dateField = .ok info)
    (dated : info.kind.Dates offset (record.field query.dateField) day) :
    (∀ bounds extra filter, query.boundedFilter store offset bounds extra = .ok filter →
      (Filter.matches record.field filter = true ↔
        Filter.matches record.field query.filter = true ∧
          Filter.matches record.field (extra.getD []) = true ∧ bounds.Includes day)) ∧
      ∀ first second extra filter filter', first.Adjacent second →
        query.boundedFilter store offset first extra = .ok filter →
        query.boundedFilter store offset second extra = .ok filter' →
        ¬ (Filter.matches record.field filter = true ∧
          Filter.matches record.field filter' = true) ∧
        ∀ fiscal, ∃ whole,
          query.boundedFilter store offset ⟨first.start, second.stop, fiscal⟩ extra = .ok whole ∧
          (Filter.matches record.field whole = true ↔
            Filter.matches record.field filter = true ∨
              Filter.matches record.field filter' = true) := by
  refine ⟨fun bounds extra filter built => boundedFilter_matches known dated built, ?_⟩
  intro first second extra filter filter' adjacent built built'
  rw [boundedFilter_matches known dated built, boundedFilter_matches known dated built']
  obtain ⟨dates, conditions, -⟩ := (boundedFilter_eq_ok known).1 built
  obtain ⟨dates', conditions', -⟩ := (boundedFilter_eq_ok known).1 built'
  constructor
  · rintro ⟨⟨-, -, left⟩, -, -, right⟩
    exact (adjacent.includes none day).1 ⟨left, right⟩
  · intro fiscal
    obtain ⟨joined, together⟩ := exists_dateConditions_join conditions conditions' fiscal
    have whole : query.boundedFilter store offset ⟨first.start, second.stop, fiscal⟩ extra =
        .ok (query.filter ++ extra.getD [] ++ joined) :=
      (boundedFilter_eq_ok known).2 ⟨joined, together, rfl⟩
    refine ⟨_, whole, ?_⟩
    rw [boundedFilter_matches known dated whole, (adjacent.includes fiscal day).2, ← and_or_left,
      ← and_or_left]

end Windows

/-! ## A visit after local midnight -/

namespace Visits

def firstDay : Date := ⟨10, by decide, by decide⟩

def secondDay : Date := ⟨11, by decide, by decide⟩

def thirdDay : Date := ⟨12, by decide, by decide⟩

/-- An hour east of universal time. -/
def offset : UtcOffset := ⟨3600, by decide, by decide⟩

/-- Half past eleven in the evening of the first day, which is past midnight locally. -/
def late : DateTime := ⟨firstDay, 84600, 0, by decide, by decide⟩

def tables : RecordTables where
  models := [("visit", ⟨[("at", ⟨.dateTime, true⟩)], []⟩)]

def query : Query where
  name := "visits"
  model := "visit"
  fields := []
  aggregate := none
  dateField := "at"
  filter := []

def record : Record := [("at", .dateTime late)]

theorem dated : FieldKind.dateTime.Dates offset (record.field query.dateField) (some secondDay) :=
  .time FieldKind.noConfusion late

theorem adjacent : Bounds.Adjacent ⟨secondDay, secondDay, none⟩ ⟨thirdDay, thirdDay, none⟩ :=
  ⟨Int.le_refl _, Int.le_refl _, rfl⟩

end Visits

/-- A visit late on the first day is one of the second day locally. -/
theorem boundedFilter_selects_late : ∃ filter filter' whole,
    Visits.query.boundedFilter Visits.tables.store Visits.offset
        ⟨Visits.secondDay, Visits.secondDay, none⟩ none = .ok filter ∧
      Visits.query.boundedFilter Visits.tables.store Visits.offset
        ⟨Visits.thirdDay, Visits.thirdDay, none⟩ none = .ok filter' ∧
      Visits.query.boundedFilter Visits.tables.store Visits.offset
        ⟨Visits.secondDay, Visits.thirdDay, none⟩ none = .ok whole ∧
      Filter.matches Visits.record.field filter = true ∧
      ¬ Filter.matches Visits.record.field filter' = true ∧
      Filter.matches Visits.record.field whole = true := by
  have known : Visits.tables.store.fieldInfo Visits.query.model Visits.query.dateField =
      .ok ⟨.dateTime, true⟩ := rfl
  obtain ⟨selects, shares⟩ := boundedFilter_selects known Visits.dated
  have built : ∃ filter, Visits.query.boundedFilter Visits.tables.store Visits.offset
      ⟨Visits.secondDay, Visits.secondDay, none⟩ none = .ok filter := ⟨_, rfl⟩
  have built' : ∃ filter, Visits.query.boundedFilter Visits.tables.store Visits.offset
      ⟨Visits.thirdDay, Visits.thirdDay, none⟩ none = .ok filter := ⟨_, rfl⟩
  obtain ⟨filter, built⟩ := built
  obtain ⟨filter', built'⟩ := built'
  obtain ⟨once, together⟩ := shares _ _ _ _ _ Visits.adjacent built built'
  obtain ⟨whole, joined, either⟩ := together none
  have selected : Filter.matches Visits.record.field filter = true :=
    (selects _ _ _ built).2 ⟨rfl, rfl, Visits.secondDay, rfl, Int.le_refl _, Int.le_refl _⟩
  exact ⟨filter, filter', whole, built, built', joined, selected,
    fun selected' => once ⟨selected, selected'⟩, either.2 (.inl selected)⟩

end Query

end KpiReport
