import KpiReport.Proofs.Report
import KpiReport.Proofs.Store.Windows

/-!
# Consecutive periods

A period is so many days, weeks or fiscal periods from some distance to the pivot date on. Days and
weeks are counted in the calendar, fiscal periods in the ledger's list, and either comes to an end.
The main statement, `Period.resolve_tiles`, is one law for all of them: a period and the one that
follows it have bounds exactly if the period that they make together has, which then goes from the
start of the first to the end of the second and has the fiscal periods of both.

For days and weeks the reason is that the days between two days of the calendar are in the calendar
(`Bounds.ofDays_append`); for fiscal periods it is that the members of a list between two members
are in the list (`Bounds.ofFiscalPeriods_append`). The list is made of the regular periods in the
order of their first days. If these are different, then the order in which the ledger gives the
periods does not matter (`FiscalPeriod.regular_perm`).
-/

namespace KpiReport

open Calendar

/-! ## Bounds put together -/

/-- The fiscal periods of two spans, those of the first one first. -/
def FiscalSpan.append (first second : FiscalSpan) : FiscalSpan :=
  ⟨first.first, second.last, first.names ++ second.names⟩

/-- From the start of the first bounds to the end of the second ones, with the fiscal periods of
both. -/
def Bounds.append (first second : Bounds) : Bounds where
  start := first.start
  stop := second.stop
  fiscal := first.fiscal.bind fun span => second.fiscal.map span.append

/-! ## Days and weeks -/

theorem Calendar.Date.eq_of_number {date other : Date} (same : date.number = other.number) :
    date = other := by
  cases date
  cases other
  cases same
  rfl

namespace Bounds

variable {date : Date} {offset m n : Int} {whole first second : Bounds}

/-- The days in the middle are in the calendar since they lie between its days. -/
theorem ofDays_append (positive : 1 ≤ m) (positive' : 1 ≤ n) :
    ofDays date offset (m + n) = .ok whole ↔ ∃ first second, ofDays date offset m = .ok first ∧
      ofDays date (offset + m) n = .ok second ∧ first.append second = whole := by
  simp only [ofDays_eq_ok_iff]
  constructor
  · obtain ⟨start, stop, fiscal⟩ := whole
    rintro ⟨shifted, moved, rfl⟩
    have low := start.firstDay_le
    have high := stop.le_lastDay
    dsimp only at shifted moved
    let last : Date := ⟨start.number + (m - 1), by omega, by omega⟩
    let next : Date := ⟨start.number + m, by omega, by omega⟩
    refine ⟨⟨start, last, none⟩, ⟨next, stop, none⟩, ⟨shifted, rfl, rfl⟩, ⟨?_, ?_, rfl⟩, rfl⟩
    · change start.number + m = _
      omega
    · change stop.number = start.number + m + (n - 1)
      omega
  · rintro ⟨first, second, ⟨shifted, moved, none⟩, ⟨shifted', moved', -⟩, rfl⟩
    refine ⟨shifted, ?_, by rw [append, none, Option.bind_none]⟩
    change second.stop.number = first.start.number + (m + n - 1)
    omega

/-- The second of two consecutive periods starts on the day after the first one ends. -/
theorem ofDays_adjacent (positive : 1 ≤ m) (positive' : 1 ≤ n)
    (h : ofDays date offset m = .ok first) (h' : ofDays date (offset + m) n = .ok second) :
    first.Adjacent second := by
  obtain ⟨shifted, moved, -⟩ := ofDays_eq_ok_iff.1 h
  obtain ⟨shifted', moved', -⟩ := ofDays_eq_ok_iff.1 h'
  refine ⟨?_, ?_, Date.ofNumber?_eq_some_iff.2 ?_⟩
  · change first.start.number ≤ first.stop.number
    omega
  · change second.start.number ≤ second.stop.number
    omega
  · omega

end Bounds

/-- The date is one of the seven days from a Monday on. -/
structure Calendar.Date.InWeekOf (date monday : Date) : Prop where
  isMonday : monday.daysSinceMonday = 0
  notBefore : monday.number ≤ date.number
  notAfter : date.number < monday.number + 7

/-- A week starts on its Monday, if the calendar reaches that day. -/
theorem Calendar.Date.InWeekOf.weekStart_eq {date monday : Date} (h : date.InWeekOf monday) :
    date.weekStart = monday := by
  obtain ⟨isMonday, notBefore, notAfter⟩ := h
  have back : date.number + -(date.daysSinceMonday : Int) = monday.number := by
    unfold Date.daysSinceMonday at isMonday ⊢
    omega
  have found : date.shift? (-date.daysSinceMonday) = some monday := by
    rw [Date.shift?, back]
    exact Date.ofNumber?_eq_some_iff.2 rfl
  rw [Date.weekStart, found, Option.getD_some]

/-- The eleventh of March 2024 was a Monday. -/
example : (Date.ofYearMonthDay? 2024 3 11).map Date.daysSinceMonday = some 0 := by
  decide +kernel

theorem Bounds.ofDays_week {pivot monday : Date} {bounds : Bounds} (week : pivot.InWeekOf monday)
    (h : Bounds.ofDays pivot.weekStart 0 7 = .ok bounds) :
    bounds.start = monday ∧ bounds.start ≤ pivot ∧ pivot ≤ bounds.stop := by
  rw [week.weekStart_eq] at h
  obtain ⟨shifted, moved, -⟩ := ofDays_eq_ok_iff.1 h
  have start : bounds.start = monday := Date.eq_of_number (shifted.trans (Int.add_zero _))
  obtain ⟨-, notBefore, notAfter⟩ := week
  refine ⟨start, ?_, ?_⟩
  · change bounds.start.number ≤ pivot.number
    omega
  · change pivot.number ≤ bounds.stop.number
    omega

/-! ## Fiscal periods -/

namespace Bounds

theorem exists_ofSpan {span : List FiscalPeriod} (nonempty : span ≠ []) :
    ∃ bounds, ofSpan span = some bounds := by
  cases span with
  | nil => exact absurd rfl nonempty
  | cons first more => exact ⟨_, rfl⟩

theorem isSome_fiscal_of_ofSpan {span : List FiscalPeriod} {bounds : Bounds}
    (h : ofSpan span = some bounds) : bounds.fiscal.isSome = true := by
  cases span with
  | nil => cases h
  | cons first more =>
    cases h
    rfl

theorem ofSpan_append {span more : List FiscalPeriod} {first second : Bounds}
    (h : ofSpan span = some first) (h' : ofSpan more = some second) :
    ofSpan (span ++ more) = some (first.append second) := by
  cases span with
  | nil => cases h
  | cons head tail =>
    cases more with
    | nil => cases h'
    | cons next rest =>
      cases h
      cases h'
      have last : (head :: (tail ++ next :: rest)).getLast (List.cons_ne_nil _ _) =
          (next :: rest).getLast (List.cons_ne_nil _ _) :=
        List.getLast_append_right (l := head :: tail) (List.cons_ne_nil next rest)
      simp only [List.cons_append, ofSpan, append, FiscalSpan.append, Option.bind_some,
        Option.map_some, last, List.map_cons, List.map_append]

/-- The bounds are those of the `duration` members of a list from the member on that is `offset`
away from the first one that holds the pivot date, all of which are in the list. -/
structure Slice (periods : List FiscalPeriod) (pivot : Date) (offset duration : Int)
    (bounds : Bounds) (current first : Nat) : Prop where
  holds : periods.findIdx? (fun period => period.contains pivot) = some current
  distance : (first : Int) = current + offset
  within : first + duration ≤ periods.length
  covers : ofSpan ((periods.drop first).take duration.toNat) = some bounds

variable {periods : List FiscalPeriod} {pivot : Date} {offset duration m n : Int}

theorem ofFiscalPeriods_eq_some_iff {bounds : Bounds} :
    ofFiscalPeriods periods pivot offset duration = some bounds ↔
      ∃ current first, Slice periods pivot offset duration bounds current first := by
  unfold ofFiscalPeriods
  constructor
  · intro h
    split at h
    · cases h
    · rename_i current found
      dsimp only at h
      split at h
      · cases h
      · exact ⟨current, (current + offset).toNat, found, by omega, by omega, h⟩
  · rintro ⟨current, first, holds, distance, within, covers⟩
    rw [holds]
    dsimp only
    rw [if_neg (by omega), ← distance, Int.toNat_natCast]
    exact covers

/-- A slice of a list is cut into the slices of its parts. -/
theorem slice_append {whole : Bounds} (positive : 1 ≤ m) (positive' : 1 ≤ n) {current start : Nat} :
    Slice periods pivot offset (m + n) whole current start ↔
      ∃ first second, Slice periods pivot offset m first current start ∧
        Slice periods pivot (offset + m) n second current (start + m.toNat) ∧
        first.append second = whole := by
  have cut : (periods.drop start).take (m + n).toNat =
      (periods.drop start).take m.toNat ++ (periods.drop (start + m.toNat)).take n.toNat := by
    have lengths : (m + n).toNat = m.toNat + n.toNat := by omega
    rw [lengths, List.take_add, List.drop_drop]
  constructor
  · rintro ⟨holds, distance, within, covers⟩
    have nonempty : (periods.drop start).take m.toNat ≠ [] := by
      apply List.ne_nil_of_length_pos
      rw [List.length_take, List.length_drop]
      omega
    have nonempty' : (periods.drop (start + m.toNat)).take n.toNat ≠ [] := by
      apply List.ne_nil_of_length_pos
      rw [List.length_take, List.length_drop]
      omega
    obtain ⟨first, made⟩ := exists_ofSpan nonempty
    obtain ⟨second, made'⟩ := exists_ofSpan nonempty'
    rw [cut, ofSpan_append made made'] at covers
    exact ⟨first, second, ⟨holds, distance, by omega, made⟩, ⟨holds, by omega, by omega, made'⟩,
      Option.some.inj covers⟩
  · rintro ⟨first, second, ⟨holds, distance, -, made⟩, ⟨-, -, within, made'⟩, rfl⟩
    exact ⟨holds, distance, by omega, by rw [cut, ofSpan_append made made']⟩

theorem ofFiscalPeriods_append {whole : Bounds} (positive : 1 ≤ m) (positive' : 1 ≤ n) :
    ofFiscalPeriods periods pivot offset (m + n) = some whole ↔
      ∃ first second, ofFiscalPeriods periods pivot offset m = some first ∧
        ofFiscalPeriods periods pivot (offset + m) n = some second ∧
        first.append second = whole := by
  simp only [ofFiscalPeriods_eq_some_iff, slice_append positive positive']
  constructor
  · rintro ⟨current, start, first, second, slice, slice', together⟩
    exact ⟨first, second, ⟨current, start, slice⟩, ⟨current, _, slice'⟩, together⟩
  · rintro ⟨first, second, ⟨current, start, slice⟩, ⟨current', start', slice'⟩, together⟩
    -- both slices are counted from the same member, so the second starts where the first ends
    obtain rfl : current = current' := Option.some.inj (slice.holds.symm.trans slice'.holds)
    obtain rfl : start' = start + m.toNat := by
      have here := slice.distance
      have there := slice'.distance
      omega
    exact ⟨current, start, first, second, slice, slice', together⟩

end Bounds

namespace FiscalPeriod

/-- Periods with different first days are sorted in one way only. -/
theorem regular_perm {periods others : List FiscalPeriod}
    (same : (periods.filter fun period => !period.special).Perm
      (others.filter fun period => !period.special))
    (distinct : ((periods.filter fun period => !period.special).map FiscalPeriod.start).Nodup) :
    regular periods = regular others := by
  obtain ⟨perm, sorted⟩ := regular_spec periods
  obtain ⟨perm', sorted'⟩ := regular_spec others
  refine List.Perm.eq_of_pairwise (fun p q member member' before after => ?_) sorted sorted'
    (perm.trans (same.trans perm'.symm))
  have first : p.start = q.start := Date.eq_of_number (Int.le_antisymm before after)
  exact List.inj_on_of_nodup_map distinct (perm.mem_iff.1 member)
    (same.mem_iff.2 (perm'.mem_iff.1 member')) first

end FiscalPeriod

/-! ## Periods of every kind -/

namespace Period

variable {period : Period} {ledger : Ledger} {company : String} {pivot : Date}
  {offset m n : Int}

/-- The period with another distance from the pivot date and another length. -/
def spanning (period : Period) (offset duration : Int) : Period :=
  { period with offset := offset, duration := duration }

theorem gives_resolve_iff {found : Option Bounds} :
    (period.resolve ledger company pivot).Gives found ↔
      period.bounds ledger company pivot = .ok found := by
  constructor
  · intro gives
    obtain ⟨t, run⟩ := gives {}
    exact resolve_inv run
  · exact gives_resolve

theorem map_some_eq_ok {result : Result Bounds} {bounds : Bounds} :
    result.map some = .ok (some bounds) ↔ result = .ok bounds := by
  rw [map_eq_ok]
  constructor
  · rintro ⟨found, made, same⟩
    cases same
    exact made
  · intro made
    exact ⟨bounds, made, rfl⟩

theorem bounds_day (day : period.periodType = .day) {duration : Int} {bounds : Bounds} :
    (period.spanning offset duration).bounds ledger company pivot = .ok (some bounds) ↔
      Bounds.ofDays pivot offset duration = .ok bounds := by
  rw [Period.bounds, spanning, day]
  exact map_some_eq_ok

theorem bounds_week (week : period.periodType = .week) {duration : Int} {bounds : Bounds} :
    (period.spanning offset duration).bounds ledger company pivot = .ok (some bounds) ↔
      Bounds.ofDays pivot.weekStart (7 * offset) (7 * duration) = .ok bounds := by
  rw [Period.bounds, spanning, week]
  exact map_some_eq_ok

theorem bounds_fiscal (fiscal : period.periodType = .fiscalPeriod) {duration : Int}
    {bounds : Bounds} :
    (period.spanning offset duration).bounds ledger company pivot = .ok (some bounds) ↔
      ∃ periods, ledger.fiscalPeriods company = .ok periods ∧
        Bounds.ofFiscalPeriods (FiscalPeriod.regular periods) pivot offset duration =
          some bounds := by
  rw [Period.bounds, spanning, fiscal]
  exact map_eq_ok

/-- The law of consecutive periods, for each kind by the law of what it is counted in. -/
theorem bounds_append (positive : 1 ≤ m) (positive' : 1 ≤ n) {whole : Bounds} :
    (period.spanning offset (m + n)).bounds ledger company pivot = .ok (some whole) ↔
      ∃ first second,
        (period.spanning offset m).bounds ledger company pivot = .ok (some first) ∧
        (period.spanning (offset + m) n).bounds ledger company pivot = .ok (some second) ∧
        first.append second = whole := by
  cases kind : period.periodType with
  | day =>
    simp only [bounds_day kind]
    exact Bounds.ofDays_append positive positive'
  | week =>
    simp only [bounds_week kind, Int.mul_add]
    exact Bounds.ofDays_append (by omega) (by omega)
  | fiscalPeriod =>
    simp only [bounds_fiscal kind, Bounds.ofFiscalPeriods_append positive positive']
    constructor
    · rintro ⟨periods, given, first, second, made, made', together⟩
      exact ⟨first, second, ⟨periods, given, made⟩, ⟨periods, given, made'⟩, together⟩
    · rintro ⟨first, second, ⟨periods, given, made⟩, ⟨periods', given', made'⟩, together⟩
      obtain rfl : periods = periods' := Except.ok.inj (given.symm.trans given')
      exact ⟨periods, given, first, second, made, made', together⟩

theorem bounds_adjacent (counted : period.periodType ≠ .fiscalPeriod) (positive : 1 ≤ m)
    (positive' : 1 ≤ n) {first second : Bounds}
    (h : (period.spanning offset m).bounds ledger company pivot = .ok (some first))
    (h' : (period.spanning (offset + m) n).bounds ledger company pivot = .ok (some second)) :
    first.Adjacent second := by
  cases kind : period.periodType with
  | day =>
    rw [bounds_day kind] at h h'
    exact Bounds.ofDays_adjacent positive positive' h h'
  | week =>
    rw [bounds_week kind] at h h'
    rw [Int.mul_add] at h'
    exact Bounds.ofDays_adjacent (by omega) (by omega) h h'
  | fiscalPeriod => exact absurd kind counted

/-- Only periods that are counted in fiscal periods have fiscal periods. -/
theorem isSome_fiscal_iff {duration : Int} {bounds : Bounds}
    (h : (period.spanning offset duration).bounds ledger company pivot = .ok (some bounds)) :
    bounds.fiscal.isSome = true ↔ period.periodType = .fiscalPeriod := by
  cases kind : period.periodType with
  | day =>
    obtain ⟨-, -, none⟩ := Bounds.ofDays_eq_ok_iff.1 ((bounds_day kind).1 h)
    simp [none]
  | week =>
    obtain ⟨-, -, none⟩ := Bounds.ofDays_eq_ok_iff.1 ((bounds_week kind).1 h)
    simp [none]
  | fiscalPeriod =>
    obtain ⟨periods, -, made⟩ := (bounds_fiscal kind).1 h
    obtain ⟨before, span, after, -, covers⟩ := Bounds.ofFiscalPeriods_inv made
    exact iff_of_true (Bounds.isSome_fiscal_of_ofSpan covers) rfl

theorem bounds_week_now (week : period.periodType = .week) {monday : Date} {bounds : Bounds}
    (inside : pivot.InWeekOf monday)
    (h : (period.spanning 0 1).bounds ledger company pivot = .ok (some bounds)) :
    bounds.start = monday ∧ bounds.start ≤ pivot ∧ pivot ≤ bounds.stop := by
  rw [bounds_week week, Int.mul_zero, Int.mul_one] at h
  exact Bounds.ofDays_week inside h

/-- Ledgers whose regular periods are the same give the same bounds. -/
theorem resolve_congr {other : Ledger} {periods others : List FiscalPeriod}
    (given : ledger.fiscalPeriods company = .ok periods)
    (given' : other.fiscalPeriods company = .ok others)
    (same : FiscalPeriod.regular periods = FiscalPeriod.regular others) :
    period.resolve other company pivot = period.resolve ledger company pivot := by
  have bounds : period.bounds other company pivot = period.bounds ledger company pivot := by
    cases kind : period.periodType with
    | day | week => simp only [Period.bounds, kind]
    | fiscalPeriod => simp only [Period.bounds, kind, given, given', Except.map, same]
  rw [resolve, resolve, bounds]

/-- **Consecutive periods tile time.** A period of `m + n` days, weeks or fiscal periods has bounds
exactly if its first `m` and its last `n` have, and then they are put together of theirs. The last
`n` days or weeks start on the day after the first `m` end, and the current week starts on the
Monday of the pivot date and includes that date. Fiscal periods are taken from the list of those
that are not special, in the order of their first days and never beyond its ends; if the first days
are different, then the order in which the ledger gives them does not matter. -/
theorem resolve_tiles (period : Period) (ledger : Ledger) (company : String) (pivot : Date)
    (offset : Int) {m n : Int} (positive : 1 ≤ m) (positive' : 1 ≤ n) :
    let resolves (offset duration : Int) (bounds : Bounds) : Prop :=
      ((period.spanning offset duration).resolve ledger company pivot).Gives (some bounds)
    (∀ whole, resolves offset (m + n) whole ↔ ∃ first second, resolves offset m first ∧
      resolves (offset + m) n second ∧ first.append second = whole) ∧
    (∀ bounds, resolves offset m bounds →
      (bounds.fiscal.isSome = true ↔ period.periodType = .fiscalPeriod)) ∧
    (period.periodType ≠ .fiscalPeriod → ∀ first second, resolves offset m first →
      resolves (offset + m) n second → first.Adjacent second) ∧
    (period.periodType = .week → ∀ monday bounds, pivot.InWeekOf monday → resolves 0 1 bounds →
      bounds.start = monday ∧ bounds.start ≤ pivot ∧ pivot ≤ bounds.stop) ∧
    (period.periodType = .fiscalPeriod → ∀ bounds, resolves offset m bounds →
      ∃ periods ordered current first, ledger.fiscalPeriods company = .ok periods ∧
        ordered.Perm (periods.filter fun period => !period.special) ∧
        ordered.Pairwise (fun p q => p.start ≤ q.start) ∧
        Bounds.Slice ordered pivot offset m bounds current first) ∧
    ∀ (other : Ledger) (periods others : List FiscalPeriod),
      ledger.fiscalPeriods company = .ok periods → other.fiscalPeriods company = .ok others →
      (periods.filter fun period => !period.special).Perm
        (others.filter fun period => !period.special) →
      ((periods.filter fun period => !period.special).map FiscalPeriod.start).Nodup →
      (period.spanning offset m).resolve other company pivot =
        (period.spanning offset m).resolve ledger company pivot := by
  simp only [gives_resolve_iff]
  refine ⟨fun whole => bounds_append positive positive', fun bounds => isSome_fiscal_iff,
    fun counted first second => bounds_adjacent counted positive positive',
    fun week monday bounds => bounds_week_now week, fun fiscal bounds resolved => ?_,
    fun other periods others given given' same distinct =>
      resolve_congr given given' (FiscalPeriod.regular_perm same distinct)⟩
  obtain ⟨periods, given, made⟩ := (bounds_fiscal fiscal).1 resolved
  obtain ⟨current, first, slice⟩ := Bounds.ofFiscalPeriods_eq_some_iff.1 made
  obtain ⟨perm, sorted⟩ := FiscalPeriod.regular_spec periods
  exact ⟨periods, _, current, first, given, perm, sorted, slice⟩

end Period

/-! ## Two periods and a week -/

namespace TwoPeriods

/-- The two periods alone, in their order. -/
def sorted : Book where
  periods := [("", [⟨"01", early, early, false⟩, ⟨"02", late, late, false⟩])]

/-- The bounds of both periods. -/
def both : Bounds := ⟨early, late, some ⟨"01", "02", ["01", "02"]⟩⟩

/-- The Thursday of the week that starts with the second period. -/
def thursday : Date := ⟨4, by decide, by decide⟩

/-- The column of the week. -/
def week : Period where
  name := "week"
  periodType := .week
  offset := 0
  duration := 1

end TwoPeriods

/-- The period before and the current one are put together, the one before is the same in whatever
order the ledger gives them, and the week of a Thursday starts on the Monday before. -/
theorem Period.resolve_tiles_two_periods :
    ((TwoPeriods.period.spanning (-1) (1 + 1)).resolve TwoPeriods.book.ledger ""
      TwoPeriods.late).Gives (some TwoPeriods.both) ∧
    (TwoPeriods.period.spanning (-1) 1).resolve TwoPeriods.sorted.ledger "" TwoPeriods.late =
      (TwoPeriods.period.spanning (-1) 1).resolve TwoPeriods.book.ledger "" TwoPeriods.late ∧
    ∃ bounds, ((TwoPeriods.week.spanning 0 1).resolve TwoPeriods.book.ledger ""
        TwoPeriods.thursday).Gives (some bounds) ∧ bounds.start = TwoPeriods.late := by
  have before : ((TwoPeriods.period.spanning (-1) 1).resolve TwoPeriods.book.ledger ""
      TwoPeriods.late).Gives
        (some ⟨TwoPeriods.early, TwoPeriods.early, some ⟨"01", "01", ["01"]⟩⟩) :=
    Period.gives_resolve (by
      change Except.ok (Bounds.ofFiscalPeriods (FiscalPeriod.regular TwoPeriods.periods)
        TwoPeriods.late (-1) 1) = _
      rw [TwoPeriods.ordered_periods]
      rfl)
  have now : ((TwoPeriods.period.spanning (-1 + 1) 1).resolve TwoPeriods.book.ledger ""
      TwoPeriods.late).Gives (some TwoPeriods.bounds) :=
    Period.gives_resolve TwoPeriods.resolved
  obtain ⟨tiles, -, -, -, -, unordered⟩ := Period.resolve_tiles TwoPeriods.period
    TwoPeriods.book.ledger "" TwoPeriods.late (-1) (Int.le_refl 1) (Int.le_refl 1)
  obtain ⟨-, -, -, monday, -, -⟩ := Period.resolve_tiles TwoPeriods.week
    TwoPeriods.book.ledger "" TwoPeriods.thursday 0 (Int.le_refl 1) (Int.le_refl 1)
  have week : ∃ bounds, ((TwoPeriods.week.spanning 0 1).resolve TwoPeriods.book.ledger ""
      TwoPeriods.thursday).Gives (some bounds) :=
    ⟨_, Period.gives_resolve rfl⟩
  obtain ⟨bounds, found⟩ := week
  refine ⟨(tiles _).2 ⟨_, _, before, now, rfl⟩,
    unordered _ _ [⟨"01", TwoPeriods.early, TwoPeriods.early, false⟩,
      ⟨"02", TwoPeriods.late, TwoPeriods.late, false⟩] rfl rfl (by decide) (by decide),
    bounds, found, (monday rfl TwoPeriods.late bounds ?_ found).1⟩
  exact ⟨by decide, by decide, by decide⟩

end KpiReport
