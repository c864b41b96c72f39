import KpiReport.Ledger.Book
import KpiReport.Period.Resolve
import KpiReport.Proofs.Account.Counting
import KpiReport.Proofs.Lists
import KpiReport.Proofs.Results
import Mathlib.Data.List.Nodup
import Mathlib.Logic.Basic

/-!
# Opening, movement and closing

An account token counts the lines before a period (its opening), those of the period (the movement)
or all lines up to its end (the closing). Opening and closing are told by dates alone. The movement
of a day or a week is told by dates too, but that of fiscal periods by their names.

The main statement, `ResolvedToken.opening_plus_movement`, says that a line is part of the closing
exactly if it is part of the opening or of the movement, and never of both. With fiscal periods this
needs lines that are filed under the period of their date, and periods that can be told apart.
-/

namespace KpiReport

open Calendar

/-! ## Conditions on dates -/

namespace FieldValue

theorem order?_date (d e : Date) :
    order? (.date d) (.date e) = some (intOrder d.number e.number) := by
  have scaled : order? (.date d) (.date e) =
      some (intOrder d.midnight.instant e.midnight.instant) := rfl
  have instant (d : Date) : d.midnight.instant = d.number * 172800000000000 := by
    simp only [DateTime.instant, DateTime.seconds, Date.midnight, secondsPerDay, nanosPerSecond]
    omega
  rw [scaled, instant, instant]
  congr 1
  unfold intOrder
  split_ifs <;> first | rfl | omega

end FieldValue

/-- Dates are compared by the numbers of their days. -/
theorem FilterOp.holds_date (d e : Date) :
    (FilterOp.lt.holds (.date d) (.date e) = true ↔ d.number < e.number) ∧
      (FilterOp.le.holds (.date d) (.date e) = true ↔ d.number ≤ e.number) ∧
      (FilterOp.ge.holds (.date d) (.date e) = true ↔ e.number ≤ d.number) := by
  simp only [FilterOp.holds, FieldValue.order?_date, FieldValue.intOrder, CompareOp.holds]
  split_ifs <;> simp <;> omega

namespace MoveLine

variable (line : MoveLine) (day : Date)

theorem matches_date (op : FilterOp) :
    Filter.matches line.field [.field dateField op (.date day)] =
      op.holds (.date line.date) (.date day) := by
  have date : line.field dateField = .date line.date := rfl
  rw [Filter.matches, Condition.matches, date, Filter.matches, Bool.and_true]

theorem matches_before :
    Filter.matches line.field [.field dateField .lt (.date day)] = true ↔
      line.date.number < day.number := by
  rw [matches_date]
  exact (FilterOp.holds_date line.date day).1

theorem matches_upTo :
    Filter.matches line.field [.field dateField .le (.date day)] = true ↔
      line.date.number ≤ day.number := by
  rw [matches_date]
  exact (FilterOp.holds_date line.date day).2.1

theorem matches_from :
    Filter.matches line.field [.field dateField .ge (.date day)] = true ↔
      day.number ≤ line.date.number := by
  rw [matches_date]
  exact (FilterOp.holds_date line.date day).2.2

theorem matches_filedUnder (names : List String) :
    Filter.matches line.field [.field periodField .memberOf (.list (names.map .text))] = true ↔
      ∃ name ∈ names, line.period = some name := by
  cases filed : line.period with
  | none =>
    have null : line.field periodField = .null := by
      rw [field, filed]
      rfl
    have unequal (name : String) : FieldValue.null.equals (.text name) = false := rfl
    simp [Filter.matches, Condition.matches, FilterOp.holds, FilterOp.isMember, null, unequal]
  | some own =>
    have text : line.field periodField = .text own := by
      rw [field, filed]
      rfl
    simp [Filter.matches, Condition.matches, FilterOp.holds, FilterOp.isMember, text,
      FieldValue.equals_text]

end MoveLine

/-! ## Where a line stands -/

/-- A line lies before some dates, within them or after them, and a mark tells exactly whether it
lies within. -/
def Bounds.Tells (bounds : Bounds) (marked : Prop) (line : MoveLine) : Prop :=
  bounds.start.number ≤ bounds.stop.number ∧
    (marked ↔ bounds.start.number ≤ line.date.number ∧ line.date.number ≤ bounds.stop.number)

/-- If the variation mode tells the lines within the dates, then the closing is made of the opening
and the movement. -/
theorem Bounds.Tells.splits {bounds : Bounds} {line : MoveLine}
    (h : bounds.Tells (Filter.matches line.field (Mode.variation.lineFilter bounds) = true) line) :
    let selects (mode : Mode) : Prop := Filter.matches line.field (mode.lineFilter bounds) = true
    (selects .ending ↔ Xor (selects .initial) (selects .variation)) ∧
      ¬ (selects .initial ∧ selects .variation) := by
  obtain ⟨ordered, within⟩ := h
  have opening : Filter.matches line.field (Mode.initial.lineFilter bounds) = true ↔
      line.date.number < bounds.start.number := line.matches_before bounds.start
  have closing : Filter.matches line.field (Mode.ending.lineFilter bounds) = true ↔
      line.date.number ≤ bounds.stop.number := line.matches_upTo bounds.stop
  simp only [opening, closing, within, Xor]
  omega

/-! ## Days and weeks -/

theorem Calendar.Date.ofNumber?_eq_some_iff {number : Int} {date : Date} :
    Date.ofNumber? number = some date ↔ date.number = number := by
  unfold Date.ofNumber?
  split
  · constructor
    · intro same
      cases same
      rfl
    · rintro rfl
      rfl
  · rename_i outside
    constructor
    · intro same
      cases same
    · rintro rfl
      exact absurd ⟨date.firstDay_le, date.le_lastDay⟩ outside

theorem shiftDays_eq_ok_iff {date shifted : Date} {days : Int} :
    shiftDays date days = .ok shifted ↔ shifted.number = date.number + days := by
  rw [← Date.ofNumber?_eq_some_iff, shiftDays, Date.shift?]
  cases Date.ofNumber? (date.number + days) with
  | none => exact iff_of_false nofun nofun
  | some found =>
    constructor <;>
      · intro same
        cases same
        rfl

/-- Bounds that are counted in days are told by the numbers of their first and last day. -/
theorem Bounds.ofDays_eq_ok_iff {date : Date} {offset days : Int} {bounds : Bounds} :
    Bounds.ofDays date offset days = .ok bounds ↔ bounds.start.number = date.number + offset ∧
      bounds.stop.number = bounds.start.number + (days - 1) ∧ bounds.fiscal = none := by
  constructor
  · intro h
    unfold Bounds.ofDays at h
    split at h
    · cases h
    · rename_i start shifted
      split at h
      · cases h
      · rename_i stop moved
        cases h
        exact ⟨shiftDays_eq_ok_iff.1 shifted, shiftDays_eq_ok_iff.1 moved, rfl⟩
  · obtain ⟨start, stop, fiscal⟩ := bounds
    rintro ⟨shifted, moved, rfl⟩
    simp only [Bounds.ofDays, shiftDays_eq_ok_iff.2 shifted, shiftDays_eq_ok_iff.2 moved]

theorem Bounds.tells_of_ofDays {date : Date} {offset days : Int} {bounds : Bounds}
    (positive : 1 ≤ days) (h : Bounds.ofDays date offset days = .ok bounds) (line : MoveLine) :
    bounds.Tells (Filter.matches line.field (Mode.variation.lineFilter bounds) = true) line := by
  obtain ⟨-, length, none⟩ := Bounds.ofDays_eq_ok_iff.1 h
  have conditions : Mode.variation.lineFilter bounds =
      [.field MoveLine.dateField .ge (.date bounds.start)] ++
        [.field MoveLine.dateField .le (.date bounds.stop)] := by
    rw [Mode.lineFilter, none]
    rfl
  refine ⟨by omega, ?_⟩
  rw [conditions, Filter.matches_append, Bool.and_eq_true, line.matches_from, line.matches_upTo]

/-! ## Fiscal periods -/

/-- Fiscal periods that can be told apart: they have different names, none ends before it starts,
and no day lies in two of them. -/
structure FiscalPeriod.Orderly (periods : List FiscalPeriod) : Prop where
  nodup : (periods.map FiscalPeriod.name).Nodup
  proper : ∀ period ∈ periods, period.start ≤ period.stop
  apart : periods.Pairwise fun p q => ∀ day, ¬ (p.contains day = true ∧ q.contains day = true)

/-- A line is filed under the one of some periods that holds its date. -/
def MoveLine.FiledIn (line : MoveLine) (periods : List FiscalPeriod) : Prop :=
  ∃ period ∈ periods, period.contains line.date = true ∧ line.period = some period.name

theorem FiscalPeriod.contains_iff {period : FiscalPeriod} {day : Date} :
    period.contains day = true ↔
      period.start.number ≤ day.number ∧ day.number ≤ period.stop.number := by
  simp only [contains, Bool.and_eq_true, decide_eq_true_eq]
  exact Iff.rfl

/-- One period ends before another starts. -/
def FiscalPeriod.Precedes (p q : FiscalPeriod) : Prop :=
  p.stop.number < q.start.number

/-- The regular periods are those that are not special, in the order of their first days. -/
theorem FiscalPeriod.regular_spec (periods : List FiscalPeriod) :
    (FiscalPeriod.regular periods).Perm (periods.filter fun period => !period.special) ∧
      (FiscalPeriod.regular periods).Pairwise fun p q => p.start ≤ q.start :=
  ⟨List.mergeSort_perm _ _,
    pairwise_mergeSort_key (fun period : FiscalPeriod => period.start.number) _⟩

namespace FiscalPeriod.Orderly

variable {periods : List FiscalPeriod}

theorem proper_numbers (h : Orderly periods) {period : FiscalPeriod} (member : period ∈ periods) :
    period.start.number ≤ period.stop.number :=
  h.proper period member

theorem not_precedes_self (h : Orderly periods) {period : FiscalPeriod}
    (member : period ∈ periods) : ¬ period.Precedes period := by
  have proper := h.proper_numbers member
  unfold Precedes
  omega

theorem perm {others : List FiscalPeriod} (h : Orderly periods) (same : periods.Perm others) :
    Orderly others where
  nodup := (same.map name).nodup_iff.1 h.nodup
  proper := fun period member => h.proper period (same.mem_iff.2 member)
  apart := same.pairwise h.apart fun away day both => away day both.symm

/-- In the order of their first days, each period ends before the next ones start. -/
theorem precedes (h : Orderly periods)
    (sorted : periods.Pairwise fun p q => p.start.number ≤ q.start.number) :
    periods.Pairwise Precedes := by
  refine List.Pairwise.imp_of_mem ?_ (List.Pairwise.and sorted h.apart)
  rintro p q - inside ⟨earlier, away⟩
  have proper : q.start.number ≤ q.stop.number := h.proper q inside
  by_contra late
  have reaches : q.start.number ≤ p.stop.number := by
    unfold Precedes at late
    omega
  -- otherwise the first day of the later period lies in both
  exact away q.start ⟨contains_iff.2 ⟨earlier, reaches⟩, contains_iff.2 ⟨Int.le_refl _, proper⟩⟩

theorem regular (h : Orderly (periods.filter fun period => !period.special)) :
    Orderly (regular periods) ∧ (FiscalPeriod.regular periods).Pairwise Precedes := by
  obtain ⟨perm, sorted⟩ := FiscalPeriod.regular_spec periods
  have orderly := h.perm perm.symm
  exact ⟨orderly, orderly.precedes sorted⟩

end FiscalPeriod.Orderly

/-- Bounds cover some fiscal periods from the first day to the last. -/
structure Bounds.Covers (bounds : Bounds) (span : List FiscalPeriod) : Prop where
  fiscal : ∃ found, bounds.fiscal = some found ∧ found.names = span.map FiscalPeriod.name
  first : ∃ period ∈ span, bounds.start = period.start
  last : ∃ period ∈ span, bounds.stop = period.stop
  within : ∀ period ∈ span, bounds.start.number ≤ period.start.number ∧
    period.stop.number ≤ bounds.stop.number

theorem Bounds.covers_of_ofSpan {span : List FiscalPeriod} {bounds : Bounds}
    (proper : ∀ period ∈ span, period.start.number ≤ period.stop.number)
    (ordered : span.Pairwise FiscalPeriod.Precedes) (h : Bounds.ofSpan span = some bounds) :
    bounds.Covers span := by
  cases span with
  | nil => cases h
  | cons first more =>
    have nonempty : first :: more ≠ [] := List.cons_ne_nil first more
    have early : ∀ period ∈ first :: more, first.start.number ≤ period.start.number := by
      intro period member
      have own := proper first List.mem_cons_self
      rcases List.mem_cons.1 member with rfl | later
      · exact Int.le_refl _
      · have apart : first.stop.number < period.start.number :=
          (List.pairwise_cons.1 ordered).1 period later
        omega
    have late : ∀ period ∈ first :: more,
        period.stop.number ≤ ((first :: more).getLast nonempty).stop.number := by
      intro period member
      have own := proper _ (List.getLast_mem nonempty)
      rw [← List.dropLast_append_getLast nonempty] at member ordered
      rcases List.mem_append.1 member with earlier | same
      · have apart : period.stop.number < ((first :: more).getLast nonempty).start.number :=
          (List.pairwise_append.1 ordered).2.2 period earlier _ (List.mem_singleton.2 rfl)
        omega
      · obtain rfl := List.mem_singleton.1 same
        exact Int.le_refl _
    cases h
    exact
      { fiscal := ⟨_, rfl, rfl⟩
        first := ⟨first, List.mem_cons_self, rfl⟩
        last := ⟨_, List.getLast_mem nonempty, rfl⟩
        within := fun period member => ⟨early period member, late period member⟩ }

/-- The variation mode tells the lines that are filed under one of the periods covered. -/
theorem Bounds.Covers.variation_iff {bounds : Bounds} {span periods : List FiscalPeriod}
    (h : bounds.Covers span) (distinct : (periods.map FiscalPeriod.name).Nodup)
    (inside : ∀ period ∈ span, period ∈ periods) {line : MoveLine} {period : FiscalPeriod}
    (member : period ∈ periods) (filed : line.period = some period.name) :
    Filter.matches line.field (Mode.variation.lineFilter bounds) = true ↔ period ∈ span := by
  obtain ⟨found, fiscal, names⟩ := h.fiscal
  have conditions : Mode.variation.lineFilter bounds =
      [.field MoveLine.periodField .memberOf (.list (found.names.map .text))] := by
    rw [Mode.lineFilter, fiscal]
  rw [conditions, line.matches_filedUnder, names]
  constructor
  · rintro ⟨name, listed, same⟩
    obtain ⟨other, own, rfl⟩ := List.mem_map.1 listed
    have named : period.name = other.name := Option.some.inj (filed.symm.trans same)
    obtain rfl := List.inj_on_of_nodup_map distinct member (inside other own) named
    exact own
  · intro own
    exact ⟨period.name, List.mem_map_of_mem own, filed⟩

/-- The fiscal periods that a column covers are consecutive. -/
theorem Bounds.ofFiscalPeriods_inv {periods : List FiscalPeriod} {pivot : Date}
    {offset duration : Int} {bounds : Bounds}
    (h : Bounds.ofFiscalPeriods periods pivot offset duration = some bounds) :
    ∃ before span after, periods = before ++ (span ++ after) ∧
      Bounds.ofSpan span = some bounds := by
  unfold Bounds.ofFiscalPeriods at h
  split at h
  · cases h
  · rename_i current _
    simp only at h
    split at h
    · cases h
    · refine ⟨periods.take (current + offset).toNat, _,
        (periods.drop (current + offset).toNat).drop duration.toNat, ?_, h⟩
      rw [List.take_append_drop, List.take_append_drop]

/-- A line that is filed under the period of its date is told by the name of that period. -/
theorem Bounds.tells_of_ofFiscalPeriods {periods : List FiscalPeriod} {pivot : Date}
    {offset duration : Int} {bounds : Bounds} {line : MoveLine}
    (h : Bounds.ofFiscalPeriods periods pivot offset duration = some bounds)
    (orderly : FiscalPeriod.Orderly periods) (ordered : periods.Pairwise FiscalPeriod.Precedes)
    (filed : line.FiledIn periods) :
    bounds.Tells (Filter.matches line.field (Mode.variation.lineFilter bounds) = true) line := by
  obtain ⟨before, span, after, rfl, made⟩ := Bounds.ofFiscalPeriods_inv h
  obtain ⟨-, rest, earlier⟩ := List.pairwise_append.1 ordered
  obtain ⟨inner, -, later⟩ := List.pairwise_append.1 rest
  have inside : ∀ period ∈ span, period ∈ before ++ (span ++ after) := fun period member =>
    List.mem_append_right _ (List.mem_append_left _ member)
  have covers : bounds.Covers span :=
    Bounds.covers_of_ofSpan (fun period member => orderly.proper period (inside period member))
      inner made
  obtain ⟨first, firstInside, start⟩ := covers.first
  obtain ⟨last, lastInside, stop⟩ := covers.last
  obtain ⟨period, member, holds, filed⟩ := filed
  obtain ⟨afterStart, beforeStop⟩ := FiscalPeriod.contains_iff.1 holds
  have order : bounds.start.number ≤ bounds.stop.number := by
    have proper := orderly.proper_numbers (inside first firstInside)
    have ends := (covers.within first firstInside).2
    rw [start]
    omega
  refine ⟨order, (covers.variation_iff orderly.nodup inside member filed).trans ?_⟩
  have alone := orderly.not_precedes_self member
  rcases List.mem_append.1 member with sooner | member
  · have apart : period.stop.number < first.start.number :=
      earlier period sooner first (List.mem_append_left _ firstInside)
    have outside : period ∉ span := fun own =>
      alone (earlier period sooner period (List.mem_append_left _ own))
    simp only [outside, start, false_iff]
    omega
  · rcases List.mem_append.1 member with own | after
    · have ends := covers.within period own
      simp only [own, true_iff]
      omega
    · have apart : last.stop.number < period.start.number := later last lastInside period after
      have outside : period ∉ span := fun own => alone (later period own period after)
      simp only [outside, stop, false_iff]
      omega

/-! ## Every resolved period -/

/-- If a period is counted in fiscal periods, then those of the company that are not special can be
told apart, and a line is filed under the one that holds its date. -/
def Period.Files (period : Period) (ledger : Ledger) (company : String) (line : MoveLine) : Prop :=
  period.periodType = .fiscalPeriod → ∃ periods, ledger.fiscalPeriods company = .ok periods ∧
    FiscalPeriod.Orderly (periods.filter fun period => !period.special) ∧
    line.FiledIn (periods.filter fun period => !period.special)

/-- The lines of a resolved period are told by its variation mode; with fiscal periods, those lines
that are filed under the period of their date. -/
theorem Period.tells_of_bounds {period : Period} {ledger : Ledger} {company : String}
    {pivot : Date} {bounds : Bounds} (lasting : 1 ≤ period.duration)
    (resolved : period.bounds ledger company pivot = .ok (some bounds)) {line : MoveLine}
    (filed : period.Files ledger company line) :
    bounds.Tells (Filter.matches line.field (Mode.variation.lineFilter bounds) = true) line := by
  unfold Period.bounds at resolved
  split at resolved
  · obtain ⟨found, made, same⟩ := map_eq_ok.1 resolved
    cases same
    exact Bounds.tells_of_ofDays lasting made line
  · obtain ⟨found, made, same⟩ := map_eq_ok.1 resolved
    cases same
    exact Bounds.tells_of_ofDays (by omega) made line
  · rename_i fiscal
    obtain ⟨periods, given, orderly, filed⟩ := filed fiscal
    obtain ⟨periods', given', made⟩ := map_eq_ok.1 resolved
    obtain rfl : periods = periods' := Except.ok.inj (given.symm.trans given')
    obtain ⟨orderly, ordered⟩ := orderly.regular
    refine Bounds.tells_of_ofFiscalPeriods made orderly ordered ?_
    obtain ⟨own, member, holds, name⟩ := filed
    exact ⟨own, List.mem_mergeSort.2 member, holds, name⟩

namespace ResolvedToken

/-- The token with another mode, for the same side and accounts and with the same filter. -/
def inMode (member : ResolvedToken) (mode : Mode) : ResolvedToken :=
  { member with token := { member.token with mode := mode } }

/-- **Opening plus movement is closing.** A token counts a line up to the end of a resolved period
exactly if it counts it either before the period or in the period, and never in both: for days and
weeks every line, for fiscal periods that can be told apart every line that is filed under the
period of its date. -/
theorem opening_plus_movement {period : Period} {ledger : Ledger} {company : String} {pivot : Date}
    {bounds : Bounds} (lasting : 1 ≤ period.duration)
    (resolved : period.bounds ledger company pivot = .ok (some bounds)) {line : MoveLine}
    (filed : period.Files ledger company line) (member : ResolvedToken) (target : TargetMove)
    (extra : Filter) :
    let selects (mode : Mode) : Prop :=
      (member.inMode mode).counts bounds target extra line = true
    (selects .ending ↔ Xor (selects .initial) (selects .variation)) ∧
      ¬ (selects .initial ∧ selects .variation) := by
  have modes := (Period.tells_of_bounds lasting resolved filed).splits
  let others : Bool := member.accounts.contains line.account &&
    Filter.matches line.field member.token.filter && target.accepts line &&
    Filter.matches line.field extra
  have counted (mode : Mode) : (member.inMode mode).counts bounds target extra line = true ↔
      Filter.matches line.field (mode.lineFilter bounds) = true ∧ others = true := by
    simp [counts, inMode, others, and_assoc]
  simp only [counted]
  cases accepted : others with
  | true => simpa only [and_true] using modes
  | false =>
    -- what the other conditions refuse counts in no mode
    simp [Xor]

end ResolvedToken

/-! ## Two fiscal periods -/

namespace TwoPeriods

/-- The only day of the first period. -/
def early : Date := ⟨0, firstDay_le_zero, zero_le_lastDay⟩

/-- The only day of the second period. -/
def late : Date := ⟨1, by decide, by decide⟩

/-- The periods out of order, with a special one that overlaps both. -/
def periods : List FiscalPeriod :=
  [⟨"02", late, late, false⟩, ⟨"closing", early, late, true⟩, ⟨"01", early, early, false⟩]

/-- The book with the periods. -/
def book : Book where
  periods := [("", periods)]

/-- The column of the second period. -/
def period : Period where
  name := "now"
  periodType := .fiscalPeriod
  offset := 0
  duration := 1

/-- The bounds of the column on the day of the second period. -/
def bounds : Bounds := ⟨late, late, some ⟨"02", "02", ["02"]⟩⟩

/-- A token for one account. -/
def token : ResolvedToken := ⟨0, ⟨"bal[7]", .balance, .variation, [.code "7"], []⟩, ["7"]⟩

/-- A line of the account in the first period. -/
def line : MoveLine := ⟨"7", early, 0, 1, MoveLine.posted, some "01", []⟩

theorem ordered_periods : FiscalPeriod.regular periods =
    [⟨"01", early, early, false⟩, ⟨"02", late, late, false⟩] := by
  simp [FiscalPeriod.regular, periods, List.mergeSort, List.MergeSort.Internal.splitInTwo,
    show ¬ late ≤ early by decide]

theorem resolved : period.bounds book.ledger "" late = .ok (some bounds) := by
  change Except.ok (Bounds.ofFiscalPeriods (FiscalPeriod.regular periods) late 0 1) = _
  rw [ordered_periods]
  rfl

theorem regular_periods : (periods.filter fun period => !period.special) =
    [⟨"02", late, late, false⟩, ⟨"01", early, early, false⟩] := rfl

theorem orderly : FiscalPeriod.Orderly (periods.filter fun period => !period.special) := by
  rw [regular_periods]
  refine ⟨by decide, ?_, ?_⟩
  · simp only [List.forall_mem_cons, List.not_mem_nil, false_implies, implies_true, and_true]
    exact ⟨Int.le_refl late.number, Int.le_refl early.number⟩
  · refine List.pairwise_pair.2 fun day both => ?_
    obtain ⟨first, second⟩ := both
    have here : (1 : Int) ≤ day.number := (FiscalPeriod.contains_iff.1 first).1
    have there : day.number ≤ (0 : Int) := (FiscalPeriod.contains_iff.1 second).2
    omega

theorem filed : line.FiledIn (periods.filter fun period => !period.special) :=
  ⟨⟨"01", early, early, false⟩, by simp [regular_periods], by decide, rfl⟩

end TwoPeriods

/-- A line of the period before is part of the opening and of the closing. -/
theorem ResolvedToken.opening_plus_movement_two_periods :
    let selects (mode : Mode) : Prop :=
      (TwoPeriods.token.inMode mode).counts TwoPeriods.bounds .all [] TwoPeriods.line = true
    selects .initial ∧ ¬ selects .variation ∧ selects .ending := by
  have split := ResolvedToken.opening_plus_movement (Int.le_refl _) TwoPeriods.resolved
    (fun _ => ⟨TwoPeriods.periods, rfl, TwoPeriods.orderly, TwoPeriods.filed⟩)
    TwoPeriods.token .all []
  have initial : (TwoPeriods.token.inMode .initial).counts TwoPeriods.bounds .all []
      TwoPeriods.line = true := by
    rfl
  obtain ⟨closing, apart⟩ := split
  have variation := fun counted => apart ⟨initial, counted⟩
  exact ⟨initial, variation, closing.2 (Or.inl ⟨initial, variation⟩)⟩

end KpiReport
