import KpiReport.Calendar.Shift
import KpiReport.Definition.Period
import KpiReport.Period.Bounds
import KpiReport.Trace

/-!
# Resolving periods

`Period.resolve` finds the dates that a period covers, relative to a pivot date. Days and weeks are
counted in the calendar; fiscal periods are counted in the ledger's list, special ones left out,
and a column that reaches beyond the list has no bounds.
-/

namespace KpiReport

open KpiReport.Calendar

/-- The fiscal periods that count, in the order of their first days. -/
def FiscalPeriod.regular (periods : List FiscalPeriod) : List FiscalPeriod :=
  (periods.filter fun period => !period.special).mergeSort fun a b => a.start ≤ b.start

/-- The bounds of consecutive fiscal periods. -/
def Bounds.ofSpan : List FiscalPeriod → Option Bounds
  | [] => none
  | first :: more =>
    let last := (first :: more).getLast (by simp)
    some
      { start := first.start
        stop := last.stop
        fiscal := some ⟨first.name, last.name, (first :: more).map FiscalPeriod.name⟩ }

/-- The bounds of `duration` of the regular fiscal periods, the first of which is `offset` away
from the one that holds the pivot date. -/
def Bounds.ofFiscalPeriods (periods : List FiscalPeriod) (pivot : Date) (offset duration : Int) :
    Option Bounds :=
  match periods.findIdx? fun period => period.contains pivot with
  | none => none
  | some current =>
    let first := current + offset
    let last := first + duration - 1
    if first < 0 ∨ periods.length ≤ last then none
    else Bounds.ofSpan ((periods.drop first.toNat).take duration.toNat)

/-- The bounds of some days, the first of which is `offset` days after a date. -/
def Bounds.ofDays (date : Date) (offset days : Int) : Result Bounds :=
  match shiftDays date offset with
  | .error e => .error e
  | .ok start =>
    match shiftDays start (days - 1) with
    | .error e => .error e
    | .ok stop => .ok ⟨start, stop, none⟩

namespace Period

/-- The bounds of a period relative to a pivot date, none where the fiscal periods of the company
do not reach. -/
def bounds (period : Period) (ledger : Ledger) (company : String) (pivot : Date) :
    Result (Option Bounds) :=
  match period.periodType with
  | .day => (Bounds.ofDays pivot period.offset period.duration).map some
  | .week => (Bounds.ofDays pivot.weekStart (7 * period.offset) (7 * period.duration)).map some
  | .fiscalPeriod =>
    (ledger.fiscalPeriods company).map fun periods =>
      Bounds.ofFiscalPeriods (FiscalPeriod.regular periods) pivot period.offset period.duration

/-- The bounds of a period; the log tells of a period without bounds. -/
def resolve (period : Period) (ledger : Ledger) (company : String) (pivot : Date) :
    Traced (Option Bounds) := do
  match ← Traced.ofResult (period.bounds ledger company pivot) with
  | some bounds => return some bounds
  | none =>
    Traced.log .debug
      ("Period '" ++ period.name ++ "' is not valid for pivot date " ++ pivot.toText)
    return none

end Period

end KpiReport
