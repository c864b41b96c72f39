import KpiReport.Error

/-!
# Moving dates

Moving a date or finding a midnight fails, with its reason, where the calendar ends.
-/

namespace KpiReport

open KpiReport.Calendar

/-- The date some days later, or earlier when `days` is negative. -/
def shiftDays (date : Date) (days : Int) : Result Date :=
  Result.ofOption (.date (.shiftOutOfRange date days)) (date.shift? days)

/-- The last day of a month. -/
def lastDayOfMonth (year : Int) (month : Nat) : Result Date :=
  Result.ofOption (.date (.invalidMonth year month)) (Date.lastOfMonth? year month)

/-- The start of the local day `addDays` after a date, as a point in universal time. -/
def utcMidnight (date : Date) (offset : UtcOffset) (addDays : Int) : Result DateTime :=
  match shiftDays date addDays with
  | .error e => .error e
  | .ok day => Result.ofOption (.date (.ambiguousMidnight day)) (offset.midnight? day)

end KpiReport
