import KpiReport.Error

/-!
# Traces

A trace records what an operation tells its host (log lines) and how often it asks the ledger and
the record store for totals. It is kept when the operation fails.
-/

namespace KpiReport

/-- How important a log line is. -/
inductive LogLevel where
  | debug
  | info
  | warn
  | error
  deriving DecidableEq, Repr

/-- A line of the log. -/
structure LogLine where
  level : LogLevel
  text : String
  deriving DecidableEq, Repr

/-- What was logged, the latest line first, and how many totals were asked for. -/
structure Trace where
  lines : List LogLine := []
  aggregations : Nat := 0
  groupedReads : Nat := 0

/-- An operation that may fail and leaves a trace either way. -/
abbrev Traced (α : Type) := ExceptT ReportError (StateM Trace) α

namespace Traced

/-- An operation without a trace of its own. -/
def ofResult {α : Type} (result : Result α) : Traced α :=
  ExceptT.mk (pure result)

/-- Logs a line. -/
def log (level : LogLevel) (text : String) : Traced Unit :=
  modify fun trace => { trace with lines := ⟨level, text⟩ :: trace.lines }

/-- Counts a request for the totals of move lines. -/
def countAggregation : Traced Unit :=
  modify fun trace => { trace with aggregations := trace.aggregations + 1 }

/-- Counts a request for the totals of records. -/
def countGroupedRead : Traced Unit :=
  modify fun trace => { trace with groupedReads := trace.groupedReads + 1 }

end Traced

end KpiReport
