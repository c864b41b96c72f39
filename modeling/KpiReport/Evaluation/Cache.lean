import KpiReport.Account.Registry
import KpiReport.Evaluation.Result

/-!
# Caches of evaluations

A cache keeps the account tokens of reports, looked up once, and how far the evaluation of each
report for each period has come. It keeps every mark that was ever made, the latest first, so that
a second evaluation of a report can be told from the first.

An `Evaluation` is an operation on a cache that may fail and leaves a trace. Cache and trace are
kept when it fails.
-/

namespace KpiReport

/-- How far the evaluation of a report for a period has come. -/
inductive Progress where
  | started
  | finished (values : Table Value)

/-- Whether an evaluation has come to its end. -/
def Progress.isFinished : Progress → Bool
  | started => false
  | finished _ => true

/-- What is kept from one evaluation to the next. -/
structure Cache where
  /-- The account tokens of reports, by code. -/
  registries : Table Registry := []
  /-- The marks made for a report code and a period name, the latest first. -/
  marks : List ((String × String) × Progress) := []

namespace Cache

/-- How far the evaluation of a report for a period has come, none if it never started. -/
def progress? (cache : Cache) (report period : String) : Option Progress :=
  List.lookup (report, period) cache.marks

/-- Marks how far the evaluation of a report for a period has come. -/
def mark (cache : Cache) (report period : String) (progress : Progress) : Cache :=
  { cache with marks := ((report, period), progress) :: cache.marks }

theorem progress?_mark (cache : Cache) (report period : String) (progress : Progress)
    (report' period' : String) :
    (cache.mark report period progress).progress? report' period' =
      if report' = report ∧ period' = period then some progress
      else cache.progress? report' period' := by
  unfold progress? mark
  rw [List.lookup_cons]
  by_cases h : report' = report ∧ period' = period
  · simp [h]
  · have other : ((report', period') == (report, period)) = false := by
      simpa using h
    rw [other, if_neg h]

/-- Keeps the account tokens of a report. -/
def keepRegistry (cache : Cache) (report : String) (registry : Registry) : Cache :=
  { cache with registries := cache.registries.insert report registry }

/-- The number of pairs of a report and a period whose evaluation has come to its end. -/
def finishedCount (cache : Cache) : Nat :=
  (cache.marks.map Prod.fst).eraseDups.countP fun key =>
    (List.lookup key cache.marks).any Progress.isFinished

end Cache

/-- A cache and a trace. -/
structure Session where
  cache : Cache := {}
  trace : Trace := {}

/-- An operation on a cache that may fail and leaves a trace either way. -/
abbrev Evaluation (α : Type) := ExceptT ReportError (StateM Session) α

namespace Evaluation

variable {α : Type}

/-- An operation that does not use the cache. -/
def ofTraced (action : Traced α) : Evaluation α :=
  ExceptT.mk fun session =>
    let (result, trace) := action.run.run session.trace
    (result, { session with trace := trace })

/-- An operation that leaves no trace. -/
def ofResult (result : Result α) : Evaluation α :=
  ofTraced (Traced.ofResult result)

/-- Logs a line. -/
def log (level : LogLevel) (text : String) : Evaluation Unit :=
  ofTraced (Traced.log level text)

/-- The cache. -/
def getCache : Evaluation Cache := do
  return (← get).cache

/-- Changes the cache. -/
def modifyCache (f : Cache → Cache) : Evaluation Unit :=
  modify fun session => { session with cache := f session.cache }

/-- Runs an operation on an empty cache. -/
def onNewCache (action : Evaluation α) : Traced α :=
  ExceptT.mk fun trace =>
    let (result, session) := action.run.run { trace := trace }
    (result, session.trace)

end Evaluation

end KpiReport
