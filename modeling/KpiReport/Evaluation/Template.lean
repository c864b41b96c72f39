import KpiReport.Account.Balances
import KpiReport.Definition.Instance
import KpiReport.Evaluation.Passes
import KpiReport.Store.Fetch

/-!
# Evaluating templates

`Sources.evaluate` gives the results of a template for a column. Its scope starts with the results
of the queries and the balances of the account tokens; the passes over the KPIs add the rest. A
report that a formula refers to is evaluated for the same column when it is first needed. Each
report is marked as started before its own formulas are looked at, so that a report which refers
back to one being evaluated finds no values there, and the nesting is never deeper than the number
of reports.
-/

namespace KpiReport

open KpiReport.Calendar

/-- What reports are computed from. -/
structure Sources where
  library : Library
  ledger : Ledger
  store : RecordStore
  settings : Settings
  /-- Today's date, given the distance of local time from universal time. -/
  today : UtcOffset → Date

/-- A column of a report: a period with its dates. -/
structure Column where
  period : Period
  bounds : Bounds

namespace Sources

/-- The distance of local time from universal time. -/
def offset (sources : Sources) : Result UtcOffset :=
  utcOffset sources.settings.utcOffsetMinutes

/-- Looks up the account tokens of a template. -/
def newRegistry (sources : Sources) (self : Instance) (template : Template) : Traced Registry := do
  let registered ← Traced.ofResult (Registry.registerAll {} (template.kpis.map Kpi.expression))
  let registry ← registered.resolve sources.ledger self.rootAccount
  Traced.log .debug
    ("Compiled " ++ toString registry.tokens.length ++ " account token(s) for report '" ++
      template.code ++ "'")
  return registry

/-- The account tokens of a template, looked up on their first use. -/
def registry (sources : Sources) (self : Instance) (template : Template) :
    Evaluation Registry := do
  match (← Evaluation.getCache).registries.get? template.code with
  | some registry => return registry
  | none =>
    let registry ← Evaluation.ofTraced (sources.newRegistry self template)
    Evaluation.modifyCache fun cache => cache.keepRegistry template.code registry
    return registry

/-- The scope in which the passes start: the results of the queries and the balances of the account
tokens. -/
def firstScope (sources : Sources) (self : Instance) (column : Column) (template : Template)
    (registry : Registry) : Traced Scope := do
  let offset ← Traced.ofResult sources.offset
  let (scope, fetched) ← Query.fetchInto sources.store offset column.bounds
    column.period.queryFilters .empty template.queries
  Traced.ofResult fetched
  let balances ← registry.balances sources.ledger column.bounds self.targetMove
    column.period.moveLineFilter
  return balances.bind scope

/-- Evaluates a template for a column, the values of other reports being given. -/
def evaluateWith (sources : Sources) (self : Instance) (column : Column)
    (subReport : String → Evaluation (Option (Table Value))) (template : Template) :
    Evaluation PeriodResults := do
  let period := column.period.name
  Evaluation.modifyCache fun cache => cache.mark template.code period .started
  let registry ← sources.registry self template
  let scope ← Evaluation.ofTraced (sources.firstScope self column template registry)
  let queue ← Evaluation.ofResult
    (template.sortedKpis.mapM (CompiledKpi.ofKpi sources.library template registry))
  let sheet : Sheet := ⟨template.code, period, sources.settings.locale, subReport⟩
  let (findings, passes) ← sheet.passes { scope := scope } queue
  Evaluation.log .debug
    ("Report '" ++ template.code ++ "', period '" ++ period ++ "': " ++
      toString findings.results.length ++ " KPI(s) evaluated in " ++ toString passes ++
      " pass(es)")
  let found : PeriodResults := ⟨findings.results, passes⟩
  Evaluation.modifyCache fun cache => cache.mark template.code period (.finished found.values)
  return found

/-- The values of a report for a column: those of an evaluation that has come to its end, none while
one is going on, else those of a new evaluation. -/
def subReportValues (sources : Sources) (column : Column)
    (evaluate : Template → Evaluation PeriodResults) (code : String) :
    Evaluation (Option (Table Value)) := do
  match (← Evaluation.getCache).progress? code column.period.name with
  | some (.finished values) => return some values
  | some .started =>
    Evaluation.log .debug
      ("Report '" ++ code ++ "' is already being computed for period '" ++ column.period.name ++
        "'")
    return none
  | none =>
    let template ← Evaluation.ofResult (sources.library.get code)
    Evaluation.log .debug
      ("Computing sub-report '" ++ code ++ "' for period '" ++ column.period.name ++ "'")
    let found ← evaluate template
    return some found.values

/-- Evaluates a template for a column, with at most `depth` reports inside each other below it. -/
def evaluateNested (sources : Sources) (self : Instance) (column : Column) :
    Nat → Template → Evaluation PeriodResults
  | 0 => sources.evaluateWith self column fun _ => return none
  | depth + 1 =>
    sources.evaluateWith self column
      (sources.subReportValues column (sources.evaluateNested self column depth))

/-- Evaluates a template for a column. -/
def evaluate (sources : Sources) (self : Instance) (column : Column) (template : Template) :
    Evaluation PeriodResults :=
  sources.evaluateNested self column (sources.library.size + 1) template

end Sources

end KpiReport
