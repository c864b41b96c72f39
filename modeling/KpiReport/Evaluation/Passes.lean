import KpiReport.Evaluation.Cache
import KpiReport.Evaluation.Compiled
import KpiReport.Render

/-!
# Passes over the key figures

KPIs may refer to each other in any order. They are evaluated one after the other in one scope, to
which each value is bound under the name of its KPI. A KPI that fails because a name is not known
yet is tried again in the next pass, until no KPI is left or a pass settles none. A division by
zero settles a KPI: it is bound to no data.
-/

namespace KpiReport

/-- What is shown for a division by zero. -/
def divisionByZeroSign : String := "#DIV/0"

/-- What is shown for any other failure. -/
def failureSign : String := "#ERR"

/-- What the evaluation of a KPI gives. -/
abbrev Outcome := Except EvalError Value

namespace Outcome

/-- What the name of the KPI is bound to; none if it stays unknown. -/
def binding? : Outcome → Option Value
  | .ok value => some value
  | .error .divisionByZero => some .noData
  | .error _ => none

/-- The value that is reported. -/
def value : Outcome → Value
  | .ok value => value
  | .error _ => .noData

/-- What is shown. -/
def display (outcome : Outcome) (kpi : Kpi) (locale : Locale) : String :=
  match outcome with
  | .ok value => kpi.render value locale
  | .error .divisionByZero => divisionByZeroSign
  | .error _ => failureSign

/-- The formula, and the failure if there is one. -/
def comment (outcome : Outcome) (kpi : Kpi) : String :=
  let formula := kpi.name ++ " = " ++ kpi.expression
  match outcome with
  | .ok _ => formula
  | .error e => formula ++ "\n\n" ++ e.message

/-- Whether the KPI is to be tried again. -/
def isRetryable : Outcome → Bool
  | .ok _ => false
  | .error e => e.isRetryable

/-- Whether there is a value. -/
def isValue : Outcome → Bool
  | .ok _ => true
  | .error _ => false

end Outcome

/-- The style of a KPI in a scope. A formula that fails gives none, and the log tells why. -/
def Kpi.styleIn (kpi : Kpi) (scope : Scope) : Traced (Option String) :=
  match kpi.styleExpression with
  | none => pure none
  | some formula =>
    match evalFormula scope formula with
    | .ok .noData => pure none
    | .ok value => pure (some value.toText)
    | .error e => do
      Traced.log .warn
        ("Error evaluating style expression '" ++ formula ++ "' of KPI '" ++ kpi.name ++ "': " ++
          e.message)
      return none

namespace CompiledKpi

/-- Whether an outcome comes from accounts alone. -/
def isDrillable (compiled : CompiledKpi) (outcome : Outcome) : Bool :=
  outcome.isValue && compiled.subReports.isEmpty &&
    AccountToken.occursIn compiled.kpi.expression

/-- The result of a KPI for a period. -/
def result (compiled : CompiledKpi) (outcome : Outcome) (style : Option String) (period : String)
    (locale : Locale) : KpiResult :=
  { value := outcome.value
    display := outcome.display compiled.kpi locale
    comment := outcome.comment compiled.kpi
    style := style
    prefixText := compiled.kpi.prefixText
    suffixText := compiled.kpi.suffixText
    decimals := compiled.kpi.decimals
    isPercentage := compiled.kpi.kpiType == .percentage
    kpi := compiled.kpi.name
    period := period
    expression := compiled.kpi.expression
    drilldown := compiled.isDrillable outcome
    subReports := compiled.subReports }

end CompiledKpi

/-- What the passes have found so far. -/
structure Findings where
  scope : Scope
  /-- The reports whose values are bound. -/
  boundReports : List String := []
  results : Table KpiResult := []

namespace Findings

/-- Binds the values of a report under dotted names. -/
def bindReport (findings : Findings) (code : String) (values : Table Value) : Findings :=
  { findings with
    scope := findings.scope.insertAll (values.map fun entry => (Library.dotted code entry.1, entry.2))
    boundReports := code :: findings.boundReports }

/-- Binds the name of a KPI, if its outcome settles it. -/
def bindOutcome (findings : Findings) (kpi : Kpi) (outcome : Outcome) : Findings :=
  match outcome.binding? with
  | some value => { findings with scope := findings.scope.insert kpi.name value }
  | none => findings

/-- Keeps the result of a KPI. -/
def keepResult (findings : Findings) (result : KpiResult) : Findings :=
  { findings with results := findings.results.insert result.kpi result }

/-- Settles the outcome of a KPI; its style may use its own value. -/
def settle (findings : Findings) (compiled : CompiledKpi) (outcome : Outcome) (period : String)
    (locale : Locale) : Traced Findings := do
  let findings := findings.bindOutcome compiled.kpi outcome
  let style ← compiled.kpi.styleIn findings.scope
  return findings.keepResult (compiled.result outcome style period locale)

end Findings

/-- A report while its KPIs are evaluated. -/
structure Sheet where
  /-- The code of the report. -/
  report : String
  /-- The name of the period. -/
  period : String
  locale : Locale
  /-- Gives the values of another report, none while that report is itself being evaluated. -/
  subReport : String → Evaluation (Option (Table Value))

namespace Sheet

/-- Binds the values of another report, unless they are bound. -/
def bindSubReport (sheet : Sheet) (findings : Findings) (code : String) : Evaluation Findings := do
  if findings.boundReports.contains code then return findings
  else
    match ← sheet.subReport code with
    | some values => return findings.bindReport code values
    | none => return findings

/-- Evaluates the KPIs of a queue and gives those that are to be tried again. -/
def pass (sheet : Sheet) (findings : Findings) :
    List CompiledKpi → Evaluation (Findings × List CompiledKpi)
  | [] => return (findings, [])
  | compiled :: queue => do
    let findings ← compiled.subReports.foldlM sheet.bindSubReport findings
    let outcome : Outcome := compiled.eval findings.scope
    let findings ← Evaluation.ofTraced
      (findings.settle compiled outcome sheet.period sheet.locale)
    let (findings, retry) ← sheet.pass findings queue
    return (findings, if outcome.isRetryable then compiled :: retry else retry)

/-- Warns of the KPIs that stay without a value. -/
def warnUnresolved (sheet : Sheet) (queue : List CompiledKpi) : Evaluation Unit :=
  Evaluation.log .warn
    ("Report '" ++ sheet.report ++ "', period '" ++ sheet.period ++
      "': unresolved KPIs (missing or cyclic dependency): " ++
      String.intercalate ", " (queue.map fun compiled => compiled.kpi.name))

/-- Repeats the passes until no KPI is left or a pass settles none, and counts them. -/
def passes (sheet : Sheet) (findings : Findings) (queue : List CompiledKpi) :
    Evaluation (Findings × Nat) := do
  let (findings, retry) ← sheet.pass findings queue
  if retry.isEmpty then return (findings, 1)
  else if retry.length < queue.length then
    let (findings, more) ← sheet.passes findings retry
    return (findings, more + 1)
  else
    sheet.warnUnresolved retry
    return (findings, 1)
termination_by queue.length

end Sheet

end KpiReport
