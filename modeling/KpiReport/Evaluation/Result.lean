import KpiReport.Table
import KpiReport.Value.Basic

/-!
# Results of key figures

What the evaluation of a report gives for each of its KPIs in one period.
-/

namespace KpiReport

/-- The result of a KPI for a period. -/
structure KpiResult where
  /-- The value; no data also where the evaluation failed. -/
  value : Value
  /-- What is shown for the value, or a sign of failure. -/
  display : String
  /-- The formula, and the failure if there is one. -/
  comment : String
  style : Option String
  prefixText : Option String
  suffixText : Option String
  decimals : Nat
  isPercentage : Bool
  kpi : String
  period : String
  expression : String
  /-- Whether the value comes from accounts alone, so that its move lines can be shown. -/
  drilldown : Bool
  /-- The reports that the formula refers to. -/
  subReports : List String

/-- The JSON form of a result. -/
def KpiResult.toJson (result : KpiResult) : Json :=
  .object [("val", result.value.toJson), ("val_r", .text result.display),
    ("val_c", .text result.comment), ("style", Json.ofText? result.style),
    ("prefix", Json.ofText? result.prefixText), ("suffix", Json.ofText? result.suffixText),
    ("dp", .integer result.decimals), ("is_percentage", .bool result.isPercentage),
    ("kpi", .text result.kpi), ("period_id", .text result.period),
    ("expr", .text result.expression), ("drilldown", .bool result.drilldown),
    ("sub_report_ids", Json.texts result.subReports)]

/-- The results of a report for a period, by KPI, and the number of passes they took. -/
structure PeriodResults where
  results : Table KpiResult
  passes : Nat

namespace PeriodResults

/-- The result of a KPI. -/
def get? (self : PeriodResults) (kpi : String) : Option KpiResult :=
  self.results.get? kpi

/-- The values of the KPIs. -/
def values (self : PeriodResults) : Table Value :=
  self.results.mapValues KpiResult.value

end PeriodResults

end KpiReport
