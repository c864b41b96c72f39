import KpiReport.Account.Drilldown
import KpiReport.Grid.Layout
import KpiReport.Period.Resolve

/-!
# Reports

`Sources.report` checks the library and computes an instance; `Sources.compute` does so for a
library that is known to be valid. `Sources.drilldown` gives the move lines behind a formula in a
period of an instance.
-/

namespace KpiReport

open KpiReport.Calendar

namespace Sources

/-- The date that the periods of an instance are relative to. -/
def pivotDate (sources : Sources) (self : Instance) : Result Date :=
  sources.offset.map fun offset => self.pivotDate (sources.today offset)

/-- The columns of the periods that have bounds. -/
def columns (sources : Sources) (self : Instance) (pivot : Date) :
    List Period → Traced (List Column)
  | [] => return []
  | period :: periods => do
    let bounds ← period.resolve sources.ledger self.company pivot
    let more ← sources.columns self pivot periods
    return (bounds.map (Column.mk period)).toList ++ more

/-- Fills a column with the results of a template. -/
def fill (sources : Sources) (self : Instance) (template : Template) (column : Column) :
    Evaluation FilledColumn := do
  Evaluation.log .debug
    ("Period '" ++ column.period.name ++ "': " ++ column.bounds.start.toText ++ " to " ++
      column.bounds.stop.toText)
  let found ← sources.evaluate self column template
  return { column with found := found }

/-- Computes the columns of an instance of a template. -/
def filledColumns (sources : Sources) (self : Instance) (template : Template) :
    Traced (List FilledColumn) := do
  let pivot ← Traced.ofResult (sources.pivotDate self)
  let columns ← sources.columns self pivot self.sortedPeriods
  Traced.log .info
    ("Computing report '" ++ template.code ++ "' for instance '" ++ self.name ++ "': " ++
      toString columns.length ++ " valid period(s), pivot date " ++ pivot.toText)
  Evaluation.onNewCache (columns.mapM (sources.fill self template))

/-- Computes an instance, for a library that is not checked again. -/
def compute (sources : Sources) (self : Instance) : Traced (List Grid) := do
  Traced.ofResult self.validate
  let template ← Traced.ofResult (sources.library.get self.report)
  Traced.ofResult template.validate
  let columns ← sources.filledColumns self template
  Traced.ofResult (template.layOut sources.settings.locale columns)

/-- Checks the library and computes an instance. -/
def report (sources : Sources) (self : Instance) : Traced (List Grid) := do
  Traced.ofResult sources.library.validate
  Traced.log .debug
    ("Library holds " ++ toString sources.library.size ++ " report(s); computing instance '" ++
      self.name ++ "'")
  sources.compute self

end Sources

/-- The move lines behind a formula in a period. -/
structure Drilldown where
  caption : String
  filter : Filter

namespace Sources

/-- The move lines behind the account tokens of a formula in a column. -/
def drilldownFilter (sources : Sources) (self : Instance) (column : Column) (formula : String) :
    Traced (Option Filter) := do
  let registered ← Traced.ofResult (Registry.register {} formula)
  let registry ← registered.resolve sources.ledger self.rootAccount
  Traced.ofResult
    (registry.drilldownFilter formula column.bounds self.targetMove column.period.moveLineFilter)

/-- The move lines behind a formula in a period of an instance, none if the formula has no account
token or the period no bounds. -/
def drilldown (sources : Sources) (self : Instance) (period formula : String) :
    Traced (Option Drilldown) := do
  let period ← Traced.ofResult (Result.ofOption (.unknownPeriod period) (self.period? period))
  if !AccountToken.occursIn formula then return none
  let pivot ← Traced.ofResult (sources.pivotDate self)
  match ← period.resolve sources.ledger self.company pivot with
  | none => return none
  | some bounds =>
    let filter ← sources.drilldownFilter self ⟨period, bounds⟩ formula
    return filter.map fun filter => ⟨formula ++ " - " ++ period.name, filter⟩

end Sources

end KpiReport
