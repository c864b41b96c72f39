import KpiReport.Account.Registry
import KpiReport.Definition.Library
import KpiReport.Formula.Eval

/-!
# Compiled key figures

Before a KPI is evaluated, the account tokens of its formula are replaced by their private names,
and its references to KPIs of other reports by the names under which their values are bound. A
formula that cannot be read does not stop the report: its fault is kept as the KPI's failure.
-/

namespace KpiReport

/-- A KPI with its formula, ready to be evaluated. -/
structure CompiledKpi where
  kpi : Kpi
  expression : Except SyntaxFault Expr
  /-- The reports that the formula refers to, in the order of their first references. -/
  subReports : List String

/-- Whether the base of a reference is a report, and not a query of the template. -/
def Library.isCrossReference (library : Library) (template : Template)
    (reference : String × String) : Bool :=
  (template.query? reference.1).isNone && library.contains reference.1

namespace CompiledKpi

/-- The KPI with a formula whose account tokens have been replaced and whose references to other
reports are `crossing`. -/
def ofFormula (kpi : Kpi) (formula : String) (crossing : List (String × String)) : CompiledKpi :=
  { kpi := kpi
    expression := (Expr.parse formula).map (Expr.renameReferences (Expr.dottedName crossing))
    subReports := (crossing.map Prod.fst).eraseDups }

/-- Compiles a KPI of a template; fails if it refers to a KPI that another report lacks. -/
def ofKpi (library : Library) (template : Template) (registry : Registry) (kpi : Kpi) :
    Result CompiledKpi :=
  match registry.substitute kpi.expression with
  | .error e => .error e
  | .ok formula =>
    match dottedReferences formula with
    | .error fault => .ok ⟨kpi, .error fault, []⟩
    | .ok references =>
      let crossing := references.filter (library.isCrossReference template)
      (crossing.forM (library.checkReference template kpi)).map fun _ =>
        ofFormula kpi formula crossing

/-- The value of a KPI in a scope. -/
def eval (compiled : CompiledKpi) (scope : Scope) : Except EvalError Value :=
  match compiled.expression with
  | .error fault => .error (.illFormed fault)
  | .ok e => e.eval scope

end CompiledKpi

end KpiReport
