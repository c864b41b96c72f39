import KpiReport.Definition.Template
import KpiReport.Ledger.Basic

/-!
# Report instances

An instance computes a template for periods of its own, relative to a pivot date, over the accounts
below a root.
-/

namespace KpiReport

open KpiReport.Calendar

/-- Which journal entries count. -/
inductive TargetMove where
  | posted
  | all
  deriving DecidableEq, Repr

/-- How the choices are written. -/
def TargetMove.names : List (String × TargetMove) :=
  [("Posted", posted), ("All", all)]

/-- A report to compute. -/
structure Instance where
  name : String
  /-- The code of the template. -/
  report : String
  /-- The pivot date; today where there is none. -/
  date : Option Date := none
  rootAccount : String
  company : String := ""
  targetMove : TargetMove := .posted
  periods : List Period

namespace Instance

/-- The date that periods are relative to. -/
def pivotDate (self : Instance) (today : Date) : Date :=
  self.date.getD today

/-- Replaces the periods by those that a template suggests. -/
def withTemplatePeriods (self : Instance) (template : Template) : Instance :=
  { self with periods := template.periods.map Period.ofTemplate }

/-- The first period with a name. -/
def period? (self : Instance) (name : String) : Option Period :=
  self.periods.find? fun period => period.name == name

/-- The periods in the order of their columns. -/
def sortedPeriods (self : Instance) : List Period :=
  self.periods.mergeSort fun a b => a.sequence ≤ b.sequence

/-- Checks periods and gives their names. -/
def checkPeriods (context : DefinitionContext) (used : List String) :
    List Period → Result (List String)
  | [] => .ok used
  | period :: periods =>
    if period.duration ≤ 0 then
      .error (.invalidDefinition context (.nonPositiveDuration period.name))
    else if period.normalizeFactor = 0 then
      .error (.invalidDefinition context (.nonPositiveNormalizeFactor period.name))
    else if used.contains period.name then
      .error (.invalidDefinition context (.duplicatePeriod period.name))
    else checkPeriods context (period.name :: used) periods

/-- Checks that every comparison is with a period of the instance. -/
def checkComparisons (names : List String) (others : List String) : Result Unit :=
  match others.find? fun other => !names.contains other with
  | some other => .error (.unknownPeriod other)
  | none => .ok ()

/-- Checks an instance. -/
def validate (self : Instance) : Result Unit := do
  let names ← checkPeriods (.reportInstance self.name) [] self.periods
  checkComparisons names (self.periods.flatMap Period.compareWith)

/-- The names of the fields of the JSON form. -/
def fieldNames : List String :=
  ["name", "report", "date", "root_account", "company", "target_move", "periods"]

/-- The JSON form of an instance. -/
def toJson (self : Instance) : Json :=
  .object [("name", .text self.name), ("report", .text self.report),
    ("date", Json.ofText? (self.date.map Date.toText)), ("root_account", .text self.rootAccount),
    ("company", .text self.company),
    ("target_move", Json.ofChoice TargetMove.names self.targetMove),
    ("periods", .list (self.periods.map Period.toJson))]

/-- Reads an instance from its JSON form. -/
def ofJson? (json : Json) : Option Instance := do
  let fields ← Json.fields? fieldNames json
  return {
    name := ← Json.required fields "name" Json.text?
    report := ← Json.required fields "report" Json.text?
    date := ← Json.nullable fields "date" dateOfJson?
    rootAccount := ← Json.required fields "root_account" Json.text?
    company := ← Json.withDefault fields "company" "" Json.text?
    targetMove := ← Json.withDefault fields "target_move" .posted (Json.choice? TargetMove.names)
    periods := ← Json.required fields "periods" (Json.list? Period.ofJson?) }

end Instance

end KpiReport
