import KpiReport.Definition.Kpi
import KpiReport.Definition.Period
import KpiReport.Definition.Query
import KpiReport.Error
import KpiReport.Text.Identifier

/-!
# Report templates

A template holds the KPIs and queries of a report, the periods it suggests and, for reports with a
manual layout, the positions of captions and cells. `Template.validate` refuses templates whose
names cannot be used in formulas or clash, and positions that refer to nothing.
-/

namespace KpiReport

open KpiReport.Text

/-- A cell of a manual layout; line 0 holds captions of columns and column 0 labels of rows. -/
structure Position where
  line : Int
  column : Int
  name : Option String := none
  kpi : Option String := none
  period : Option String := none
  deriving DecidableEq, Repr

/-- The definition of a report. -/
structure Template where
  /-- The name by which other reports refer to this one. -/
  code : String
  name : String
  description : Option String := none
  kpis : List Kpi := []
  queries : List Query := []
  /-- Whether periods are rows and KPIs columns. -/
  isMatrix : Bool := false
  /-- Whether the positions lay the report out. -/
  manualPosition : Bool := false
  periods : List PeriodTemplate := []
  positions : List Position := []

namespace Template

/-- The KPIs in the order in which they are evaluated and displayed. -/
def sortedKpis (template : Template) : List Kpi :=
  template.kpis.mergeSort fun a b => a.sequence ≤ b.sequence

/-- The first KPI with a name. -/
def kpi? (template : Template) (name : String) : Option Kpi :=
  template.kpis.find? fun kpi => kpi.name == name

/-- The first query with a name. -/
def query? (template : Template) (name : String) : Option Query :=
  template.queries.find? fun query => query.name == name

/-! ## Validation -/

/-- Whether formulas cannot refer to a name because it has a meaning of its own. -/
def isReserved (name : String) : Bool :=
  keywords.contains name || (Builtin.ofName? name).isSome

/-- Whether a name is kept for the names that formulas get from account tokens. -/
def isPrivate (name : String) : Bool :=
  match name.toList with
  | '_' :: '_' :: _ => true
  | _ => false

/-- Checks that formulas can refer to a name. -/
def checkName (context : DefinitionContext) (name : String) : Result Unit :=
  if !isIdentifier name then .error (.invalidDefinition context (.notIdentifier name))
  else if isPrivate name then .error (.invalidDefinition context (.privateName name))
  else if isReserved name then .error (.invalidDefinition context (.reservedName name))
  else .ok ()

/-- Checks KPIs and gives the names in use after them. -/
def checkKpis (context : DefinitionContext) (used : List String) : List Kpi → Result (List String)
  | [] => .ok used
  | kpi :: kpis => do
    checkName context kpi.name
    if used.contains kpi.name then
      .error (.invalidDefinition context (.duplicateKpi kpi.name))
    else if kpi.expression.toList.all isBlank then
      .error (.invalidDefinition context (.emptyExpression kpi.name))
    else checkKpis context (kpi.name :: used) kpis

/-- Checks queries and gives the names in use after them. -/
def checkQueries (context : DefinitionContext) (used : List String) :
    List Query → Result (List String)
  | [] => .ok used
  | query :: queries => do
    checkName context query.name
    if used.contains query.name then
      .error (.invalidDefinition context (.usedQueryName query.name))
    else if query.fields.isEmpty then
      .error (.invalidDefinition context (.queryWithoutFields query.name))
    else if query.dateField.isEmpty then
      .error (.invalidDefinition context (.queryWithoutDateField query.name))
    else checkQueries context (query.name :: used) queries

/-- Checks suggested periods and gives their names. -/
def checkPeriods (context : DefinitionContext) (used : List String) :
    List PeriodTemplate → Result (List String)
  | [] => .ok used
  | period :: periods =>
    if period.duration ≤ 0 then
      .error (.invalidDefinition context (.nonPositiveDuration period.name))
    else if used.contains period.name then
      .error (.invalidDefinition context (.duplicatePeriod period.name))
    else checkPeriods context (period.name :: used) periods

/-- Checks that a position lies in the layout and refers to a KPI and a period of the template. -/
def checkPosition (template : Template) (context : DefinitionContext) (periods : List String)
    (position : Position) : Result Unit := do
  if position.line < 0 ∨ position.column < 0 then
    .error (.invalidPosition position.line position.column)
  match position.kpi with
  | some kpi =>
    if (template.kpi? kpi).isNone then
      .error (.invalidDefinition context (.positionOfUnknownKpi kpi))
  | none => .ok ()
  match position.period with
  | some period =>
    if !periods.contains period then
      .error (.invalidDefinition context (.positionOfUnknownPeriod period))
  | none => .ok ()

/-- Checks a template. -/
def validate (template : Template) : Result Unit := do
  let context := DefinitionContext.report template.code
  if !isIdentifier template.code then
    .error (.invalidDefinition context .codeNotIdentifier)
  let used ← checkKpis context [] template.kpis
  let _ ← checkQueries context used template.queries
  let periods ← checkPeriods context [] template.periods
  template.positions.forM (checkPosition template context periods)

end Template

/-! ## JSON form -/

/-- The JSON form of a position. -/
def Position.toJson (position : Position) : Json :=
  .object [("line", .integer position.line), ("column", .integer position.column),
    ("name", Json.ofText? position.name), ("kpi", Json.ofText? position.kpi),
    ("period", Json.ofText? position.period)]

/-- Reads a position from its JSON form. -/
def Position.ofJson? (json : Json) : Option Position := do
  let fields ← Json.fields? ["line", "column", "name", "kpi", "period"] json
  return {
    line := ← Json.required fields "line" Json.int32?
    column := ← Json.required fields "column" Json.int32?
    name := ← Json.nullable fields "name" Json.text?
    kpi := ← Json.nullable fields "kpi" Json.text?
    period := ← Json.nullable fields "period" Json.text? }

namespace Template

/-- The names of the fields of the JSON form. -/
def fieldNames : List String :=
  ["code", "name", "description", "kpis", "queries", "matrix", "manual_position", "periods",
    "positions"]

/-- The JSON form of a template. -/
def toJson (template : Template) : Json :=
  .object [("code", .text template.code), ("name", .text template.name),
    ("description", Json.ofText? template.description),
    ("kpis", .list (template.kpis.map Kpi.toJson)),
    ("queries", .list (template.queries.map Query.toJson)),
    ("matrix", .bool template.isMatrix), ("manual_position", .bool template.manualPosition),
    ("periods", .list (template.periods.map PeriodTemplate.toJson)),
    ("positions", .list (template.positions.map Position.toJson))]

/-- Reads a template from its JSON form. -/
def ofJson? (json : Json) : Option Template := do
  let fields ← Json.fields? fieldNames json
  return {
    code := ← Json.required fields "code" Json.text?
    name := ← Json.required fields "name" Json.text?
    description := ← Json.nullable fields "description" Json.text?
    kpis := ← Json.required fields "kpis" (Json.list? Kpi.ofJson?)
    queries := ← Json.withDefault fields "queries" [] (Json.list? Query.ofJson?)
    isMatrix := ← Json.withDefault fields "matrix" false Json.bool?
    manualPosition := ← Json.withDefault fields "manual_position" false Json.bool?
    periods := ← Json.withDefault fields "periods" [] (Json.list? PeriodTemplate.ofJson?)
    positions := ← Json.withDefault fields "positions" [] (Json.list? Position.ofJson?) }

end Template

end KpiReport
