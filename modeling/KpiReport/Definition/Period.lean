import KpiReport.Filter.Basic

/-!
# Periods

A period is given relative to a pivot date, in days, weeks or fiscal periods. A template suggests
periods; an instance has its own, with comparisons and filters.
-/

namespace KpiReport

/-- What the offset and the duration of a period count. -/
inductive PeriodType where
  | day
  | week
  | fiscalPeriod
  deriving DecidableEq, Repr

/-- How the types are written. -/
def PeriodType.names : List (String × PeriodType) :=
  [("Day", day), ("Week", week), ("FiscalPeriod", fiscalPeriod)]

/-- A period that a template suggests to its instances. -/
structure PeriodTemplate where
  name : String
  periodType : PeriodType
  offset : Int
  duration : Int
  sequence : Int := 0
  deriving DecidableEq, Repr

/-- A period of an instance: a column of the report. -/
structure Period where
  name : String
  periodType : PeriodType
  /-- The distance from the pivot date. -/
  offset : Int
  duration : Int
  sequence : Int := 100
  /-- What values are divided by before they are compared with another period. -/
  normalizeFactor : Nat := 1
  /-- The names of the periods that this one is compared with. -/
  compareWith : List String := []
  templatePeriod : Option String := none
  moveLineFilter : Filter := []
  queryFilters : Table Filter := []

namespace PeriodTemplate

/-- The JSON form of a suggested period. -/
def toJson (period : PeriodTemplate) : Json :=
  .object [("name", .text period.name),
    ("period_type", Json.ofChoice PeriodType.names period.periodType),
    ("offset", .integer period.offset), ("duration", .integer period.duration),
    ("sequence", .integer period.sequence)]

/-- Reads a suggested period from its JSON form. -/
def ofJson? (json : Json) : Option PeriodTemplate := do
  let fields ← Json.fields? ["name", "period_type", "offset", "duration", "sequence"] json
  return {
    name := ← Json.required fields "name" Json.text?
    periodType := ← Json.required fields "period_type" (Json.choice? PeriodType.names)
    offset := ← Json.required fields "offset" Json.int32?
    duration := ← Json.required fields "duration" Json.int32?
    sequence := ← Json.withDefault fields "sequence" 0 Json.int32? }

end PeriodTemplate

namespace Period

/-- The name by which manual positions refer to a period. -/
def templateKey (period : Period) : String :=
  period.templatePeriod.getD period.name

/-- The period of an instance that a suggested period becomes. -/
def ofTemplate (period : PeriodTemplate) : Period :=
  { name := period.name
    periodType := period.periodType
    offset := period.offset
    duration := period.duration
    sequence := period.sequence
    templatePeriod := some period.name }

/-- The names of the fields of the JSON form. -/
def fieldNames : List String :=
  ["name", "period_type", "offset", "duration", "sequence", "normalize_factor", "compare_with",
    "template_period", "move_line_filter", "query_filters"]

/-- The JSON form of a period. -/
def toJson (period : Period) : Json :=
  .object [("name", .text period.name),
    ("period_type", Json.ofChoice PeriodType.names period.periodType),
    ("offset", .integer period.offset), ("duration", .integer period.duration),
    ("sequence", .integer period.sequence), ("normalize_factor", .integer period.normalizeFactor),
    ("compare_with", Json.texts period.compareWith),
    ("template_period", Json.ofText? period.templatePeriod),
    ("move_line_filter", period.moveLineFilter.toJson),
    ("query_filters", .object (period.queryFilters.map fun entry => (entry.1, entry.2.toJson)))]

/-- Reads filters by name from their JSON form. -/
def filtersOfJson? : Json → Option (Table Filter)
  | .object fields => do
    let entries ← fields.mapM fun field => do
      let filter ← Filter.ofJson? field.2
      return (field.1, filter)
    return Table.ofEntries entries
  | _ => none

/-- Reads a period from its JSON form. -/
def ofJson? (json : Json) : Option Period := do
  let fields ← Json.fields? fieldNames json
  return {
    name := ← Json.required fields "name" Json.text?
    periodType := ← Json.required fields "period_type" (Json.choice? PeriodType.names)
    offset := ← Json.required fields "offset" Json.int32?
    duration := ← Json.required fields "duration" Json.int32?
    sequence := ← Json.withDefault fields "sequence" 100 Json.int32?
    normalizeFactor := ← Json.withDefault fields "normalize_factor" 1 Json.nat32?
    compareWith := ← Json.withDefault fields "compare_with" [] (Json.list? Json.text?)
    templatePeriod := ← Json.nullable fields "template_period" Json.text?
    moveLineFilter := ← Json.withDefault fields "move_line_filter" [] Filter.ofJson?
    queryFilters := ← Json.withDefault fields "query_filters" [] filtersOfJson? }

end Period

end KpiReport
