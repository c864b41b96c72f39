import KpiReport.Filter.Basic
import KpiReport.Formula.Operator

/-!
# Queries

A query reads records of a model, bounded to the dates of a period, for use in formulas.
-/

namespace KpiReport

/-- How the aggregates are written. -/
def Aggregate.names : List (String × Aggregate) :=
  [("Sum", sum), ("Avg", avg), ("Min", min), ("Max", max)]

/-- What is read of the record store, under the name by which formulas refer to it. With an
aggregate the result is one record, without one the list of all records. -/
structure Query where
  name : String
  model : String
  fields : List String
  aggregate : Option Aggregate
  dateField : String
  filter : Filter

namespace Query

/-- The JSON form of a query. -/
def toJson (query : Query) : Json :=
  .object [("name", .text query.name), ("model", .text query.model),
    ("fields", Json.texts query.fields),
    ("aggregate", (query.aggregate.map (Json.ofChoice Aggregate.names)).getD .null),
    ("date_field", .text query.dateField), ("filter", query.filter.toJson)]

/-- Reads a query from its JSON form. -/
def ofJson? (json : Json) : Option Query := do
  let fields ← Json.fields? ["name", "model", "fields", "aggregate", "date_field", "filter"] json
  return {
    name := ← Json.required fields "name" Json.text?
    model := ← Json.required fields "model" Json.text?
    fields := ← Json.required fields "fields" (Json.list? Json.text?)
    aggregate := ← Json.nullable fields "aggregate" (Json.choice? Aggregate.names)
    dateField := ← Json.required fields "date_field" Json.text?
    filter := ← Json.withDefault fields "filter" [] Filter.ofJson? }

end Query

end KpiReport
