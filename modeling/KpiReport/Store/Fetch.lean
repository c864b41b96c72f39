import KpiReport.Calendar.Shift
import KpiReport.Definition.Query
import KpiReport.Formula.Scope
import KpiReport.Period.Bounds
import KpiReport.Store.Basic
import KpiReport.Trace

/-!
# Fetching queries

A query is bounded to the days of a period and run against a record store. Dates are bounded by the
first and the last day, points in time by the local midnights around them. A sum of stored fields is
left to the store; other aggregates are computed from the records.
-/

namespace KpiReport

open KpiReport.Calendar

/-- The record that formulas see of a record of the store. -/
def Record.toValue (record : Record) : Value :=
  .record (record.map fun field => (field.1, field.2.toValue))

namespace Query

/-- The conditions that bound a field to the days of a period. -/
def dateConditions (field : String) (kind : FieldKind) (bounds : Bounds) (offset : UtcOffset) :
    Result Filter :=
  match kind with
  | .date =>
    .ok [.field field .ge (.date bounds.start), .field field .le (.date bounds.stop)]
  | .dateTime | .other =>
    match utcMidnight bounds.start offset 0 with
    | .error e => .error e
    | .ok start =>
      match utcMidnight bounds.stop offset 1 with
      | .error e => .error e
      | .ok stop => .ok [.field field .ge (.dateTime start), .field field .lt (.dateTime stop)]

/-- The filter of a query for a period: its own, the extra one, then the bounds. -/
def boundedFilter (query : Query) (store : RecordStore) (offset : UtcOffset) (bounds : Bounds)
    (extra : Option Filter) : Result Filter :=
  match store.fieldInfo query.model query.dateField with
  | .error e => .error e
  | .ok info =>
    (dateConditions query.dateField info.kind bounds offset).map fun dates =>
      query.filter ++ extra.getD [] ++ dates

/-- Whether the store can sum all of some fields. -/
def allStored (store : RecordStore) (model : String) : List String → Result Bool
  | [] => .ok true
  | field :: fields =>
    match store.fieldInfo model field with
    | .error e => .error e
    | .ok info => (allStored store model fields).map (info.stored && ·)

/-- The sum of a field as the store gives it; a field that it cannot sum is no data. -/
def sumValue (query : Query) (totals : GroupTotals) (field : String) : Traced Value :=
  match totals.sums.get? field with
  | some sum => pure sum.toValue
  | none => do
    Traced.log .error
      ("Field " ++ field ++ " not found in grouped totals of " ++ query.model ++
        "; not summable?")
    return .noData

/-- The aggregate of a field over some records. -/
def aggregateValue (query : Query) (aggregate : Aggregate) (records : List Record)
    (field : String) : Result Value :=
  match aggregate.apply (records.map fun record => (record.field field).toValue) with
  | .ok value => .ok value
  | .error failure =>
    .error (.invalidDefinition (.query query.name) (.aggregation aggregate field failure))

/-- The record of an aggregate: the number of records under `count`, and a value per field. -/
def aggregateRecord (count : Nat) (entries : List (String × Value)) : Value :=
  .record (Table.ofEntries (("count", .number (Float.ofNat count)) :: entries))

/-- Runs a query with an aggregate over the records that match a filter. -/
def fetchAggregate (query : Query) (store : RecordStore) (filter : Filter)
    (aggregate : Aggregate) : Traced Value := do
  let stored ← Traced.ofResult (allStored store query.model query.fields)
  if aggregate = .sum ∧ stored then
    Traced.countGroupedRead
    let totals ← Traced.ofResult (store.readGroup query.model filter query.fields)
    let values ← query.fields.mapM fun field => do
      return (field, ← query.sumValue totals field)
    return aggregateRecord totals.count values
  else
    let records ← Traced.ofResult (store.searchRead query.model filter query.fields)
    let values ← query.fields.mapM fun field => do
      return (field, ← Traced.ofResult (query.aggregateValue aggregate records field))
    return aggregateRecord records.length values

/-- Runs a query for a period. -/
def fetch (query : Query) (store : RecordStore) (offset : UtcOffset) (bounds : Bounds)
    (extra : Option Filter) : Traced Value := do
  let filter ← Traced.ofResult (query.boundedFilter store offset bounds extra)
  match query.aggregate with
  | some aggregate => query.fetchAggregate store filter aggregate
  | none =>
    let records ← Traced.ofResult (store.searchRead query.model filter query.fields)
    Traced.log .debug
      ("Query '" ++ query.name ++ "' returned " ++ toString records.length ++ " record(s)")
    return .list (records.map Record.toValue)

/-- Runs queries for a period in order and binds each result under the name of its query; after a
failure the scope keeps the results of the queries before it. -/
def fetchInto (store : RecordStore) (offset : UtcOffset) (bounds : Bounds)
    (extras : Table Filter) (scope : Scope) : List Query → StateM Trace (Scope × Result Unit)
  | [] => pure (scope, .ok ())
  | query :: queries => do
    match ← (query.fetch store offset bounds (extras.get? query.name)).run with
    | .error e => return (scope, .error e)
    | .ok value =>
      fetchInto store offset bounds extras (scope.insert query.name value) queries

end Query

end KpiReport
