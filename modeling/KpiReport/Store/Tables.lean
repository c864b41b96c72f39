import KpiReport.Store.Basic

/-!
# Record tables

A record store held in memory: the fields and the records of each model.
-/

namespace KpiReport

/-- The fields and records of a model. -/
structure Model where
  fields : Table FieldInfo := []
  records : List Record := []

/-- Models by name. -/
structure RecordTables where
  models : Table Model := []

namespace RecordTables

/-- The model with a name; one that is not there yet is without fields and records. -/
def modelOrNew (tables : RecordTables) (model : String) : Model :=
  (tables.models.get? model).getD {}

/-- Adds a field to a model. -/
def addField (tables : RecordTables) (model field : String) (info : FieldInfo) : RecordTables :=
  let before := tables.modelOrNew model
  { models := tables.models.insert model { before with fields := before.fields.insert field info } }

/-- Adds a record to a model. -/
def addRecord (tables : RecordTables) (model : String) (record : Record) : RecordTables :=
  let before := tables.modelOrNew model
  { models := tables.models.insert model { before with records := before.records ++ [record] } }

/-- The model with a name. -/
def model (tables : RecordTables) (name : String) : Result Model :=
  Result.ofOption (.source (.unknownModel name)) (tables.models.get? name)

/-- What is known about a field of a model. -/
def fieldInfo (tables : RecordTables) (model field : String) : Result FieldInfo :=
  match tables.model model with
  | .error e => .error e
  | .ok m => Result.ofOption (.unknownField model field) (m.fields.get? field)

/-- The records of a model that match a filter. -/
def matching (tables : RecordTables) (model : String) (filter : Filter) : Result (List Record) :=
  (tables.model model).map fun m => m.records.filter fun record => Filter.matches record.field filter

/-- The given fields of a record, null where it has none. -/
def project (record : Record) (fields : List String) : Record :=
  Table.ofEntries (fields.map fun field => (field, record.field field))

/-- The sum of a field over some records: none where a record holds anything but a number or null,
null where no record holds a number. -/
def sumOf? (field : String) (records : List Record) : Option FieldValue :=
  let held := records.map fun record => record.field field
  if held.all fun value => match value with
      | .null | .number _ => true
      | _ => false
  then
    match held.filterMap FieldValue.toFloat? with
    | [] => some .null
    | x :: xs => some (.number ((x :: xs).foldl (· + ·) 0))
  else none

/-- The sums of the given fields over some records. -/
def sums (fields : List String) (records : List Record) : Table FieldValue :=
  Table.ofEntries (fields.filterMap fun field =>
    (sumOf? field records).map fun value => (field, value))

/-- The tables as a record store. -/
def store (tables : RecordTables) : RecordStore where
  fieldInfo := tables.fieldInfo
  searchRead := fun model filter fields =>
    (tables.matching model filter).map fun records =>
      records.map fun record => project record fields
  readGroup := fun model filter fields =>
    (tables.matching model filter).map fun records => ⟨records.length, sums fields records⟩

end RecordTables

end KpiReport
