import KpiReport.Error
import KpiReport.Filter.Basic

/-!
# Record stores

A record store knows the fields of its models, reads the records of a model that match a filter,
and sums fields over them.
-/

namespace KpiReport

/-- What a field holds. -/
inductive FieldKind where
  | date
  | dateTime
  | other
  deriving DecidableEq, Repr

namespace FieldKind

/-- How the kinds are written. -/
def names : List (String × FieldKind) :=
  [("Date", date), ("DateTime", dateTime), ("Other", other)]

end FieldKind

/-- What a store knows about a field; one that is not stored cannot be summed by the store. -/
structure FieldInfo where
  kind : FieldKind
  stored : Bool
  deriving DecidableEq, Repr

/-- The JSON form of what a store knows about a field. -/
def FieldInfo.toJson (info : FieldInfo) : Json :=
  .object [("kind", Json.ofChoice FieldKind.names info.kind), ("stored", .bool info.stored)]

/-- The number of the records that match a filter and the sums of their fields; a field that the
store cannot sum is left out. -/
structure GroupTotals where
  count : Nat
  sums : Table FieldValue

/-- What reports ask of a record store. -/
structure RecordStore where
  /-- What the store knows about a field of a model. -/
  fieldInfo : (model field : String) → Result FieldInfo
  /-- The given fields of the records of a model that match a filter. -/
  searchRead : (model : String) → Filter → (fields : List String) → Result (List Record)
  /-- The sums of the given fields over the records of a model that match a filter. -/
  readGroup : (model : String) → Filter → (fields : List String) → Result GroupTotals

end KpiReport
