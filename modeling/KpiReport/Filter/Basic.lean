import KpiReport.Filter.FieldValue
import KpiReport.Json.Codec
import KpiReport.Table

/-!
# Filters

A filter is a list of conditions that a record must all meet. A condition compares a field with a
value, or holds alternative filters of which one must match. `Filter.matches` decides. A filter is
kept as JSON by `Filter.toJson` and read by `Filter.ofJson?`; a codec makes a text of it.
-/

namespace KpiReport

/-- How a condition compares a field with a value. -/
inductive FilterOp where
  | eq
  | ne
  | lt
  | le
  | gt
  | ge
  | memberOf
  | notMemberOf
  deriving DecidableEq, Repr

namespace FilterOp

/-- How the comparisons are written. -/
def symbols : List (String × FilterOp) :=
  [("=", eq), ("!=", ne), ("<", lt), ("<=", le), (">", gt), (">=", ge), ("in", memberOf),
    ("not in", notMemberOf)]

/-- Whether a value is a member of a list, or equal to a value that is no list. -/
def isMember (actual expected : FieldValue) : Bool :=
  match expected with
  | .list items => items.any fun item => actual.equals item
  | expected => actual.equals expected

/-- Whether a comparison holds between the value of a field and the value of the condition. -/
def holds (op : FilterOp) (actual expected : FieldValue) : Bool :=
  match op with
  | eq => actual.equals expected
  | ne => !actual.equals expected
  | lt => CompareOp.lt.holds (actual.order? expected)
  | le => CompareOp.le.holds (actual.order? expected)
  | gt => CompareOp.gt.holds (actual.order? expected)
  | ge => CompareOp.ge.holds (actual.order? expected)
  | memberOf => isMember actual expected
  | notMemberOf => !isMember actual expected

end FilterOp

/-- A condition on a record. -/
inductive Condition where
  | field (name : String) (op : FilterOp) (value : FieldValue)
  | any (alternatives : List (List Condition))

/-- Conditions that a record must all meet. -/
abbrev Filter := List Condition

/-- A record of the store: its fields by name. -/
abbrev Record := Table FieldValue

/-- The value of a field of a record, null where it has none. -/
def Record.field (record : Record) (name : String) : FieldValue :=
  (Table.get? record name).getD .null

mutual

/-- Whether a record, given by the values of its fields, meets a condition. -/
def Condition.matches (record : String → FieldValue) : Condition → Bool
  | .field name op value => op.holds (record name) value
  | .any alternatives => Filter.anyMatches record alternatives

/-- Whether a record meets all conditions of a filter. -/
def Filter.matches (record : String → FieldValue) : List Condition → Bool
  | [] => true
  | condition :: conditions => condition.matches record && Filter.matches record conditions

/-- Whether a record matches one of some filters. -/
def Filter.anyMatches (record : String → FieldValue) : List (List Condition) → Bool
  | [] => false
  | filter :: filters => Filter.matches record filter || Filter.anyMatches record filters

end

mutual

/-- Whether two conditions are the same, numbers being compared as numbers. -/
def Condition.same : Condition → Condition → Bool
  | .field m p a, .field n q b => m == n && p == q && a.same b
  | .any xs, .any ys => Filter.sameAlternatives xs ys
  | _, _ => false

/-- Whether two filters have the same conditions in order. -/
def Filter.same : List Condition → List Condition → Bool
  | [], [] => true
  | x :: xs, y :: ys => x.same y && Filter.same xs ys
  | _, _ => false

/-- Whether two lists of filters are the same. -/
def Filter.sameAlternatives : List (List Condition) → List (List Condition) → Bool
  | [], [] => true
  | x :: xs, y :: ys => Filter.same x y && Filter.sameAlternatives xs ys
  | _, _ => false

end

namespace Filter

/-- A filter that matches the records that one of the alternatives matches. -/
def anyOf (alternatives : List Filter) : Filter :=
  [.any alternatives]

mutual

/-- The JSON form of a condition. -/
def conditionToJson : Condition → Json
  | .field name op value =>
    .object [("field", .text name), ("op", Json.ofChoice FilterOp.symbols op),
      ("value", value.toJson)]
  | .any alternatives => .object [("any", .list (alternativesToJson alternatives))]

/-- The JSON forms of some conditions. -/
def conditionsToJson : List Condition → List Json
  | [] => []
  | condition :: conditions => conditionToJson condition :: conditionsToJson conditions

/-- The JSON forms of some filters. -/
def alternativesToJson : List (List Condition) → List Json
  | [] => []
  | filter :: filters => .list (conditionsToJson filter) :: alternativesToJson filters

end

/-- The JSON form of a filter. -/
def toJson (filter : Filter) : Json :=
  .list (conditionsToJson filter)

/-- Reads a comparison of a field from the fields of its JSON form. -/
def fieldConditionOfJson? (fields : List (String × Json)) : Option Condition := do
  let name ← Json.required fields "field" Json.text?
  let op ← Json.required fields "op" (Json.choice? FilterOp.symbols)
  let value ← Json.required fields "value" FieldValue.ofJson?
  return .field name op value

mutual

/-- Reads a condition from its JSON form: as a comparison where it is one, else as alternatives. -/
def conditionOfJson? : Json → Option Condition
  | .object fields =>
    match fieldConditionOfJson? fields with
    | some condition => some condition
    | none => alternativesOfFields? fields
  | _ => none

/-- Reads the alternatives among the fields of an object. -/
def alternativesOfFields? : List (String × Json) → Option Condition
  | [] => none
  | (name, value) :: fields =>
    if name = "any" then
      match value with
      | .list filters => (alternativesOfJson? filters).map .any
      | _ => none
    else alternativesOfFields? fields

/-- Reads some filters. -/
def alternativesOfJson? : List Json → Option (List (List Condition))
  | [] => some []
  | .list conditions :: filters => do
    let filter ← conditionsOfJson? conditions
    return filter :: (← alternativesOfJson? filters)
  | _ :: _ => none

/-- Reads some conditions. -/
def conditionsOfJson? : List Json → Option (List Condition)
  | [] => some []
  | condition :: conditions => do
    let condition ← conditionOfJson? condition
    return condition :: (← conditionsOfJson? conditions)

end

/-- Reads a filter from its JSON form. -/
def ofJson? : Json → Option Filter
  | .list conditions => conditionsOfJson? conditions
  | _ => none

/-- Writes a filter as a text. -/
def toText (codec : Json.Codec) (filter : Filter) : String :=
  codec.print filter.toJson

/-- Reads a filter from a text. -/
def ofText? (codec : Json.Codec) (text : String) : Option Filter :=
  (codec.read? text).bind ofJson?

end Filter

/-- Reads a record from its JSON form. -/
def Record.ofJson? : Json → Option Record
  | .object fields => do
    let entries ← fields.mapM fun field => do
      let value ← FieldValue.ofJson? field.2
      return (field.1, value)
    return Table.ofEntries entries
  | _ => none

/-- The JSON form of a record. -/
def Record.toJson (record : Record) : Json :=
  .object (record.map fun field => (field.1, field.2.toJson))

end KpiReport
