import KpiReport.Decimal.Shortest
import KpiReport.Json.Basic

/-!
# Values of formulas

`noData` stands for a value that nothing gives. It is not zero: it passes through arithmetic,
makes a division by it fail, and is left out of aggregates.
-/

namespace KpiReport

/-- A value of a formula; the fields of a record are in ascending order of their names. -/
inductive Value where
  | noData
  | bool (b : Bool)
  | number (x : Float)
  | text (s : String)
  | list (items : List Value)
  | record (fields : List (String × Value))
  deriving Inhabited

namespace Value

/-- Whether a value is no data. -/
def isNoData : Value → Bool
  | noData => true
  | _ => false

/-- The number that a value stands for in arithmetic: truth counts as one. -/
def toFloat? : Value → Option Float
  | number x => some x
  | bool b => some (if b then 1 else 0)
  | _ => none

/-- Whether a value counts as true in a condition. -/
def truthy : Value → Bool
  | noData => false
  | bool b => b
  | number x => x != 0
  | text s => !s.isEmpty
  | list items => !items.isEmpty
  | record fields => !fields.isEmpty

/-- The kind of a value, as it is named in messages. -/
def kind : Value → String
  | noData => "none"
  | bool _ => "bool"
  | number _ => "number"
  | text _ => "text"
  | list _ => "list"
  | record _ => "record"

mutual

/-- The text of a value. -/
def toText : Value → String
  | noData => "None"
  | bool true => "true"
  | bool false => "false"
  | number x => Decimal.shortest x
  | text s => s
  | list items => "[" ++ String.intercalate ", " (itemTexts items) ++ "]"
  | record fields => "\x7b" ++ String.intercalate ", " (fieldTexts fields) ++ "\x7d"

/-- The texts of the items of a list. -/
def itemTexts : List Value → List String
  | [] => []
  | item :: items => toText item :: itemTexts items

/-- The texts of the fields of a record. -/
def fieldTexts : List (String × Value) → List String
  | [] => []
  | (name, value) :: fields => (name ++ ": " ++ toText value) :: fieldTexts fields

end

mutual

/-- Whether two values are the same, numbers being compared as numbers. -/
def same : Value → Value → Bool
  | noData, noData => true
  | bool a, bool b => a == b
  | number x, number y => x == y
  | text s, text t => s == t
  | list xs, list ys => sameItems xs ys
  | record xs, record ys => sameFields xs ys
  | _, _ => false

/-- Whether two lists have the same items. -/
def sameItems : List Value → List Value → Bool
  | [], [] => true
  | x :: xs, y :: ys => same x y && sameItems xs ys
  | _, _ => false

/-- Whether two records have the same fields. -/
def sameFields : List (String × Value) → List (String × Value) → Bool
  | [], [] => true
  | (m, x) :: xs, (n, y) :: ys => m == n && same x y && sameFields xs ys
  | _, _ => false

end

mutual

/-- The JSON form of a value; no data is `null`. -/
def toJson : Value → Json
  | noData => .null
  | bool b => .bool b
  | number x => .number x
  | text s => .text s
  | list items => .list (itemsToJson items)
  | record fields => .object (fieldsToJson fields)

/-- The JSON forms of the items of a list. -/
def itemsToJson : List Value → List Json
  | [] => []
  | item :: items => toJson item :: itemsToJson items

/-- The JSON forms of the fields of a record. -/
def fieldsToJson : List (String × Value) → List (String × Json)
  | [] => []
  | (name, value) :: fields => (name, toJson value) :: fieldsToJson fields

end

/-- A number, or no data. -/
def ofFloat? : Option Float → Value
  | some x => number x
  | none => noData

end Value

end KpiReport
