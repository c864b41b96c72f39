import KpiReport.Calendar.Text
import KpiReport.Json.Fields
import KpiReport.Value.Arithmetic

/-!
# Field values

The values that records hold and conditions compare with. Values of one kind are ordered, and a
date is ordered with points in time as the start of its day; all other pairs have no order.
-/

namespace KpiReport

open KpiReport.Calendar

/-- A value of a field of a record. -/
inductive FieldValue where
  | null
  | bool (b : Bool)
  | number (x : Float)
  | date (d : Date)
  | dateTime (t : DateTime)
  | text (s : String)
  | list (items : List FieldValue)
  deriving Inhabited

namespace FieldValue

/-- The number that a field holds. -/
def toFloat? : FieldValue → Option Float
  | number x => some x
  | _ => none

/-- The order of two truth values, the false one first. -/
def boolOrder (a b : Bool) : Ordering :=
  match a, b with
  | false, true => .lt
  | true, false => .gt
  | _, _ => .eq

/-- The order of two whole numbers. -/
def intOrder (a b : Int) : Ordering :=
  if a < b then .lt else if a = b then .eq else .gt

/-- The point in time of a date or a point in time. -/
def instant? : FieldValue → Option Int
  | date d => some d.midnight.instant
  | dateTime t => some t.instant
  | _ => none

/-- The order of two values of comparable kinds. -/
def order? : FieldValue → FieldValue → Option Ordering
  | null, null => some .eq
  | bool a, bool b => some (boolOrder a b)
  | number x, number y => Value.floatOrder? x y
  | text s, text t => some (Value.textOrder s t)
  | a, b =>
    match a.instant?, b.instant? with
    | some m, some n => some (intOrder m n)
    | _, _ => none

mutual

/-- Whether two values are of one kind and the same, numbers being compared as numbers. -/
def same : FieldValue → FieldValue → Bool
  | null, null => true
  | bool a, bool b => a == b
  | number x, number y => x == y
  | date d, date e => d == e
  | dateTime t, dateTime u => t == u
  | text s, text t => s == t
  | list xs, list ys => sameItems xs ys
  | _, _ => false

/-- Whether two lists have the same items. -/
def sameItems : List FieldValue → List FieldValue → Bool
  | [], [] => true
  | x :: xs, y :: ys => same x y && sameItems xs ys
  | _, _ => false

end

/-- Whether two values are equal in a condition: lists with the same items, other values that the
order does not tell apart. -/
def equals (a b : FieldValue) : Bool :=
  match a, b with
  | list xs, list ys => sameItems xs ys
  | a, b => order? a b == some .eq

mutual

/-- The value that a field gives to formulas; dates and points in time are given as texts. -/
def toValue : FieldValue → Value
  | null => .noData
  | bool b => .bool b
  | number x => .number x
  | date d => .text d.toText
  | dateTime t => .text t.toPlainText
  | text s => .text s
  | list items => .list (itemValues items)

/-- The values that the items of a list give to formulas. -/
def itemValues : List FieldValue → List Value
  | [] => []
  | item :: items => toValue item :: itemValues items

end

mutual

/-- The JSON form of a value; dates and points in time are written as texts. -/
def toJson : FieldValue → Json
  | null => .null
  | bool b => .bool b
  | number x => .number x
  | date d => .text d.toText
  | dateTime t => .text t.toText
  | text s => .text s
  | list items => .list (itemsToJson items)

/-- The JSON forms of the items of a list. -/
def itemsToJson : List FieldValue → List Json
  | [] => []
  | item :: items => toJson item :: itemsToJson items

end

/-- The value that a text is read as: a date or a point in time where it is written as one. -/
def ofText (s : String) : FieldValue :=
  match Date.read? s with
  | some d => date d
  | none =>
    match DateTime.read? s with
    | some t => dateTime t
    | none => text s

mutual

/-- Reads a value from its JSON form. -/
def ofJson? : Json → Option FieldValue
  | .null => some null
  | .bool b => some (bool b)
  | .integer n => some (number (Float.ofInt n))
  | .number x => some (number x)
  | .text s => some (ofText s)
  | .list items => (itemsOfJson? items).map list
  | .object _ => none
  | .outOfRange => none

/-- Reads the items of a list. -/
def itemsOfJson? : List Json → Option (List FieldValue)
  | [] => some []
  | item :: items => do
    let value ← ofJson? item
    return value :: (← itemsOfJson? items)

end

end FieldValue

end KpiReport
