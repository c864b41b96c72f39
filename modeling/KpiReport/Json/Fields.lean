import KpiReport.Json.Basic

/-!
# Reading the fields of a definition

A definition is an object with known fields, each written at most once, other fields being ignored;
or it is a list of the values of its fields in order, the last ones of which may be left out. A field
is required, or has a default, or may be `null`.
-/

namespace KpiReport.Json

variable {α : Type}

/-- The fields of a definition with the `known` names, none of which is repeated. -/
def fields? (known : List String) : Json → Option (List (String × Json))
  | .object fields =>
    if known.all fun name => (fields.countP fun field => field.1 == name) ≤ 1 then some fields
    else none
  | .list values => if values.length ≤ known.length then some (known.zip values) else none
  | _ => none

/-- Reads a field that must be there. -/
def required (fields : List (String × Json)) (name : String) (read? : Json → Option α) :
    Option α :=
  (List.lookup name fields).bind read?

/-- Reads a field that stands for `default` when it is not there. -/
def withDefault (fields : List (String × Json)) (name : String) (default : α)
    (read? : Json → Option α) : Option α :=
  match List.lookup name fields with
  | none => some default
  | some value => read? value

/-- Reads a field that may be missing or `null`. -/
def nullable (fields : List (String × Json)) (name : String) (read? : Json → Option α) :
    Option (Option α) :=
  match List.lookup name fields with
  | none => some none
  | some .null => some none
  | some value => (read? value).map some

/-- Reads a text. -/
def text? : Json → Option String
  | .text s => some s
  | _ => none

/-- Reads a truth value. -/
def bool? : Json → Option Bool
  | .bool b => some b
  | _ => none

/-- Reads a number, whole or not. -/
def number? : Json → Option Float
  | .integer n => some (Float.ofInt n)
  | .number x => some x
  | _ => none

/-- Reads a whole number between two bounds. -/
def integer? (least greatest : Int) : Json → Option Int
  | .integer n => if least ≤ n ∧ n ≤ greatest then some n else none
  | _ => none

/-- Reads a whole number of 32 bits with a sign. -/
def int32? : Json → Option Int :=
  integer? (-2147483648) 2147483647

/-- Reads a whole number of 32 bits without a sign. -/
def nat32? (value : Json) : Option Nat :=
  (integer? 0 4294967295 value).map Int.toNat

/-- Reads a whole number of 64 bits without a sign. -/
def nat64? (value : Json) : Option Nat :=
  (integer? 0 18446744073709551615 value).map Int.toNat

/-- Reads a list of values of one kind. -/
def list? (read? : Json → Option α) : Json → Option (List α)
  | .list items => items.mapM read?
  | _ => none

/-- Reads one of some named choices. -/
def choice? (choices : List (String × α)) : Json → Option α
  | .text s => List.lookup s choices
  | _ => none

/-- Writes one of some named choices. -/
def ofChoice [BEq α] (choices : List (String × α)) (value : α) : Json :=
  match choices.find? fun choice => choice.2 == value with
  | some choice => .text choice.1
  | none => .null

end KpiReport.Json
