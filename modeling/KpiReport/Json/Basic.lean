/-!
# JSON values

Report definitions, settings and filters are kept as JSON. Whole numbers and other numbers are told
apart, since a count or an offset must be written as a whole number. Objects keep their fields in
the order in which they are written, repeated names included.
-/

namespace KpiReport

/-- A JSON value. -/
inductive Json where
  | null
  | bool (b : Bool)
  | integer (n : Int)
  | number (x : Float)
  | text (s : String)
  | list (items : List Json)
  | object (fields : List (String × Json))
  /-- What is well formed and stands for no value: a number beyond the doubles, a text with half of
  a surrogate pair, or an object with such a text for a name. -/
  | outOfRange
  deriving Inhabited

namespace Json

/-- A text, or `null` for none. -/
def ofText? : Option String → Json
  | none => .null
  | some s => .text s

/-- A list of texts. -/
def texts (items : List String) : Json :=
  .list (items.map .text)

end Json

end KpiReport
