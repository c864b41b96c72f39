import KpiReport.Json.Printer
import KpiReport.Json.Reader

/-!
# JSON texts

A `Codec` writes JSON values as texts and reads them again. The one of this library,
`Json.codec`, refuses values that are nested too deeply, as readers do that keep a whole value; a
reader of settings skips what it does not know however deep it is, and so has no such bound.
-/

namespace KpiReport.Json

mutual

/-- How many lists and objects are nested in a value, itself included. -/
def depth : Json → Nat
  | .list items => itemsDepth items + 1
  | .object fields => fieldsDepth fields + 1
  | _ => 0

/-- The greatest depth of some values. -/
def itemsDepth : List Json → Nat
  | [] => 0
  | item :: items => max (depth item) (itemsDepth items)

/-- The greatest depth of the values of some fields. -/
def fieldsDepth : List (String × Json) → Nat
  | [] => 0
  | (_, value) :: fields => max (depth value) (fieldsDepth fields)

end

/-- The depth up to which values are read from texts. -/
def deepest : Nat := 127

/-- A way to write values as texts and to read texts as values. -/
structure Codec where
  print : Json → String
  read? : String → Option Json

/-- Writes values without space between their parts, and reads those that are not too deep. -/
def codec : Codec where
  print := print
  read? text := (read? text).filter fun value => value.depth ≤ deepest

end KpiReport.Json
