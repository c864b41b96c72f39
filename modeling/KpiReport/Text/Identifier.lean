/-!
# Identifiers

An identifier is an ASCII letter or an underscore followed by ASCII letters, digits and
underscores. `toIdentifier` derives one from free text.
-/

namespace KpiReport.Text

/-- Whether an identifier may start with `c`. -/
def isIdentStart (c : Char) : Bool :=
  c.isAlpha || c == '_'

/-- Whether `c` may occur in an identifier. -/
def isIdentChar (c : Char) : Bool :=
  c.isAlphanum || c == '_'

/-- Whether the whole of `name` is an identifier. -/
def isIdentifier (name : String) : Bool :=
  match name.toList with
  | [] => false
  | c :: cs => isIdentStart c && cs.all isIdentChar

/-- The character that stands for `c` in a derived identifier. -/
def identCharOf (c : Char) : Char :=
  if isIdentChar c then c.toLower else '_'

/-- Derives an identifier from free text: letters become small, every character that no identifier
holds becomes an underscore, and a text that starts with a digit gets an underscore in front. -/
def toIdentifier (text : String) : String :=
  let name := text.toList.map identCharOf
  match text.toList with
  | c :: _ => if c.isDigit then String.ofList ('_' :: name) else String.ofList name
  | [] => String.ofList name

end KpiReport.Text
