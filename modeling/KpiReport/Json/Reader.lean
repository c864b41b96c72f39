import KpiReport.Decimal.Numeral
import KpiReport.Json.Basic

/-!
# Reading JSON

`Json.read?` reads a whole text as one JSON value. What is well formed but stands for no value (a
number beyond the doubles, a text with half of a surrogate pair, an object with such a text for a
name) is read as `outOfRange`, so that a reader of definitions may skip it in a field it does not
know.
-/

namespace KpiReport.Json

open KpiReport.Decimal

/-- Whether `c` may stand between the parts of a JSON text. -/
def isSpace (c : Char) : Bool :=
  c == ' ' || c == '\n' || c == '\t' || c == '\r'

/-- The text without the space at its start. -/
def skipSpace (cs : List Char) : List Char :=
  cs.dropWhile isSpace

/-- The value of a hexadecimal digit. -/
def hexDigit? (c : Char) : Option Nat :=
  if c.isDigit then some (c.toNat - '0'.toNat)
  else if 'a' ≤ c ∧ c ≤ 'f' then some (c.toNat - 'a'.toNat + 10)
  else if 'A' ≤ c ∧ c ≤ 'F' then some (c.toNat - 'A'.toNat + 10)
  else none

/-- The unit that four hexadecimal digits write. -/
def hexUnit? (a b c d : Char) : Option Nat := do
  return 4096 * (← hexDigit? a) + 256 * (← hexDigit? b) + 16 * (← hexDigit? c) + (← hexDigit? d)

/-- The character that a backslash and `c` stand for. -/
def escaped? (c : Char) : Option Char :=
  match c with
  | '"' => some '"'
  | '\\' => some '\\'
  | '/' => some '/'
  | 'b' => some '\x08'
  | 'f' => some '\x0c'
  | 'n' => some '\n'
  | 'r' => some '\r'
  | 't' => some '\t'
  | _ => none

/-- Reads the inside of a text up to its closing quote, as code points and UTF-16 units, together
with what follows the quote. -/
def readUnits? : List Char → Option (List Nat × List Char)
  | [] => none
  | '"' :: rest => some ([], rest)
  | '\\' :: 'u' :: a :: b :: c :: d :: rest => do
    let unit ← hexUnit? a b c d
    let (units, rest) ← readUnits? rest
    return (unit :: units, rest)
  | '\\' :: e :: rest => do
    let char ← escaped? e
    let (units, rest) ← readUnits? rest
    return (char.toNat :: units, rest)
  | c :: rest =>
    if c.toNat < 0x20 then none
    else do
      let (units, rest) ← readUnits? rest
      return (c.toNat :: units, rest)

/-- Whether a unit is the first half of a surrogate pair. -/
def isLeading (unit : Nat) : Bool :=
  0xD800 ≤ unit && unit < 0xDC00

/-- Whether a unit is the second half of a surrogate pair. -/
def isTrailing (unit : Nat) : Bool :=
  0xDC00 ≤ unit && unit < 0xE000

/-- The characters that some units write, unless there is half of a surrogate pair among them. -/
def charsOfUnits? : List Nat → Option (List Char)
  | [] => some []
  | [unit] => if isLeading unit || isTrailing unit then none else some [Char.ofNat unit]
  | unit :: next :: rest =>
    if isLeading unit then
      if isTrailing next then
        (charsOfUnits? rest).map
          (Char.ofNat (0x10000 + (unit - 0xD800) * 0x400 + (next - 0xDC00)) :: ·)
      else none
    else if isTrailing unit then none
    else (charsOfUnits? (next :: rest)).map (Char.ofNat unit :: ·)

/-- The value of a number literal, from its sign, digits, decimal places and exponent. A whole
number of at most 64 bits is an integer, except that a negative zero is a double. -/
def ofLiteral (negative : Bool) (whole places : List Char) (exponent : Option Int) : Json :=
  let n := ofDigits whole
  let isWhole := places.isEmpty && exponent.isNone
  if isWhole && !negative && n < UInt64.size then .integer n
  else if isWhole && negative && 0 < n && n ≤ UInt64.size / 2 then .integer (-n)
  else
    let x := ofPlaces whole places (exponent.getD 0)
    if isFinite x then .number (if negative then -x else x) else .outOfRange

/-- Reads a number literal. -/
def readNumber? (cs : List Char) : Option (Json × List Char) := do
  let (negative, cs) :=
    match cs with
    | '-' :: cs => (true, cs)
    | cs => (false, cs)
  let (whole, cs) := takeDigits cs
  if whole.isEmpty || (whole.head? == some '0' && 1 < whole.length) then none
  let (places, cs) ←
    match cs with
    | '.' :: cs =>
      let (places, cs) := takeDigits cs
      if places.isEmpty then none else some (places, cs)
    | cs => some ([], cs)
  let (exponent, cs) ←
    match cs with
    | e :: cs =>
      if e == 'e' || e == 'E' then
        let (below, cs) := takeSign cs
        let (ds, cs) := takeDigits cs
        if ds.isEmpty then none
        else some (some (if below then -(ofDigits ds : Int) else ofDigits ds), cs)
      else some (none, e :: cs)
    | [] => some (none, [])
  return (ofLiteral negative whole places exponent, cs)

/-- Reads the inside of a text up to its closing quote, together with what follows the quote; the
text is none if there is half of a surrogate pair in it. -/
def readText? (cs : List Char) : Option (Option String × List Char) :=
  (readUnits? cs).map fun (units, rest) => ((charsOfUnits? units).map String.ofList, rest)

/-- The value that a text stands for. -/
def ofReadText : Option String → Json
  | some s => .text s
  | none => .outOfRange

/-- The value that an object with some names and values stands for. -/
def ofReadFields (fields : List (Option String × Json)) : Json :=
  match fields.mapM fun (name?, value) => name?.map fun name => (name, value) with
  | some fields => .object fields
  | none => .outOfRange

/-- Reads a word such as `true` at the start of a text. -/
def readWord? (word : String) (value : Json) (cs : List Char) : Option (Json × List Char) :=
  if cs.take word.length = word.toList then some (value, cs.drop word.length) else none

mutual

/-- Reads a value at the start of a text; `fuel` bounds the nesting and the lengths of lists and
objects together. -/
def readValue? (fuel : Nat) (cs : List Char) : Option (Json × List Char) :=
  match fuel with
  | 0 => none
  | fuel + 1 =>
    match skipSpace cs with
    | [] => none
    | '[' :: rest =>
      match skipSpace rest with
      | ']' :: rest => some (.list [], rest)
      | rest => (readItems? fuel rest).map fun (items, rest) => (.list items, rest)
    | '\x7b' :: rest =>
      match skipSpace rest with
      | '\x7d' :: rest => some (.object [], rest)
      | rest => (readFields? fuel rest).map fun (fields, rest) => (ofReadFields fields, rest)
    | '"' :: rest => (readText? rest).map fun (text?, rest) => (ofReadText text?, rest)
    | 'n' :: rest => readWord? "null" .null ('n' :: rest)
    | 't' :: rest => readWord? "true" (.bool true) ('t' :: rest)
    | 'f' :: rest => readWord? "false" (.bool false) ('f' :: rest)
    | c :: rest => readNumber? (c :: rest)

/-- Reads the items of a list up to its closing bracket. -/
def readItems? (fuel : Nat) (cs : List Char) : Option (List Json × List Char) :=
  match fuel with
  | 0 => none
  | fuel + 1 => do
    let (item, rest) ← readValue? fuel cs
    match skipSpace rest with
    | ',' :: rest =>
      let (items, rest) ← readItems? fuel rest
      return (item :: items, rest)
    | ']' :: rest => return ([item], rest)
    | _ => none

/-- Reads the fields of an object up to its closing brace. -/
def readFields? (fuel : Nat) (cs : List Char) :
    Option (List (Option String × Json) × List Char) :=
  match fuel with
  | 0 => none
  | fuel + 1 =>
    match skipSpace cs with
    | '"' :: rest => do
      let (name?, rest) ← readText? rest
      match skipSpace rest with
      | ':' :: rest =>
        let (value, rest) ← readValue? fuel rest
        match skipSpace rest with
        | ',' :: rest =>
          let (fields, rest) ← readFields? fuel rest
          return ((name?, value) :: fields, rest)
        | '\x7d' :: rest => return ([(name?, value)], rest)
        | _ => none
      | _ => none
    | _ => none

end

/-- Reads a whole text as one JSON value. -/
def read? (text : String) : Option Json :=
  let cs := text.toList
  match readValue? (2 * cs.length + 2) cs with
  | some (value, rest) => if (skipSpace rest).isEmpty then some value else none
  | none => none

end KpiReport.Json
