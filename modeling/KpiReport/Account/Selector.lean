import KpiReport.Decimal.Numeral
import KpiReport.Text.Split

/-!
# Account selectors

A selector picks accounts by code: all of them, one code, the codes that match a pattern in which
`%` stands for any characters, or the codes of a range. Codes that are whole numbers are compared by
value in ranges, others by their text.
-/

namespace KpiReport

open KpiReport.Text

/-- A choice of accounts by their codes. -/
inductive Selector where
  | all
  | code (code : String)
  | pattern (pattern : String)
  | range (first last : String)
  deriving DecidableEq, Repr

namespace Selector

/-- The number that a code writes. -/
def codeNumber? (code : String) : Option Nat :=
  Decimal.wholeNumber? code.toList

/-- Whether the text holds the pieces one after the other, the first occurrence of each after the
previous one being taken. -/
def holdsInOrder : (pieces : List (List Char)) → (text : List Char) → Bool
  | [], _ => true
  | piece :: pieces, text =>
    match cutAt? piece text with
    | some (_, rest) => holdsInOrder pieces rest
    | none => false

/-- Whether a code matches the pieces of a pattern, between which any characters may stand. -/
def matchesPieces (pieces : List (List Char)) (code : List Char) : Bool :=
  match pieces with
  | [] => code.isEmpty
  | [piece] => piece == code
  | first :: more =>
    match dropStart? first code with
    | none => false
    | some rest =>
      match dropEnd? (more.getLast?.getD []) rest with
      | none => false
      | some inner => holdsInOrder more.dropLast inner

/-- Whether a code matches a pattern. -/
def matchesPattern (pattern code : String) : Bool :=
  matchesPieces (splitOn '%' pattern.toList) code.toList

/-- Whether a code lies in a range, both ends included. -/
def inRange (first last code : String) : Bool :=
  match codeNumber? code, codeNumber? first, codeNumber? last with
  | some c, some f, some l => f ≤ c && c ≤ l
  | _, _, _ => first ≤ code && code ≤ last

/-- Whether a selector picks a code. -/
def selects (selector : Selector) (code : String) : Bool :=
  match selector with
  | all => true
  | .code c => c == code
  | pattern p => matchesPattern p code
  | range first last => inRange first last code

/-- Whether the ends of a range stand in order. -/
def isWellFormed : Selector → Bool
  | range first last =>
    match codeNumber? first, codeNumber? last with
    | some f, some l => f ≤ l
    | _, _ => first ≤ last
  | _ => true

end Selector

end KpiReport
