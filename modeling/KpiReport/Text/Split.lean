/-!
# Cutting texts

Cutting a text at separators, and taking a known text off its start or end. The pieces of
`splitOn` joined by the separator give the text back.
-/

namespace KpiReport.Text

/-- The pieces of a text between the occurrences of `separator`; never empty. -/
def splitOn (separator : Char) : List Char → List (List Char)
  | [] => [[]]
  | c :: cs =>
    if c = separator then [] :: splitOn separator cs
    else
      match splitOn separator cs with
      | [] => [[c]]
      | piece :: pieces => (c :: piece) :: pieces

/-- What follows `start` in the text, if the text starts with it. -/
def dropStart? : (start text : List Char) → Option (List Char)
  | [], text => some text
  | _ :: _, [] => none
  | s :: start, c :: cs => if s = c then dropStart? start cs else none

/-- What precedes `ending` in the text, if the text ends with it. -/
def dropEnd? (ending text : List Char) : Option (List Char) :=
  (dropStart? ending.reverse text.reverse).map List.reverse

/-- Cuts the text at the first occurrence of `separator`: what precedes it and what follows it. -/
def cutAt? (separator : List Char) : List Char → Option (List Char × List Char)
  | [] =>
    match separator with
    | [] => some ([], [])
    | _ :: _ => none
  | c :: cs =>
    match dropStart? separator (c :: cs) with
    | some rest => some ([], rest)
    | none => (cutAt? separator cs).map fun (before, after) => (c :: before, after)

end KpiReport.Text
