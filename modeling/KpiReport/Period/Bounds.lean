import KpiReport.Ledger.Basic

/-!
# Bounds of periods

The dates that a column covers, and the fiscal periods when the column is counted in those.
-/

namespace KpiReport

open KpiReport.Calendar

/-- The fiscal periods that a column covers. -/
structure FiscalSpan where
  first : String
  last : String
  names : List String
  deriving DecidableEq, Repr

/-- The first and the last day of a column. -/
structure Bounds where
  start : Date
  stop : Date
  fiscal : Option FiscalSpan
  deriving DecidableEq

/-- The JSON form of a span. -/
def FiscalSpan.toJson (span : FiscalSpan) : Json :=
  .object [("period_from", .text span.first), ("period_to", .text span.last),
    ("periods", Json.texts span.names)]

/-- Reads a span from its JSON form. -/
def FiscalSpan.ofJson? (json : Json) : Option FiscalSpan := do
  let fields ← Json.fields? ["period_from", "period_to", "periods"] json
  return {
    first := ← Json.required fields "period_from" Json.text?
    last := ← Json.required fields "period_to" Json.text?
    names := ← Json.required fields "periods" (Json.list? Json.text?) }

/-- The JSON form of bounds. -/
def Bounds.toJson (bounds : Bounds) : Json :=
  .object [("date_from", .text bounds.start.toText), ("date_to", .text bounds.stop.toText),
    ("fiscal", (bounds.fiscal.map FiscalSpan.toJson).getD .null)]

/-- Reads bounds from their JSON form. -/
def Bounds.ofJson? (json : Json) : Option Bounds := do
  let fields ← Json.fields? ["date_from", "date_to", "fiscal"] json
  return {
    start := ← Json.required fields "date_from" dateOfJson?
    stop := ← Json.required fields "date_to" dateOfJson?
    fiscal := ← Json.nullable fields "fiscal" FiscalSpan.ofJson? }

end KpiReport
