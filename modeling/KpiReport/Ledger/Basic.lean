import KpiReport.Account.Chart
import KpiReport.Error
import KpiReport.Filter.Basic

/-!
# Ledgers

A ledger gives the chart of accounts below a root, the debit and credit totals of the move lines
that match a filter, and the fiscal periods of a company. Journal entries stay with the ledger.
-/

namespace KpiReport

open KpiReport.Calendar

/-- The debit and credit totals of an account. -/
structure AccountTotals where
  account : String
  debit : Float
  credit : Float

/-- An accounting period, such as a month of a fiscal year. Special ones (opening and closing
periods) never count as the current period. -/
structure FiscalPeriod where
  name : String
  start : Date
  stop : Date
  special : Bool
  deriving DecidableEq

/-- Whether a date lies in a period. -/
def FiscalPeriod.contains (period : FiscalPeriod) (date : Date) : Bool :=
  period.start ≤ date && date ≤ period.stop

/-- A line of a journal entry; `extra` holds fields of the host's own. -/
structure MoveLine where
  account : String
  date : Date
  debit : Float
  credit : Float
  state : String
  period : Option String
  extra : Record

namespace MoveLine

/-- The field that holds the account of a line. -/
def accountField : String := "account"

/-- The field that holds the date of a line. -/
def dateField : String := "date"

/-- The field that holds the name of the fiscal period of a line. -/
def periodField : String := "period"

/-- The field that holds the state of a line. -/
def stateField : String := "move_state"

/-- The field that holds the debit of a line. -/
def debitField : String := "debit"

/-- The field that holds the credit of a line. -/
def creditField : String := "credit"

/-- The state of lines whose entry is posted. -/
def posted : String := "posted"

/-- The state of lines whose entry is a draft. -/
def draft : String := "draft"

/-- The value of a field of a line. -/
def field (line : MoveLine) (name : String) : FieldValue :=
  if name = accountField then .text line.account
  else if name = dateField then .date line.date
  else if name = debitField then .number line.debit
  else if name = creditField then .number line.credit
  else if name = stateField then .text line.state
  else if name = periodField then
    match line.period with
    | some period => .text period
    | none => .null
  else line.extra.field name

end MoveLine

/-- What reports ask of a ledger. -/
structure Ledger where
  /-- The chart of accounts below a root, root included. -/
  accountsUnder : String → Result Chart
  /-- The totals per account of the lines that match a filter; accounts without such lines are left
  out. -/
  totals : Filter → Result (List AccountTotals)
  /-- The fiscal periods of a company, in any order. -/
  fiscalPeriods : String → Result (List FiscalPeriod)

/-- The JSON form of a fiscal period. -/
def FiscalPeriod.toJson (period : FiscalPeriod) : Json :=
  .object [("name", .text period.name), ("date_start", .text period.start.toText),
    ("date_stop", .text period.stop.toText), ("special", .bool period.special)]

/-- Reads a date from its JSON form. -/
def dateOfJson? : Json → Option Date
  | .text s => Date.read? s
  | _ => none

/-- Reads a fiscal period from its JSON form. -/
def FiscalPeriod.ofJson? (json : Json) : Option FiscalPeriod := do
  let fields ← Json.fields? ["name", "date_start", "date_stop", "special"] json
  return {
    name := ← Json.required fields "name" Json.text?
    start := ← Json.required fields "date_start" dateOfJson?
    stop := ← Json.required fields "date_stop" dateOfJson?
    special := ← Json.withDefault fields "special" false Json.bool? }

/-- Reads a move line from its JSON form. -/
def MoveLine.ofJson? (json : Json) : Option MoveLine := do
  let fields ← Json.fields?
    ["account", "date", "debit", "credit", "move_state", "period", "extra"] json
  return {
    account := ← Json.required fields "account" Json.text?
    date := ← Json.required fields "date" dateOfJson?
    debit := ← Json.required fields "debit" Json.number?
    credit := ← Json.required fields "credit" Json.number?
    state := ← Json.required fields "move_state" Json.text?
    period := ← Json.nullable fields "period" Json.text?
    extra := ← Json.withDefault fields "extra" [] Record.ofJson? }

end KpiReport
