import KpiReport.Account.Selector
import KpiReport.Period.Bounds

/-!
# Account tokens

An account token such as `balp[70%]` stands in a formula for an amount of the ledger: a side of
some accounts, over the move lines of a period, before it, or up to its end, that meet an inline
filter.
-/

namespace KpiReport

/-- The amount that a token takes of an account. -/
inductive Side where
  /-- Debit less credit. -/
  | balance
  | credit
  | debit
  deriving DecidableEq, Repr

/-- The amount of some totals. -/
def Side.amount (side : Side) (totals : AccountTotals) : Float :=
  match side with
  | balance => totals.debit - totals.credit
  | credit => totals.credit
  | debit => totals.debit

/-- Which move lines a token counts. -/
inductive Mode where
  /-- The lines of the period. -/
  | variation
  /-- The lines before the period. -/
  | initial
  /-- The lines up to the end of the period. -/
  | ending
  deriving DecidableEq, Repr

namespace Mode

/-- How a mode is named in the log. -/
def label : Mode → String
  | variation => "Variation"
  | initial => "Initial"
  | ending => "Ending"

/-- The conditions on the lines that a mode counts. -/
def lineFilter (mode : Mode) (bounds : Bounds) : Filter :=
  match mode with
  | variation =>
    match bounds.fiscal with
    | some span => [.field MoveLine.periodField .memberOf (.list (span.names.map .text))]
    | none =>
      [.field MoveLine.dateField .ge (.date bounds.start),
        .field MoveLine.dateField .le (.date bounds.stop)]
  | initial => [.field MoveLine.dateField .lt (.date bounds.start)]
  | ending => [.field MoveLine.dateField .le (.date bounds.stop)]

end Mode

/-- An account token and the text it is written as. -/
structure AccountToken where
  text : String
  side : Side
  mode : Mode
  selectors : List Selector
  filter : Filter

end KpiReport
