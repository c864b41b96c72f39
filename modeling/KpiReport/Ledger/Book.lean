import KpiReport.Calendar.Shift
import KpiReport.Ledger.Basic

/-!
# Books

A book is a ledger held in memory: its accounts, move lines and fiscal periods are added one by one.
-/

namespace KpiReport

open KpiReport.Calendar

/-- Accounts, move lines and fiscal periods, in the order in which they were added. -/
structure Book where
  accounts : List Account := []
  lines : List MoveLine := []
  periods : Table (List FiscalPeriod) := []

namespace Book

/-- Adds an account. -/
def addAccount (book : Book) (account : Account) : Book :=
  { book with accounts := book.accounts ++ [account] }

/-- Adds a move line. -/
def addLine (book : Book) (line : MoveLine) : Book :=
  { book with lines := book.lines ++ [line] }

/-- The fiscal periods of a company. -/
def periodsOf (book : Book) (company : String) : List FiscalPeriod :=
  (book.periods.get? company).getD []

/-- Adds a fiscal period of a company. -/
def addPeriod (book : Book) (company : String) (period : FiscalPeriod) : Book :=
  { book with periods := book.periods.insert company (book.periodsOf company ++ [period]) }

/-- The first period, not special, that a date lies in. -/
def periodAt? (book : Book) (date : Date) : Option FiscalPeriod :=
  book.periods.values.flatten.find? fun period => !period.special && period.contains date

/-- A number where it is positive, else zero. -/
def positivePart (x : Float) : Float :=
  if 0 < x then x else 0

/-- Adds a line in the period of its date; a positive amount is a debit, a negative one a
credit. -/
def addEntry (book : Book) (account : String) (date : Date) (amount : Float) (state : String) :
    Book :=
  book.addLine
    { account := account
      date := date
      debit := positivePart amount
      credit := positivePart (-amount)
      state := state
      period := (book.periodAt? date).map FiscalPeriod.name
      extra := [] }

/-- The fiscal period of a calendar month, named by the month and the year. -/
def monthPeriod (year : Int) (month : Nat) : Result FiscalPeriod :=
  match Date.ofYearMonthDay? year month 1 with
  | none => .error (.date (.invalidYear year))
  | some start =>
    match lastDayOfMonth year month with
    | .error e => .error e
    | .ok stop =>
      .ok
        { name := String.ofList (Decimal.padded 2 month) ++ "/" ++ toString year
          start := start
          stop := stop
          special := false }

/-- Adds the periods of some months of a year in order, up to the first that the calendar does not
reach. -/
def addMonths (book : Book) (company : String) (year : Int) : List Nat → Book × Result Unit
  | [] => (book, .ok ())
  | month :: months =>
    match monthPeriod year month with
    | .error e => (book, .error e)
    | .ok period => (book.addPeriod company period).addMonths company year months

/-- Adds the twelve months of a year as fiscal periods of a company. -/
def addMonthlyPeriods (book : Book) (company : String) (year : Int) : Book × Result Unit :=
  book.addMonths company year [1, 2, 3, 4, 5, 6, 7, 8, 9, 10, 11, 12]

/-- Adds a line to the totals of its account. -/
def addToTotals (totals : Table AccountTotals) (line : MoveLine) : Table AccountTotals :=
  let before := (totals.get? line.account).getD ⟨line.account, 0, 0⟩
  totals.insert line.account
    ⟨line.account, before.debit + line.debit, before.credit + line.credit⟩

/-- The totals per account of the lines that match a filter, in ascending order of the codes. -/
def totals (book : Book) (filter : Filter) : List AccountTotals :=
  Table.values ((book.lines.filter fun line => Filter.matches line.field filter).foldl addToTotals [])

/-- The chart of accounts below a root, which must be an account of the book. -/
def accountsUnder (book : Book) (root : String) : Result Chart :=
  let chart := Chart.ofAccounts root book.accounts
  if chart.isEmpty then .error (.source (.noAccount root)) else .ok chart

/-- The book as a ledger. -/
def ledger (book : Book) : Ledger where
  accountsUnder := book.accountsUnder
  totals := fun filter => .ok (book.totals filter)
  fiscalPeriods := fun company => .ok (book.periodsOf company)

end Book

end KpiReport
