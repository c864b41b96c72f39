import KpiReport.Account.Balances
import KpiReport.Account.Chart
import KpiReport.Account.Drilldown
import KpiReport.Account.Registry
import KpiReport.Account.Scan
import KpiReport.Account.Selector
import KpiReport.Account.Token
import KpiReport.Calendar.Date
import KpiReport.Calendar.DateTime
import KpiReport.Calendar.Pattern
import KpiReport.Calendar.Shift
import KpiReport.Calendar.Text
import KpiReport.Decimal.Double
import KpiReport.Decimal.Fixed
import KpiReport.Decimal.Numeral
import KpiReport.Decimal.Rounding
import KpiReport.Decimal.Shortest
import KpiReport.Definition.Instance
import KpiReport.Definition.Kpi
import KpiReport.Definition.Library
import KpiReport.Definition.Period
import KpiReport.Definition.Query
import KpiReport.Definition.Template
import KpiReport.Error
import KpiReport.Evaluation.Cache
import KpiReport.Evaluation.Compiled
import KpiReport.Evaluation.Passes
import KpiReport.Evaluation.Result
import KpiReport.Evaluation.Template
import KpiReport.Filter.Basic
import KpiReport.Filter.FieldValue
import KpiReport.Formula.Error
import KpiReport.Formula.Eval
import KpiReport.Formula.Expr
import KpiReport.Formula.Operator
import KpiReport.Formula.Parser
import KpiReport.Formula.References
import KpiReport.Formula.Scope
import KpiReport.Formula.Token
import KpiReport.Grid.Basic
import KpiReport.Grid.Layout
import KpiReport.Json.Basic
import KpiReport.Json.Codec
import KpiReport.Json.Fields
import KpiReport.Json.Printer
import KpiReport.Json.Reader
import KpiReport.Ledger.Basic
import KpiReport.Ledger.Book
import KpiReport.Period.Bounds
import KpiReport.Period.Resolve
import KpiReport.Proofs.Account.Balances
import KpiReport.Proofs.Account.Clearing
import KpiReport.Proofs.Account.Counting
import KpiReport.Proofs.Account.CrossReferences
import KpiReport.Proofs.Account.Crossover
import KpiReport.Proofs.Account.Descent
import KpiReport.Proofs.Account.Drilldown
import KpiReport.Proofs.Account.Groups
import KpiReport.Proofs.Account.InPlace
import KpiReport.Proofs.Account.InlineFilters
import KpiReport.Proofs.Account.Ledgers
import KpiReport.Proofs.Account.OwnNames
import KpiReport.Proofs.Account.Places
import KpiReport.Proofs.Account.Readings
import KpiReport.Proofs.Account.Recognition
import KpiReport.Proofs.Account.Registration
import KpiReport.Proofs.Account.Scanning
import KpiReport.Proofs.Account.SelectorText
import KpiReport.Proofs.Account.Substitution
import KpiReport.Proofs.Account.Texts
import KpiReport.Proofs.Account.TokenSyntax
import KpiReport.Proofs.Account.Wildcards
import KpiReport.Proofs.Calendar.RoundTrip
import KpiReport.Proofs.Decimal.Digits
import KpiReport.Proofs.Decimal.Doubles
import KpiReport.Proofs.Decimal.Mantissas
import KpiReport.Proofs.Decimal.Nearest
import KpiReport.Proofs.Decimal.Products
import KpiReport.Proofs.Decimal.Shortest
import KpiReport.Proofs.Definition.Naming
import KpiReport.Proofs.Definition.Validation
import KpiReport.Proofs.Evaluation.Aftermath
import KpiReport.Proofs.Evaluation.Chains
import KpiReport.Proofs.Evaluation.Dependencies
import KpiReport.Proofs.Evaluation.Equations
import KpiReport.Proofs.Evaluation.Failures
import KpiReport.Proofs.Evaluation.FirstScope
import KpiReport.Proofs.Evaluation.Grounded
import KpiReport.Proofs.Evaluation.Growth
import KpiReport.Proofs.Evaluation.Isolation
import KpiReport.Proofs.Evaluation.Lockstep
import KpiReport.Proofs.Evaluation.Memo
import KpiReport.Proofs.Evaluation.Mirroring
import KpiReport.Proofs.Evaluation.Moments
import KpiReport.Proofs.Evaluation.Nesting
import KpiReport.Proofs.Evaluation.Once
import KpiReport.Proofs.Evaluation.Order
import KpiReport.Proofs.Evaluation.Passes
import KpiReport.Proofs.Evaluation.Publicity
import KpiReport.Proofs.Evaluation.References
import KpiReport.Proofs.Evaluation.Renumbering
import KpiReport.Proofs.Evaluation.Solution
import KpiReport.Proofs.Evaluation.Stages
import KpiReport.Proofs.Evaluation.Transparent
import KpiReport.Proofs.Evaluation.Visits
import KpiReport.Proofs.Evaluation.WriteOnce
import KpiReport.Proofs.Failures
import KpiReport.Proofs.Filter.JsonForm
import KpiReport.Proofs.Filter.Order
import KpiReport.Proofs.Filter.Same
import KpiReport.Proofs.Formula.Absence
import KpiReport.Proofs.Formula.Acceptance
import KpiReport.Proofs.Formula.Brackets
import KpiReport.Proofs.Formula.Closing
import KpiReport.Proofs.Formula.Grammar
import KpiReport.Proofs.Formula.Names
import KpiReport.Proofs.Formula.Nodes
import KpiReport.Proofs.Formula.Privacy
import KpiReport.Proofs.Formula.Renaming
import KpiReport.Proofs.Formula.Replacing
import KpiReport.Proofs.Formula.Spelling
import KpiReport.Proofs.Formula.TreeReferences
import KpiReport.Proofs.Formula.Wanting
import KpiReport.Proofs.Formula.Written
import KpiReport.Proofs.Grid.Assembly
import KpiReport.Proofs.Grid.Columns
import KpiReport.Proofs.Grid.Layouts
import KpiReport.Proofs.Grid.Manual
import KpiReport.Proofs.Grid.Matrix
import KpiReport.Proofs.Json.Numbers
import KpiReport.Proofs.Json.RoundTrip
import KpiReport.Proofs.Ledger.LastYear
import KpiReport.Proofs.Ledger.Months
import KpiReport.Proofs.Ledger.Totals
import KpiReport.Proofs.Lists
import KpiReport.Proofs.Period.Movement
import KpiReport.Proofs.Period.Tiling
import KpiReport.Proofs.Render.Grouping
import KpiReport.Proofs.Report
import KpiReport.Proofs.Results
import KpiReport.Proofs.Runs
import KpiReport.Proofs.Store.Sums
import KpiReport.Proofs.Store.Windows
import KpiReport.Proofs.Syntax
import KpiReport.Render
import KpiReport.Report
import KpiReport.Settings
import KpiReport.Store.Basic
import KpiReport.Store.Fetch
import KpiReport.Store.Tables
import KpiReport.Table
import KpiReport.Text.Blank
import KpiReport.Text.Identifier
import KpiReport.Text.Split
import KpiReport.Trace
import KpiReport.Value.Arithmetic
import KpiReport.Value.Basic
