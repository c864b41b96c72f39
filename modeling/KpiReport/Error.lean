import KpiReport.Calendar.Text
import KpiReport.Formula.Error

/-!
# Failures of reports

`ReportError` says why a definition is refused or a report cannot be computed; the causes are kept
apart from their wording, which `ReportError.message` gives.
-/

namespace KpiReport

open KpiReport.Calendar

/-- What is wrong with an account token. -/
inductive TokenFault where
  | emptySelector
  | invalidRange (item : String)
  | reversedRange (item : String)
  | invalidPattern (item : String)
  | invalidCode (code : String)
  | invalidFilterItem (item : String)
  | missingOperator (item : String)
  | invalidFilterValue (value : String)
  | unbalancedBrackets
  | unregistered
  /-- Tokens were registered after the accounts were looked up. -/
  | unresolved
  deriving DecidableEq

/-- The wording of a fault. -/
def TokenFault.message : TokenFault → String
  | emptySelector => "empty account selector"
  | invalidRange item => "invalid account range '" ++ item ++ "'"
  | reversedRange item => "range '" ++ item ++ "' starts after it ends"
  | invalidPattern item => "invalid account pattern '" ++ item ++ "'"
  | invalidCode code => "invalid account code '" ++ code ++ "'"
  | invalidFilterItem item => "invalid filter item '" ++ item ++ "'"
  | missingOperator item => "missing operator in '" ++ item ++ "'"
  | invalidFilterValue value => "invalid filter value '" ++ value ++ "'"
  | unbalancedBrackets => "unbalanced brackets"
  | unregistered => "account token was not registered"
  | unresolved => "account tokens were registered after finalize"

/-- The definition that a fault is found in. -/
inductive DefinitionContext where
  | report (code : String)
  | reportInstance (name : String)
  | kpi (report name : String)
  | query (name : String)
  deriving DecidableEq

/-- How a definition is named in messages. -/
def DefinitionContext.message : DefinitionContext → String
  | report code => "report '" ++ code ++ "'"
  | reportInstance name => "report instance '" ++ name ++ "'"
  | kpi template name => "KPI '" ++ template ++ "." ++ name ++ "'"
  | query name => "query '" ++ name ++ "'"

/-- What is wrong with a definition. -/
inductive DefinitionFault where
  | codeNotIdentifier
  | notIdentifier (name : String)
  | privateName (name : String)
  | reservedName (name : String)
  | duplicateKpi (name : String)
  | emptyExpression (kpi : String)
  | usedQueryName (name : String)
  | queryWithoutFields (query : String)
  | queryWithoutDateField (query : String)
  | nonPositiveDuration (period : String)
  | nonPositiveNormalizeFactor (period : String)
  | duplicatePeriod (name : String)
  | positionOfUnknownKpi (kpi : String)
  | positionOfUnknownPeriod (period : String)
  | formula (fault : SyntaxFault)
  | aggregation (aggregate : Aggregate) (field : String) (failure : EvalError)
  deriving DecidableEq

/-- The wording of a fault. -/
def DefinitionFault.message : DefinitionFault → String
  | codeNotIdentifier => "the report code must be a valid identifier"
  | notIdentifier name => "'" ++ name ++ "' is not a valid identifier"
  | privateName name => "'" ++ name ++ "' must not start with '__'"
  | reservedName name => "'" ++ name ++ "' is a reserved name"
  | duplicateKpi name => "duplicate KPI name '" ++ name ++ "'"
  | emptyExpression kpi => "KPI '" ++ kpi ++ "' has an empty expression"
  | usedQueryName name => "query name '" ++ name ++ "' is already used"
  | queryWithoutFields query => "query '" ++ query ++ "' has no fields"
  | queryWithoutDateField query => "query '" ++ query ++ "' has no date field"
  | nonPositiveDuration period => "period '" ++ period ++ "' must have a positive duration"
  | nonPositiveNormalizeFactor period =>
    "period '" ++ period ++ "' must have a positive normalize factor"
  | duplicatePeriod name => "duplicate period name '" ++ name ++ "'"
  | positionOfUnknownKpi kpi => "position refers to unknown KPI '" ++ kpi ++ "'"
  | positionOfUnknownPeriod period => "position refers to unknown period '" ++ period ++ "'"
  | formula fault => (EvalError.illFormed fault).message
  | aggregation aggregate field failure =>
    "can't compute the " ++ aggregate.label ++ " of '" ++ field ++ "': " ++ failure.message

/-- Why a date cannot be found or written. -/
inductive DateFault where
  | shiftOutOfRange (date : Date) (days : Int)
  | invalidMonth (year : Int) (month : Nat)
  | invalidYear (year : Int)
  | ambiguousMidnight (date : Date)
  | invalidPattern (pattern : String)
  | invalidOffset (minutes : Int)
  deriving DecidableEq

/-- The wording of a fault. -/
def DateFault.message : DateFault → String
  | shiftOutOfRange date days =>
    date.toText ++ " shifted by " ++ toString days ++ " days is out of range"
  | invalidMonth year month => "invalid month " ++ toString year ++ "-" ++ toString month
  | invalidYear year => "invalid year " ++ toString year
  | ambiguousMidnight date => "ambiguous local midnight on " ++ date.toText
  | invalidPattern pattern => "invalid date format '" ++ pattern ++ "'"
  | invalidOffset minutes => "invalid UTC offset of " ++ toString minutes ++ " minutes"

/-- Why a ledger or a record store gives no answer. -/
inductive SourceFault where
  | noAccount (code : String)
  | unknownModel (model : String)
  /-- A failure of its own that a ledger or store reports. -/
  | other (details : String)
  deriving DecidableEq

/-- The wording of a fault. -/
def SourceFault.message : SourceFault → String
  | noAccount code => "no account with code '" ++ code ++ "'"
  | unknownModel model => "unknown model '" ++ model ++ "'"
  | other details => details

/-- Why a definition is refused or a report cannot be computed. -/
inductive ReportError where
  | malformedToken (token : String) (fault : TokenFault)
  | invalidDefinition (context : DefinitionContext) (fault : DefinitionFault)
  | invalidPosition (line column : Int)
  | reportNotFound (code : String)
  | unknownPeriod (name : String)
  | missingSubReportKpi (referrer report kpi : String)
  | unknownField (model field : String)
  | source (fault : SourceFault)
  | date (fault : DateFault)
  /-- A text that is no JSON form of a definition. -/
  | unreadable
  deriving DecidableEq

/-- The wording of a failure. -/
def ReportError.message : ReportError → String
  | malformedToken token fault =>
    "Malformed account expression '" ++ token ++ "': " ++ fault.message
  | invalidDefinition context fault =>
    "Invalid definition for " ++ context.message ++ ": " ++ fault.message
  | invalidPosition line column =>
    "Invalid manual position (line " ++ toString line ++ ", column " ++ toString column ++
      "): coordinates can't be negative"
  | reportNotFound code => "No report with code '" ++ code ++ "'"
  | unknownPeriod name => "No period named '" ++ name ++ "' in report instance"
  | missingSubReportKpi referrer report kpi =>
    "Report '" ++ report ++ "' referenced by '" ++ referrer ++ "' has no KPI named '" ++ kpi ++ "'"
  | unknownField model field => "Unknown field '" ++ field ++ "' on model '" ++ model ++ "'"
  | source fault => "Data source error: " ++ fault.message
  | date fault => "Date calculation error: " ++ fault.message
  | unreadable => "Serialization error: not the JSON form of a definition"

/-- The result of an operation that may fail. -/
abbrev Result (α : Type) := Except ReportError α

/-- The result of a search, or a failure where nothing is found. -/
def Result.ofOption {α : Type} (failure : ReportError) : Option α → Result α
  | some a => .ok a
  | none => .error failure

end KpiReport
