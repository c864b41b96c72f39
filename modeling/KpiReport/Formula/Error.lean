import KpiReport.Formula.Operator
import KpiReport.Formula.Token

/-!
# Failures of formulas

`EvalError` says why a formula has no value, and `EvalError.message` words it. A failure is
retryable when another name that becomes known may cure it.
-/

namespace KpiReport

/-- A value of a kind that an operation cannot work on, though another value in its place might
do. -/
inductive ValueFault where
  | operand (kind : String) (op : BinaryOp)
  | aggregated (kind : String) (aggregate : Aggregate)
  deriving DecidableEq

/-- The wording of a fault. -/
def ValueFault.message : ValueFault → String
  | operand kind op => kind ++ " can't be used as an operand of '" ++ op.symbol ++ "'"
  | aggregated kind aggregate => "can't compute " ++ aggregate.label ++ " of " ++ kind ++ " values"

/-- A use of a value that its kind rules out. -/
inductive TypeFault where
  | textOperand (op : BinaryOp)
  | negated (kind : String)
  | unordered (op : CompareOp) (left right : String)
  | textAggregated (aggregate : Aggregate)
  | argumentCount (function : String) (count : Nat)
  | lengthOf (shown : String)
  | absoluteOf (shown : String)
  deriving DecidableEq

/-- The wording of a fault. -/
def TypeFault.message : TypeFault → String
  | textOperand op => "unsupported text operand for '" ++ op.symbol ++ "'"
  | negated kind => "bad operand type for unary '-': " ++ kind
  | unordered op left right =>
    "'" ++ op.symbol ++ "' not supported between " ++ left ++ " and " ++ right
  | textAggregated aggregate => "can't compute " ++ aggregate.label ++ " of text values"
  | argumentCount function count =>
    function ++ "() takes exactly one argument (" ++ toString count ++ " given)"
  | lengthOf shown => "len() of " ++ shown
  | absoluteOf shown => "abs() of " ++ shown

/-- Why a formula has no value. -/
inductive EvalError where
  | divisionByZero
  | undefinedName (name : String)
  | invalidValue (fault : ValueFault)
  | typeMismatch (fault : TypeFault)
  | unknownAttribute (name : String)
  | unknownFunction (name : String)
  | illFormed (fault : SyntaxFault)
  deriving DecidableEq

namespace EvalError

/-- The wording of a failure. -/
def message : EvalError → String
  | divisionByZero => "division by zero"
  | undefinedName name => "name '" ++ name ++ "' is not defined"
  | invalidValue fault => "invalid value: " ++ fault.message
  | typeMismatch fault => "type error: " ++ fault.message
  | unknownAttribute name => "no attribute '" ++ name ++ "'"
  | unknownFunction name => "unknown function '" ++ name ++ "'"
  | illFormed fault => "syntax error: " ++ fault.message

/-- Whether a failure may go away once more names are known. -/
def isRetryable : EvalError → Bool
  | undefinedName _ => true
  | invalidValue _ => true
  | _ => false

end EvalError

end KpiReport
