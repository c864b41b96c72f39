/-!
# Operators and functions of formulas

Arithmetic, comparison and aggregation, with the way they are written.
-/

namespace KpiReport

/-- An arithmetic operator. -/
inductive BinaryOp where
  | add
  | sub
  | mul
  | div
  | mod
  | pow
  deriving DecidableEq, Repr

/-- How an arithmetic operator is written. -/
def BinaryOp.symbol : BinaryOp → String
  | add => "+"
  | sub => "-"
  | mul => "*"
  | div => "/"
  | mod => "%"
  | pow => "**"

/-- A comparison of values. -/
inductive CompareOp where
  | eq
  | ne
  | lt
  | le
  | gt
  | ge
  deriving DecidableEq, Repr

/-- How a comparison is written. -/
def CompareOp.symbol : CompareOp → String
  | eq => "=="
  | ne => "!="
  | lt => "<"
  | le => "<="
  | gt => ">"
  | ge => ">="

/-- Whether a comparison holds between values in the given order; values without an order satisfy
only `ne`. -/
def CompareOp.holds : CompareOp → Option Ordering → Bool
  | eq, order => order == some .eq
  | ne, order => order != some .eq
  | lt, order => order == some .lt
  | le, order => order == some .lt || order == some .eq
  | gt, order => order == some .gt
  | ge, order => order == some .gt || order == some .eq

/-- A way to make one number of several. -/
inductive Aggregate where
  | sum
  | avg
  | min
  | max
  deriving DecidableEq, Repr

/-- How an aggregate is written. -/
def Aggregate.label : Aggregate → String
  | sum => "sum"
  | avg => "avg"
  | min => "min"
  | max => "max"

/-- A function that formulas may call. -/
inductive Builtin where
  | aggregate (kind : Aggregate)
  | length
  | absolute
  deriving DecidableEq, Repr

namespace Builtin

/-- The names of the functions. -/
def names : List (String × Builtin) :=
  [("sum", .aggregate .sum), ("avg", .aggregate .avg), ("min", .aggregate .min),
    ("max", .aggregate .max), ("len", .length), ("abs", .absolute)]

/-- The function with a name. -/
def ofName? (name : String) : Option Builtin :=
  List.lookup name names

end Builtin

/-- The words with a meaning of their own in formulas. -/
def keywords : List String :=
  ["and", "or", "not", "if", "else", "None", "True", "False"]

end KpiReport
