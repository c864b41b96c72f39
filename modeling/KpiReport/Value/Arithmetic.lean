import KpiReport.Decimal.Rounding
import KpiReport.Formula.Error
import KpiReport.Value.Basic

/-!
# Arithmetic, comparison and aggregation of values

No data passes through arithmetic, fails as a divisor, compares as zero and is left out of
aggregates; an aggregate of nothing is no data.
-/

namespace KpiReport

namespace Value

/-- The number that a value gives as an operand; none for no data. -/
def operand (op : BinaryOp) : Value → Except EvalError (Option Float)
  | noData => .ok none
  | number x => .ok (some x)
  | bool b => .ok (some (if b then 1 else 0))
  | text _ => .error (.typeMismatch (.textOperand op))
  | list items => .error (.invalidValue (.operand (kind (list items)) op))
  | record fields => .error (.invalidValue (.operand (kind (record fields)) op))

/-- The result of an operator other than a division on two numbers. -/
def combine (op : BinaryOp) (x y : Float) : Float :=
  match op with
  | .add => x + y
  | .sub => x - y
  | .mul => x * y
  | .div => x / y
  | .mod => Decimal.floorRemainder x y
  | .pow => x.pow y

/-- The result of an operator on two operands. -/
def combine? (op : BinaryOp) (a b : Option Float) : Except EvalError Value :=
  match op, a, b with
  | .div, _, none | .mod, _, none => .error .divisionByZero
  | .div, a, some y | .mod, a, some y =>
    if y == 0 then .error .divisionByZero
    else .ok (ofFloat? (a.map fun x => combine op x y))
  | _, some x, some y => .ok (number (combine op x y))
  | _, _, _ => .ok noData

/-- The result of an arithmetic operator; two texts are joined by `+`. -/
def arithmetic (op : BinaryOp) (a b : Value) : Except EvalError Value :=
  match op, a, b with
  | .add, text s, text t => .ok (text (s ++ t))
  | op, a, b =>
    match operand op a with
    | .error e => .error e
    | .ok x =>
      match operand op b with
      | .error e => .error e
      | .ok y => combine? op x y

/-- The negative of a value. -/
def negate : Value → Except EvalError Value
  | noData => .ok noData
  | a =>
    match a.toFloat? with
    | some x => .ok (number (-x))
    | none => .error (.typeMismatch (.negated a.kind))

/-- The number that a value gives in a comparison; no data counts as zero. -/
def comparable? : Value → Option Float
  | noData => some 0
  | a => a.toFloat?

/-- Whether two values are equal in a comparison. -/
def equals (a b : Value) : Bool :=
  match a.comparable?, b.comparable? with
  | some x, some y => x == y
  | _, _ => same a b

/-- The order of two numbers, none if one of them is no number. -/
def floatOrder? (x y : Float) : Option Ordering :=
  if x < y then some .lt else if x == y then some .eq else if y < x then some .gt else none

/-- The order of two texts, by their code points. -/
def textOrder (s t : String) : Ordering :=
  if s < t then .lt else if s = t then .eq else .gt

/-- Compares two values. -/
def compare (op : CompareOp) (a b : Value) : Except EvalError Value :=
  match op with
  | .eq => .ok (bool (equals a b))
  | .ne => .ok (bool (!equals a b))
  | op =>
    match a, b with
    | text s, text t => .ok (bool (op.holds (some (textOrder s t))))
    | a, b =>
      match a.comparable?, b.comparable? with
      | some x, some y => .ok (bool (op.holds (floatOrder? x y)))
      | _, _ => .error (.typeMismatch (.unordered op a.kind b.kind))

end Value

namespace Aggregate

/-- The numbers among some values, no data left out. -/
def numbers (aggregate : Aggregate) : List Value → Except EvalError (List Float)
  | [] => .ok []
  | .noData :: values => numbers aggregate values
  | .text _ :: _ => .error (.typeMismatch (.textAggregated aggregate))
  | .list items :: _ => .error (.invalidValue (.aggregated (Value.list items).kind aggregate))
  | .record fields :: _ => .error (.invalidValue (.aggregated (Value.record fields).kind aggregate))
  | .number x :: values => (numbers aggregate values).map (x :: ·)
  | .bool b :: values => (numbers aggregate values).map ((if b then 1 else 0) :: ·)

/-- The sum of some numbers, added from the left; the sum of none is the negative zero, which
changes no number it is added to. -/
def total (xs : List Float) : Float :=
  xs.foldl (· + ·) (-0.0)

/-- The aggregate of some numbers; what is no number is never the least or the greatest. -/
def ofNumbers (aggregate : Aggregate) (xs : List Float) : Float :=
  match aggregate with
  | sum => total xs
  | avg => total xs / Float.ofNat xs.length
  | min => xs.foldl (fun least x => if x < least then x else least) Decimal.infinity
  | max => xs.foldl (fun greatest x => if greatest < x then x else greatest) (-Decimal.infinity)

/-- The aggregate of some values, no data if there is no number among them. -/
def apply (aggregate : Aggregate) (values : List Value) : Except EvalError Value :=
  match aggregate.numbers values with
  | .error e => .error e
  | .ok [] => .ok .noData
  | .ok (x :: xs) => .ok (.number (aggregate.ofNumbers (x :: xs)))

end Aggregate

namespace Builtin

/-- The only argument of a function. -/
def single (function : String) : List Value → Except EvalError Value
  | [value] => .ok value
  | values => .error (.typeMismatch (.argumentCount function values.length))

/-- The length of a list, record or text. -/
def lengthOf : Value → Except EvalError Value
  | .list items => .ok (.number (Float.ofNat items.length))
  | .record fields => .ok (.number (Float.ofNat fields.length))
  | .text s => .ok (.number (Float.ofNat s.length))
  | value => .error (.typeMismatch (.lengthOf value.toText))

/-- The magnitude of a number. -/
def absoluteOf : Value → Except EvalError Value
  | .noData => .ok .noData
  | value =>
    match value.toFloat? with
    | some x => .ok (.number x.abs)
    | none => .error (.typeMismatch (.absoluteOf value.toText))

/-- Calls a function. An aggregate takes its arguments, or the items of an only argument that is a
list. -/
def call (builtin : Builtin) (values : List Value) : Except EvalError Value :=
  match builtin, values with
  | aggregate kind, [.list items] => kind.apply items
  | aggregate kind, values => kind.apply values
  | length, values =>
    match single "len" values with
    | .error e => .error e
    | .ok value => lengthOf value
  | absolute, values =>
    match single "abs" values with
    | .error e => .error e
    | .ok value => absoluteOf value

end Builtin

end KpiReport
