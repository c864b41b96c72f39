import KpiReport.Formula.Parser
import KpiReport.Formula.Scope
import KpiReport.Value.Arithmetic

/-!
# Evaluating expressions

`Expr.eval` gives the value of an expression in a scope. Operands are evaluated from the left, and
the first failure is the failure of the whole; `and`, `or` and the conditional evaluate only what
decides them.
-/

namespace KpiReport

namespace Value

mutual

/-- The attribute of a record, of each item of a list, or of no data. -/
def member (attr : String) : Value → Except EvalError Value
  | noData => .ok noData
  | record fields =>
    match List.lookup attr fields with
    | some value => .ok value
    | none => .error (.unknownAttribute attr)
  | list items => (itemMembers attr items).map list
  | _ => .error (.unknownAttribute attr)

/-- The attribute of each item of a list. -/
def itemMembers (attr : String) : List Value → Except EvalError (List Value)
  | [] => .ok []
  | item :: items =>
    match member attr item with
    | .error e => .error e
    | .ok value => (itemMembers attr items).map (value :: ·)

end

end Value

namespace Expr

mutual

/-- The value of an expression in a scope. -/
def eval (scope : Scope) : Expr → Except EvalError Value
  | number x => .ok (.number x)
  | text s => .ok (.text s)
  | bool b => .ok (.bool b)
  | noData => .ok .noData
  | name s =>
    match scope.get? s with
    | some value => .ok value
    | none => .error (.undefinedName s)
  | member base attr =>
    match eval scope base with
    | .error e => .error e
    | .ok value => value.member attr
  | call function args =>
    match Builtin.ofName? function with
    | none => .error (.unknownFunction function)
    | some builtin =>
      match evalAll scope args with
      | .error e => .error e
      | .ok values => builtin.call values
  | list items => (evalAll scope items).map .list
  | negate operand =>
    match eval scope operand with
    | .error e => .error e
    | .ok value => value.negate
  | not operand => (eval scope operand).map fun value => .bool !value.truthy
  | binary op left right =>
    match eval scope left with
    | .error e => .error e
    | .ok a =>
      match eval scope right with
      | .error e => .error e
      | .ok b => Value.arithmetic op a b
  | compare op left right =>
    match eval scope left with
    | .error e => .error e
    | .ok a =>
      match eval scope right with
      | .error e => .error e
      | .ok b => Value.compare op a b
  | and left right =>
    match eval scope left with
    | .error e => .error e
    | .ok a => if a.truthy then eval scope right else .ok a
  | or left right =>
    match eval scope left with
    | .error e => .error e
    | .ok a => if a.truthy then .ok a else eval scope right
  | conditional condition body otherwise =>
    match eval scope condition with
    | .error e => .error e
    | .ok c => if c.truthy then eval scope body else eval scope otherwise

/-- The values of some expressions, evaluated in order. -/
def evalAll (scope : Scope) : List Expr → Except EvalError (List Value)
  | [] => .ok []
  | e :: es =>
    match eval scope e with
    | .error e => .error e
    | .ok value => (evalAll scope es).map (value :: ·)

end

end Expr

/-- The value of a formula in a scope. -/
def evalFormula (scope : Scope) (formula : String) : Except EvalError Value :=
  match Expr.parse formula with
  | .error fault => .error (.illFormed fault)
  | .ok e => e.eval scope

end KpiReport
