import KpiReport.Formula.Operator

/-!
# Expressions

The tree of a formula, and the replacement of dotted references `base.attr` by names.
-/

namespace KpiReport

/-- An expression. -/
inductive Expr where
  | number (x : Float)
  | text (s : String)
  | bool (b : Bool)
  | noData
  | name (s : String)
  | member (base : Expr) (attr : String)
  | call (function : String) (args : List Expr)
  | list (items : List Expr)
  | negate (operand : Expr)
  | not (operand : Expr)
  | binary (op : BinaryOp) (left right : Expr)
  | compare (op : CompareOp) (left right : Expr)
  | and (left right : Expr)
  | or (left right : Expr)
  | conditional (condition body otherwise : Expr)
  deriving Inhabited

namespace Expr

mutual

/-- Replaces every reference `base.attr` for which `rename` gives a name by that name. -/
def renameReferences (rename : String → String → Option String) : Expr → Expr
  | number x => number x
  | text s => text s
  | bool b => bool b
  | noData => noData
  | name s => name s
  | member (name base) attr =>
    match rename base attr with
    | some replacement => name replacement
    | none => member (name base) attr
  | member base attr => member (renameReferences rename base) attr
  | call function args => call function (renameAll rename args)
  | list items => list (renameAll rename items)
  | negate operand => negate (renameReferences rename operand)
  | not operand => not (renameReferences rename operand)
  | binary op left right =>
    binary op (renameReferences rename left) (renameReferences rename right)
  | compare op left right =>
    compare op (renameReferences rename left) (renameReferences rename right)
  | and left right => and (renameReferences rename left) (renameReferences rename right)
  | or left right => or (renameReferences rename left) (renameReferences rename right)
  | conditional condition body otherwise =>
    conditional (renameReferences rename condition) (renameReferences rename body)
      (renameReferences rename otherwise)

/-- Replaces the references in some expressions. -/
def renameAll (rename : String → String → Option String) : List Expr → List Expr
  | [] => []
  | e :: es => renameReferences rename e :: renameAll rename es

end

/-- The names given to the references of `pairs`: `base.attr` becomes the name written so. -/
def dottedName (pairs : List (String × String)) (base attr : String) : Option String :=
  if pairs.contains (base, attr) then some (base ++ "." ++ attr) else none

end Expr

end KpiReport
