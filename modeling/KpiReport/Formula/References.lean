import KpiReport.Formula.Token

/-!
# Dotted references

The references `base.attr` of a formula are found in its tokens, so that formulas which still hold
account tokens can be searched as well. A base is a name that does not itself follow a dot.
-/

namespace KpiReport

namespace Token

/-- The references among some tokens, the first of which follows a dot iff `afterDot`. -/
def references (afterDot : Bool) : List Token → List (String × String)
  | [] => []
  | t :: ts =>
    let more := references (t == .punct .dot) ts
    match t, ts with
    | .name base, .punct .dot :: .name attr :: _ =>
      if afterDot then more else (base, attr) :: more
    | _, _ => more

end Token

/-- The references `base.attr` of a formula in the order in which they are written. -/
def dottedReferences (formula : String) : Except SyntaxFault (List (String × String)) :=
  (Token.ofText formula).map (Token.references false)

end KpiReport
