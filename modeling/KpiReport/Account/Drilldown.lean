import KpiReport.Account.Balances

/-!
# Drilling down

The filter that selects the move lines behind the account tokens of a formula. Tokens that select
the same lines give one alternative; a single alternative is not wrapped.
-/

namespace KpiReport

/-- The condition that a line has an amount on the side of a token. -/
def Side.lineConditions : Side → List Condition
  | .balance => []
  | .credit => [.field MoveLine.creditField .ne (.number 0)]
  | .debit => [.field MoveLine.debitField .ne (.number 0)]

/-- The lines behind a token. -/
def ResolvedToken.lineFilter (member : ResolvedToken) (bounds : Bounds) : Filter :=
  member.token.mode.lineFilter bounds ++
    accountCondition member.accounts :: (member.token.side.lineConditions ++ member.token.filter)

namespace Registry

/-- Adds a filter to some alternatives, unless it is among them. -/
def addAlternative (alternatives : List Filter) (filter : Filter) : List Filter :=
  if alternatives.any fun other => Filter.same other filter then alternatives
  else alternatives ++ [filter]

/-- The registered token that a token of a formula stands for. -/
def lookUp (registry : Registry) (accounts : List (List String)) (token : AccountToken) :
    Result ResolvedToken :=
  (registry.index token).map fun index =>
    ⟨index, (registry.tokens[index]?).getD token, accounts.getD index []⟩

/-- The lines behind the account tokens of a formula, none if it has no token. -/
def drilldownFilter (registry : Registry) (formula : String) (bounds : Bounds)
    (target : TargetMove) (extra : Filter) : Result (Option Filter) := do
  let accounts ← registry.resolved
  let tokens ← AccountToken.tokensOf formula
  let members ← tokens.mapM (registry.lookUp accounts)
  let common := commonFilter target extra
  match (members.map fun member => member.lineFilter bounds).foldl addAlternative [] with
  | [] => return none
  | [only] => return some (only ++ common)
  | alternatives => return some (Filter.anyOf alternatives ++ common)

end Registry

end KpiReport
