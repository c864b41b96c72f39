import KpiReport.Account.Registry
import KpiReport.Definition.Instance
import KpiReport.Formula.Scope

/-!
# Balances

The balances of all tokens of a registry for one period. Tokens with one mode and one inline filter
form a group, for whose accounts the ledger is asked once; each token then sums its own accounts.
-/

namespace KpiReport

/-- The balance of each token of a registry, by position; none where no line matches. -/
abbrev Balances := List (Option Float)

namespace Balances

/-- The balance at a position. -/
def get? (balances : Balances) (index : Nat) : Option Float :=
  (balances[index]?).join

/-- The private names with their balances, the first of which is at position `index`. -/
def entriesFrom (index : Nat) : Balances → List (String × Value)
  | [] => []
  | balance :: balances =>
    (Registry.privateName index, Value.ofFloat? balance) :: entriesFrom (index + 1) balances

/-- Binds the private names to their balances. -/
def bind (balances : Balances) (scope : Scope) : Scope :=
  scope.insertAll (balances.entriesFrom 0)

end Balances

/-- A token with its position in the registry and its accounts. -/
structure ResolvedToken where
  index : Nat
  token : AccountToken
  accounts : List String

/-- Tokens that share a mode and an inline filter. -/
structure TokenGroup where
  mode : Mode
  filter : Filter
  members : List ResolvedToken

namespace TokenGroup

/-- Whether a token has the mode and the inline filter of a group. -/
def admits (group : TokenGroup) (token : AccountToken) : Bool :=
  group.mode == token.mode && Filter.same group.filter token.filter

/-- Adds a token to the first group that admits it, or to a new one. -/
def place (groups : List TokenGroup) (member : ResolvedToken) : List TokenGroup :=
  match groups with
  | [] => [⟨member.token.mode, member.token.filter, [member]⟩]
  | group :: groups =>
    if group.admits member.token then
      { group with members := group.members ++ [member] } :: groups
    else group :: place groups member

/-- The groups of some tokens; tokens without accounts are in none. -/
def ofTokens (members : List ResolvedToken) : List TokenGroup :=
  (members.filter fun member => !member.accounts.isEmpty).foldl place []

/-- The accounts of a group in ascending order. -/
def accounts (group : TokenGroup) : List String :=
  distinctNames (group.members.flatMap ResolvedToken.accounts)

end TokenGroup

/-- The condition that a line belongs to one of some accounts. -/
def accountCondition (accounts : List String) : Condition :=
  .field MoveLine.accountField .memberOf (.list (accounts.map .text))

/-- The conditions on all lines of a period: posted lines only where drafts do not count, and the
period's own filter. -/
def commonFilter (target : TargetMove) (extra : Filter) : Filter :=
  match target with
  | .posted => .field MoveLine.stateField .eq (.text MoveLine.posted) :: extra
  | .all => extra

namespace TokenGroup

/-- The lines of a group. -/
def lineFilter (group : TokenGroup) (bounds : Bounds) (common : Filter) : Filter :=
  group.mode.lineFilter bounds ++ accountCondition group.accounts :: (group.filter ++ common)

end TokenGroup

/-- The balance of a token: the amounts of its accounts added in ascending order of their codes,
none where no account has totals. -/
def ResolvedToken.balance (member : ResolvedToken) (totals : List AccountTotals) : Option Float :=
  let byAccount := Table.ofEntries (totals.map fun total => (total.account, total))
  match member.accounts.filterMap byAccount.get? with
  | [] => none
  | found => some ((found.map member.token.side.amount).foldl (· + ·) 0)

/-- Asks the ledger for the totals of a group and gives the balances of its tokens. -/
def TokenGroup.balances (ledger : Ledger) (bounds : Bounds) (common : Filter)
    (group : TokenGroup) : Traced (List (Nat × Option Float)) := do
  Traced.log .debug
    ("Aggregating move lines for " ++ toString group.members.length ++
      " account token(s), mode " ++ group.mode.label)
  Traced.countAggregation
  let totals ← Traced.ofResult (ledger.totals (group.lineFilter bounds common))
  return group.members.map fun member => (member.index, member.balance totals)

namespace Registry

/-- The tokens of a registry with their positions and accounts. -/
def resolvedTokens (registry : Registry) (accounts : List (List String)) : List ResolvedToken :=
  (registry.tokens.zip accounts).mapIdx fun index entry => ⟨index, entry.1, entry.2⟩

/-- The balances of all tokens for a period. -/
def balances (registry : Registry) (ledger : Ledger) (bounds : Bounds) (target : TargetMove)
    (extra : Filter) : Traced Balances := do
  let accounts ← Traced.ofResult registry.resolved
  let groups := TokenGroup.ofTokens (registry.resolvedTokens accounts)
  let found ← groups.mapM (TokenGroup.balances ledger bounds (commonFilter target extra))
  return (List.range registry.tokens.length).map fun index =>
    (List.lookup index found.flatten).join

end Registry

end KpiReport
