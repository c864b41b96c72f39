import KpiReport.Account.Scan
import KpiReport.Trace

/-!
# Registries of account tokens

A registry collects the distinct account tokens of a report and looks up their accounts in a chart
once. In formulas a token is replaced by a private name made of its position in the registry, to
which its balance is bound.
-/

namespace KpiReport

/-- The distinct account tokens of a report, by their texts, and the accounts of each, once they
have been looked up after the last registration. -/
structure Registry where
  tokens : List AccountToken := []
  accounts : Option (List (List String)) := none

namespace Registry

/-- The position of the token with a text. -/
def index? (registry : Registry) (text : String) : Option Nat :=
  registry.tokens.findIdx? fun token => token.text == text

/-- Adds a token, unless one with its text is there. -/
def add (registry : Registry) (token : AccountToken) : Registry :=
  match registry.index? token.text with
  | some _ => registry
  | none => { tokens := registry.tokens ++ [token], accounts := none }

/-- Adds the account tokens of a formula. -/
def register (registry : Registry) (formula : String) : Result Registry :=
  (AccountToken.tokensOf formula).map fun tokens => tokens.foldl add registry

/-- Adds the account tokens of some formulas. -/
def registerAll (registry : Registry) : List String → Result Registry
  | [] => .ok registry
  | formula :: formulas =>
    match registry.register formula with
    | .error e => .error e
    | .ok registry => registry.registerAll formulas

/-- Warns of a token that picks no account. -/
def warnUnmatched (root : String) (token : AccountToken) (codes : List String) : Traced Unit :=
  if codes.isEmpty then
    Traced.log .warn
      ("Account token '" ++ token.text ++ "' matches no account under '" ++ root ++ "'")
  else pure ()

/-- Looks up the accounts of every token below a root. -/
def resolve (registry : Registry) (ledger : Ledger) (root : String) : Traced Registry := do
  let chart ← Traced.ofResult (ledger.accountsUnder root)
  let accounts := registry.tokens.map fun token => chart.select token.selectors
  (registry.tokens.zip accounts).forM fun entry => warnUnmatched root entry.1 entry.2
  return { registry with accounts := some accounts }

/-- The accounts of each token, if they have been looked up since the last registration. -/
def resolved (registry : Registry) : Result (List (List String)) :=
  Result.ofOption (.malformedToken "" .unresolved) registry.accounts

/-- The name to which the balance of the token at a position is bound. -/
def privateName (index : Nat) : String :=
  "__acc_" ++ toString index

/-- The position of a token that must be registered. -/
def index (registry : Registry) (token : AccountToken) : Result Nat :=
  Result.ofOption (.malformedToken token.text .unregistered) (registry.index? token.text)

/-- The text that a piece is replaced by. -/
def substitutePiece (registry : Registry) : Piece → Result (List Char)
  | .plain c => .ok [c]
  | .token token => (registry.index token).map fun index => (privateName index).toList

/-- Replaces every account token of a formula by its private name. -/
def substitute (registry : Registry) (formula : String) : Result String :=
  match AccountToken.scan formula with
  | .error e => .error e
  | .ok pieces =>
    (pieces.mapM registry.substitutePiece).map fun texts => String.ofList texts.flatten

end Registry

end KpiReport
