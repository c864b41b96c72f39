import KpiReport.Account.Selector
import KpiReport.Json.Fields
import KpiReport.Table

/-!
# Charts of accounts

The chart below a root holds the root and every account that descends from it, once per code. Codes
that are whole numbers come first, by value; the others follow by their text.
-/

namespace KpiReport

/-- An account and the account it belongs to. -/
structure Account where
  code : String
  name : String
  parent : Option String
  deriving DecidableEq, Repr

/-- The accounts below a root, root included. -/
structure Chart where
  root : String
  accounts : List Account
  deriving DecidableEq, Repr

namespace Chart

/-- The accounts with another code. -/
def without (code : String) (accounts : List Account) : List Account :=
  accounts.filter fun account => account.code != code

/-- The accounts right below a code. -/
def below (code : String) (accounts : List Account) : List Account :=
  accounts.filter fun account => account.parent == some code

theorem length_without_lt {code : String} {accounts : List Account}
    (h : accounts.any fun account => account.code == code) :
    (without code accounts).length < accounts.length := by
  obtain ⟨account, member, same⟩ := List.any_eq_true.1 h
  refine List.length_filter_lt_length_iff_exists.2 ⟨account, member, ?_⟩
  simpa using same

/-- With a visit there is one account less that was not visited, and no more than those that are
left come onto the stack. -/
theorem visit_decreases {account : Account} {remaining stack : List Account}
    (h : remaining.any fun other => other.code == account.code) :
    let unvisited := without account.code remaining
    unvisited.length * unvisited.length +
        ((below account.code unvisited).reverse ++ stack).length <
      remaining.length * remaining.length + (account :: stack).length := by
  intro unvisited
  have fewer : unvisited.length < remaining.length := length_without_lt h
  have pushed : (below account.code unvisited).length ≤ unvisited.length :=
    List.length_filter_le _ _
  have square : unvisited.length * unvisited.length + unvisited.length ≤
      remaining.length * remaining.length := Nat.mul_le_mul (Nat.le_of_lt fewer) fewer
  simp only [List.length_append, List.length_reverse, List.length_cons]
  omega

/-- Visits accounts from the top of a stack. `remaining` are the accounts whose codes were not
visited yet; a visited account puts those below it on the stack, the last one on top. -/
def visit (remaining stack : List Account) : List Account :=
  match stack with
  | [] => []
  | account :: stack =>
    if _h : remaining.any fun other => other.code == account.code then
      let unvisited := without account.code remaining
      account :: visit unvisited ((below account.code unvisited).reverse ++ stack)
    else visit remaining stack
termination_by remaining.length * remaining.length + stack.length
decreasing_by
  · exact visit_decreases _h
  · simp

/-- Whether a code comes before another one or is the same: whole numbers by value before other
texts, equal keys by their text. -/
def codeLe (a b : String) : Bool :=
  match Selector.codeNumber? a, Selector.codeNumber? b with
  | some m, some n => m < n || (m == n && a ≤ b)
  | some _, none => true
  | none, some _ => false
  | none, none => a ≤ b

/-- The chart below a root, of some accounts in any order. -/
def ofAccounts (root : String) (accounts : List Account) : Chart where
  root := root
  accounts :=
    (visit accounts (accounts.filter fun account => account.code == root).reverse).mergeSort
      fun a b => codeLe a.code b.code

/-- Whether the chart holds no account. -/
def isEmpty (chart : Chart) : Bool :=
  chart.accounts.isEmpty

/-- The account with a code. -/
def get? (chart : Chart) (code : String) : Option Account :=
  chart.accounts.find? fun account => account.code == code

/-- The codes that one of some selectors picks, in ascending order of their texts. -/
def select (chart : Chart) (selectors : List Selector) : List String :=
  distinctNames ((chart.accounts.map Account.code).filter fun code =>
    selectors.any fun selector => selector.selects code)

end Chart

/-- The JSON form of an account. -/
def Account.toJson (account : Account) : Json :=
  .object [("code", .text account.code), ("name", .text account.name),
    ("parent_code", Json.ofText? account.parent)]

/-- Reads an account from its JSON form. -/
def Account.ofJson? (json : Json) : Option Account := do
  let fields ← Json.fields? ["code", "name", "parent_code"] json
  return {
    code := ← Json.required fields "code" Json.text?
    name := ← Json.required fields "name" Json.text?
    parent := ← Json.nullable fields "parent_code" Json.text? }

/-- The JSON form of a chart. -/
def Chart.toJson (chart : Chart) : Json :=
  .object [("root_code", .text chart.root), ("accounts", .list (chart.accounts.map Account.toJson))]

end KpiReport
