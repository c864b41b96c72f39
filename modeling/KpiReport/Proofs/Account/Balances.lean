import KpiReport.Proofs.Account.Ledgers
import KpiReport.Proofs.Ledger.Totals

/-!
# Balances of tokens taken together

The ledger is asked once for a whole group of tokens, over all their accounts. The main statement,
`Registry.balances_alone`, says that no token notices: each gets the balance that it would get
alone, by the same additions. Nor is the ledger asked twice for tokens that can be asked for together.
-/

namespace KpiReport

namespace ResolvedToken

/-- The balance of a token taken alone: the amounts of its accounts, in ascending order of their
codes, over the lines that it counts. -/
def alone (member : ResolvedToken) (book : Book) (bounds : Bounds) (target : TargetMove)
    (extra : Filter) : Option Float :=
  match member.accounts.filterMap
      (totalsOf (book.lines.filter (member.counts bounds target extra))) with
  | [] => none
  | found => some (sumOf (found.map member.token.side.amount))

variable {member : ResolvedToken} {book : Book} {bounds : Bounds} {target : TargetMove}
  {extra : Filter}

/-- There is no balance where no line counts. -/
theorem alone_eq_none_iff :
    member.alone book bounds target extra = none ↔
      ∀ line ∈ book.lines, member.counts bounds target extra line = false := by
  have empty : member.alone book bounds target extra = none ↔
      member.accounts.filterMap
        (totalsOf (book.lines.filter (member.counts bounds target extra))) = [] := by
    unfold alone
    split <;> simp_all
  rw [empty, List.filterMap_eq_nil_iff]
  constructor
  · intro none line inside
    by_contra counted
    rw [Bool.not_eq_false] at counted
    have own : line.account ∈ member.accounts := by
      simp only [counts, Bool.and_eq_true] at counted
      exact List.contains_iff_mem.1 counted.1.1.1.2
    exact totalsOf_eq_none_iff.1 (none _ own) line (List.mem_filter.2 ⟨inside, counted⟩) rfl
  · intro none code _
    refine totalsOf_eq_none_iff.2 fun line inside => ?_
    obtain ⟨inside, counted⟩ := List.mem_filter.1 inside
    rw [none line inside] at counted
    cases counted

/-- Taken alone, a token has its balance over the lines of the book. -/
theorem alone_eq_balanceOver : member.alone book bounds target extra =
    member.balanceOver book.lines (fun code lines => totalsOf lines code) bounds target extra := by
  have same : member.accounts.filterMap
        (totalsOf (book.lines.filter (member.counts bounds target extra))) =
      member.accounts.filterMap fun code => totalsOf (book.lines.filter fun line =>
        line.account == code && member.counts bounds target extra line) code := by
    exact List.filterMap_congr fun code _ => totalsOf_filter _ _ _
  unfold alone balanceOver
  rw [same]
  rfl

end ResolvedToken

/-! ## Books -/

namespace Book

/-- A book adds up the lines of each account. -/
theorem sumsPerAccount_ledger (book : Book) :
    book.ledger.SumsPerAccount book.lines fun code lines => totalsOf lines code := by
  rintro filter totals ⟨⟩ code
  rw [get?_totals, totalsOf_filter]

theorem answers_ledger (book : Book) : book.ledger.Answers :=
  fun filter => ⟨book.totals filter, rfl⟩

end Book

/-! ## All tokens of a registry -/

namespace Registry

theorem owned_of_asked {registry : Registry} {accounts : List (List String)} {key : Mode × Filter}
    (h : key ∈ registry.asked accounts) :
    ∃ (index : Nat) (token : AccountToken) (codes : List String),
      registry.tokens[index]? = some token ∧ accounts[index]? = some codes ∧ codes ≠ [] ∧
        key = (token.mode, token.filter) := by
  have groups := TokenGroup.ofTokens_groups (registry.resolvedTokens accounts)
  obtain ⟨group, inside, rfl⟩ := List.mem_map.1 h
  obtain ⟨member, belongs, own⟩ := groups.owned group inside
  have grouped := groups.members.mem_iff.1 (List.mem_flatMap.2 ⟨group, inside, belongs⟩)
  obtain ⟨resolved, nonempty⟩ := List.mem_filter.1 grouped
  obtain ⟨known, looked⟩ := getElem?_of_mem_resolvedTokens resolved
  exact ⟨member.index, member.token, member.accounts, known, looked, by simpa using nonempty, own⟩

theorem balances_runs {registry : Registry} {accounts : List (List String)}
    (looked : registry.accounts = some accounts) (book : Book) (bounds : Bounds)
    (target : TargetMove) (extra : Filter) (t : Trace) :
    ∃ balances t', Runs (registry.balances book.ledger bounds target extra) t balances t' ∧
      balances.length = registry.tokens.length ∧
      (∀ member ∈ registry.resolvedTokens accounts,
        balances.get? member.index = member.alone book bounds target extra) ∧
      t'.aggregations = t.aggregations + (registry.asked accounts).length := by
  obtain ⟨balances, t', run, counted⟩ :=
    exists_runs_balances book.answers_ledger looked bounds target extra t
  refine ⟨balances, t', run, length_of_runs_balances run, fun member inside => ?_, counted⟩
  rw [Balances.get?, getElem?_of_runs_balances book.sumsPerAccount_ledger looked run inside,
    Option.join_some, ResolvedToken.alone_eq_balanceOver]

/-- **No token notices that others are counted with it**: each gets the balance that it has alone,
which is none exactly where it counts no line. The ledger is asked once for each group of tokens,
only for tokens that have accounts, and never for two pairs of a mode and an inline filter that are
the same. -/
theorem balances_alone {registry : Registry} (built : registry.Built) {accounts : List (List String)}
    (looked : registry.accounts = some accounts) (book : Book) (bounds : Bounds)
    (target : TargetMove) (extra : Filter) (t : Trace) :
    ∃ balances t', Runs (registry.balances book.ledger bounds target extra) t balances t' ∧
      balances.length = registry.tokens.length ∧ accounts.length = registry.tokens.length ∧
      (∀ (index : Nat) (token : AccountToken) (codes : List String),
        registry.tokens[index]? = some token → accounts[index]? = some codes →
          codes.Pairwise (· < ·) ∧
          balances.get? index =
            ResolvedToken.alone ⟨index, token, codes⟩ book bounds target extra ∧
          (balances.get? index = none ↔ ∀ line ∈ book.lines,
            ResolvedToken.counts ⟨index, token, codes⟩ bounds target extra line = false)) ∧
      t'.aggregations = t.aggregations + (registry.asked accounts).length ∧
      (registry.asked accounts).Pairwise TokenGroup.Apart ∧
      ∀ key ∈ registry.asked accounts,
        ∃ (index : Nat) (token : AccountToken) (codes : List String),
          registry.tokens[index]? = some token ∧ accounts[index]? = some codes ∧ codes ≠ [] ∧
            key = (token.mode, token.filter) := by
  obtain ⟨chart, rfl⟩ := built.sound.accounts accounts looked
  obtain ⟨balances, t', run, length, balance, counted⟩ :=
    balances_runs looked book bounds target extra t
  refine ⟨balances, t', run, length, ?_, ?_, counted, ?_, fun key => owned_of_asked⟩
  · rw [codesIn, List.length_map]
  · intro index token codes known picked
    have alone := balance _ (mem_resolvedTokens known picked)
    refine ⟨?_, alone, ?_⟩
    · obtain ⟨other, -, rfl⟩ := List.mem_map.1 (List.mem_of_getElem? picked)
      exact chart.sorted_select _
    · rw [alone]
      exact ResolvedToken.alone_eq_none_iff
  · exact (TokenGroup.ofTokens_groups _).apart

end Registry

/-! ## Two tokens of different accounts -/

namespace TwoTokens

open Calendar

/-- The day of the lines. -/
def day : Date := ⟨0, firstDay_le_zero, zero_le_lastDay⟩

/-- A posted line of an account. -/
def line (account : String) (debit credit : Float) : MoveLine :=
  ⟨account, day, debit, credit, MoveLine.posted, none, []⟩

/-- Two accounts below a root, with a line each. -/
def book : Book where
  accounts := [⟨"7", "", none⟩, ⟨"70", "", some "7"⟩, ⟨"71", "", some "7"⟩]
  lines := [line "70" 5 0, line "71" 0 3]

/-- The tokens of `bal[70] + crd[71]` with their accounts. -/
def registry : Registry where
  tokens := [⟨"bal[70]", .balance, .variation, [.code "70"], []⟩,
    ⟨"crd[71]", .credit, .variation, [.code "71"], []⟩]
  accounts := some [["70"], ["71"]]

theorem accountsUnder_book : book.ledger.accountsUnder "7" = .ok ⟨"7", book.accounts⟩ := by
  have visited : Chart.visit book.accounts [⟨"7", "", none⟩] =
      [⟨"7", "", none⟩, ⟨"71", "", some "7"⟩, ⟨"70", "", some "7"⟩] := by
    with_unfolding_all rfl
  have first : Chart.codeLe "7" "71" = true := by decide
  have second : Chart.codeLe "71" "70" = false := by decide
  have third : Chart.codeLe "7" "70" = true := by decide
  have charted : Chart.ofAccounts "7" book.accounts = ⟨"7", book.accounts⟩ := by
    rw [Chart.ofAccounts, show (book.accounts.filter fun account => account.code == "7").reverse =
      [⟨"7", "", none⟩] from rfl, visited]
    simp [List.mergeSort, List.MergeSort.Internal.splitInTwo, first, second, third, book]
  change book.accountsUnder "7" = _
  rw [Book.accountsUnder, charted]
  rfl

theorem built_registry : registry.Built := by
  have registered : Registry.register {} "bal[70] + crd[71]" =
      .ok { registry with accounts := none } := by
    with_unfolding_all rfl
  have resolved : ((Registry.resolve { registry with accounts := none } book.ledger
      "7").run.run {}).1 = .ok registry := by
    rw [Registry.resolve, accountsUnder_book]
    rfl
  obtain ⟨t, run⟩ := exists_runs resolved
  exact .resolve (.register .empty registered) run

theorem asked_registry : registry.asked [["70"], ["71"]] = [(.variation, [])] := by
  simp [registry, Registry.asked, Registry.resolvedTokens, TokenGroup.ofTokens, TokenGroup.place,
    TokenGroup.admits, TokenGroup.key, Filter.same]

end TwoTokens

/-- Two tokens with one mode and no inline filter: the ledger is asked once, and each token gets the
balance of its own account. -/
theorem Registry.balances_alone_two_tokens :
    TwoTokens.registry.Built ∧ ∃ balances t', Runs (TwoTokens.registry.balances
        TwoTokens.book.ledger ⟨TwoTokens.day, TwoTokens.day, none⟩ .posted []) {} balances t' ∧
      balances.get? 0 = some 5 ∧ balances.get? 1 = some 3 ∧ t'.aggregations = 1 := by
  obtain ⟨balances, t', run, -, -, balance, counted, -⟩ :=
    Registry.balances_alone TwoTokens.built_registry rfl TwoTokens.book
      ⟨TwoTokens.day, TwoTokens.day, none⟩ .posted [] {}
  obtain ⟨-, first, -⟩ := balance 0 _ _ rfl rfl
  obtain ⟨-, second, -⟩ := balance 1 _ _ rfl rfl
  refine ⟨TwoTokens.built_registry, balances, t', run, ?_, ?_, ?_⟩
  · rw [first]
    decide +kernel
  · rw [second]
    decide +kernel
  · rw [counted, TwoTokens.asked_registry]
    rfl

/-! ## Inline filters that are not even the same as themselves -/

namespace NotANumber

/-- A condition that compares with what is no number. -/
def filter : Filter := [.field "x" .eq (.number Decimal.notANumber)]

/-- The tokens of `bal[7][x = nan] + crd[7][x = nan]` with their accounts. -/
def registry : Registry where
  tokens := [⟨"bal[7][x = nan]", .balance, .variation, [.code "7"], filter⟩,
    ⟨"crd[7][x = nan]", .credit, .variation, [.code "7"], filter⟩]
  accounts := some [["7"], ["7"]]

theorem built_registry : registry.Built := by
  have registered : Registry.register {} "bal[7][x = nan] + crd[7][x = nan]" =
      .ok { registry with accounts := none } := by
    with_unfolding_all rfl
  have resolved : ((Registry.resolve { registry with accounts := none }
      (Book.ledger { accounts := [⟨"7", "", none⟩] }) "7").run.run {}).1 = .ok registry := by
    with_unfolding_all rfl
  obtain ⟨t, run⟩ := exists_runs resolved
  exact .resolve (.register .empty registered) run

theorem not_same_filter : Filter.same filter filter = false := by
  have unequal : (Decimal.notANumber == Decimal.notANumber) = false := by decide
  simp [filter, Filter.same, Condition.same, FieldValue.same, unequal]

theorem asked_registry :
    registry.asked [["7"], ["7"]] = [(.variation, filter), (.variation, filter)] := by
  simp [registry, Registry.asked, Registry.resolvedTokens, TokenGroup.ofTokens, TokenGroup.place,
    TokenGroup.admits, TokenGroup.key, not_same_filter]

end NotANumber

/-- The ledger can be asked twice for one mode and one inline filter: where the filter compares with
what is no number, it is not the same as itself. -/
theorem Registry.asked_twice :
    ¬ ∀ (registry : Registry) (accounts : List (List String)), registry.Built →
      registry.accounts = some accounts → (registry.asked accounts).Nodup := by
  intro never
  have nodup := never NotANumber.registry _ NotANumber.built_registry rfl
  rw [NotANumber.asked_registry] at nodup
  simp at nodup

end KpiReport
