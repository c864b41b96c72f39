import KpiReport.Proofs.Account.Groups
import KpiReport.Proofs.Account.Registration
import Mathlib.Data.List.Nodup

/-!
# Balances from any ledger

A ledger is asked once for each group of tokens, and what it answers is read account by account. So
at the position of each token stands its balance in the totals of a group in which it belongs
(`Registry.counted_of_runs_balances`). A ledger need not be a book: it is enough that the totals of
an account are made of those of its lines that match (`Ledger.SumsPerAccount`). Then the balance of
a token is a function of the token and its accounts, whatever tokens are registered with it
(`Registry.getElem?_of_runs_balances`).
-/

namespace KpiReport

/-! ## Ledgers that sum per account -/

/-- The totals that the ledger gives for an account are what `sums` makes of the lines of the
account that match. -/
def Ledger.SumsPerAccount (ledger : Ledger) (lines : List MoveLine)
    (sums : String → List MoveLine → Option AccountTotals) : Prop :=
  ∀ filter totals, ledger.totals filter = .ok totals → ∀ code,
    (Table.ofEntries (totals.map fun total => (total.account, total))).get? code =
      sums code (lines.filter fun line =>
        line.account == code && Filter.matches line.field filter)

/-- The ledger gives totals for every filter. -/
def Ledger.Answers (ledger : Ledger) : Prop :=
  ∀ filter, ∃ totals, ledger.totals filter = .ok totals

variable {ledger : Ledger} {lines : List MoveLine}
  {sums : String → List MoveLine → Option AccountTotals} {bounds : Bounds} {target : TargetMove}
  {extra : Filter}

namespace ResolvedToken

/-- The balance of a token over some lines: the amounts of its accounts, in ascending order of their
codes, none where no account has totals. -/
def balanceOver (member : ResolvedToken) (lines : List MoveLine)
    (sums : String → List MoveLine → Option AccountTotals) (bounds : Bounds) (target : TargetMove)
    (extra : Filter) : Option Float :=
  match member.accounts.filterMap fun code =>
      sums code (lines.filter fun line =>
        line.account == code && member.counts bounds target extra line) with
  | [] => none
  | found => some ((found.map member.token.side.amount).foldl (· + ·) 0)

variable {member : ResolvedToken}

theorem balanceOver_of_isEmpty (none : member.accounts = []) :
    member.balanceOver lines sums bounds target extra = Option.none := by
  rw [balanceOver, none]
  rfl

/-- A filter that a token shares with others gives it its own balance, if on its accounts the filter
accepts the lines that it counts. -/
theorem balance_eq_balanceOver (sound : ledger.SumsPerAccount lines sums) {filter : Filter}
    {totals : List AccountTotals} (asked : ledger.totals filter = .ok totals)
    (agrees : ∀ line, line.account ∈ member.accounts →
      Filter.matches line.field filter = member.counts bounds target extra line) :
    member.balance totals = member.balanceOver lines sums bounds target extra := by
  have same : member.accounts.filterMap
        (Table.ofEntries (totals.map fun total => (total.account, total))).get? =
      member.accounts.filterMap fun code => sums code (lines.filter fun line =>
        line.account == code && member.counts bounds target extra line) := by
    refine List.filterMap_congr fun code own => ?_
    rw [sound filter totals asked]
    congr 1
    refine List.filter_congr fun line _ => ?_
    by_cases here : line.account = code
    · rw [agrees line (here ▸ own)]
    · rw [beq_eq_false_iff_ne.2 here, Bool.false_and, Bool.false_and]
  unfold balance balanceOver
  dsimp only
  rewrite [same]
  rfl

end ResolvedToken

/-! ## Balances in the totals of a group -/

/-- A balance that a ledger gives a token: none if the token picks no account, else that of its
accounts in the totals of a group in which the token belongs. -/
inductive ResolvedToken.Counted (ledger : Ledger) (bounds : Bounds) (common : Filter)
    (member : ResolvedToken) : Option Float → Prop where
  | none (empty : member.accounts = []) : Counted ledger bounds common member none
  | some {group : TokenGroup} {totals : List AccountTotals} (inside : member ∈ group.members)
    (fits : group.Fits member.token)
    (asked : ledger.totals (group.lineFilter bounds common) = .ok totals) :
    Counted ledger bounds common member (member.balance totals)

/-- Where totals are made of the lines of each account, a token has one balance only. -/
theorem ResolvedToken.Counted.eq_balanceOver (sound : ledger.SumsPerAccount lines sums)
    {member : ResolvedToken} {balance : Option Float}
    (h : member.Counted ledger bounds (commonFilter target extra) balance) :
    balance = member.balanceOver lines sums bounds target extra := by
  cases h with
  | none empty => rw [balanceOver_of_isEmpty empty]
  | some inside fits asked => exact balance_eq_balanceOver sound asked (fits.agrees inside)

namespace TokenGroup

/-- What is found for groups of tokens: the balances of their members in the totals of each. -/
theorem forall₂_of_runs_mapM_balances {common : Filter} {groups : List TokenGroup}
    {found : List (List (Nat × Option Float))} {t t' : Trace}
    (h : Runs (groups.mapM (TokenGroup.balances ledger bounds common)) t found t') :
    List.Forall₂ (fun group entries => ∃ totals,
      ledger.totals (group.lineFilter bounds common) = .ok totals ∧
        entries = group.members.map fun member => (member.index, member.balance totals))
      groups found := by
  refine (forall₂_of_runs_mapM h).imp fun group entries => ?_
  rintro ⟨u, u', run⟩
  obtain ⟨⟨⟩, v, -, run⟩ := runs_bind.1 run
  obtain ⟨⟨⟩, w, -, run⟩ := runs_bind.1 run
  obtain ⟨totals, x, asked, run⟩ := runs_bind.1 run
  obtain ⟨rfl, -⟩ := runs_pure.1 run
  exact ⟨totals, (Traced.runs_ofResult.1 asked).1, rfl⟩

/-- A ledger that answers is asked once for each group. -/
theorem exists_runs_mapM_balances (answers : ledger.Answers) (bounds : Bounds) (common : Filter)
    (groups : List TokenGroup) (t : Trace) :
    ∃ found t', Runs (groups.mapM (balances ledger bounds common)) t found t' ∧
      t'.aggregations = t.aggregations + groups.length := by
  induction groups generalizing t with
  | nil => exact ⟨[], t, runs_pure.2 ⟨rfl, rfl⟩, rfl⟩
  | cons group groups ih =>
    obtain ⟨totals, answer⟩ := answers (group.lineFilter bounds common)
    have first : ∃ entries u, Runs (group.balances ledger bounds common) t entries u ∧
        u.aggregations = t.aggregations + 1 :=
      ⟨_, _, runs_bind.2 ⟨(), _, Traced.runs_log.2 rfl, runs_bind.2 ⟨(), _,
        Traced.runs_countAggregation.2 rfl, runs_bind.2 ⟨totals, _,
        Traced.runs_ofResult.2 ⟨answer, rfl⟩, runs_pure.2 ⟨rfl, rfl⟩⟩⟩⟩, rfl⟩
    obtain ⟨entries, u, run, once⟩ := first
    obtain ⟨found, t', rest, more⟩ := ih u
    refine ⟨entries :: found, t', ?_, ?_⟩
    · rw [List.mapM_cons]
      exact runs_bind.2 ⟨_, u, run, runs_bind.2 ⟨_, t', rest, runs_pure.2 ⟨rfl, rfl⟩⟩⟩
    · rw [more, once, List.length_cons]
      omega

end TokenGroup

/-! ## All tokens of a registry -/

namespace Registry

/-- The pairs of a mode and an inline filter for which the ledger is asked. -/
def asked (registry : Registry) (accounts : List (List String)) : List (Mode × Filter) :=
  (TokenGroup.ofTokens (registry.resolvedTokens accounts)).map TokenGroup.key

variable {registry : Registry} {accounts : List (List String)}

theorem length_of_runs_balances {balances : Balances} {t t' : Trace}
    (h : Runs (registry.balances ledger bounds target extra) t balances t') :
    balances.length = registry.tokens.length := by
  obtain ⟨accounts', u, -, h⟩ := runs_bind.1 h
  obtain ⟨found, v, -, h⟩ := runs_bind.1 h
  obtain ⟨rfl, -⟩ := runs_pure.1 h
  rw [List.length_map, List.length_range]

/-- The balances of a registry are those found for the groups of its tokens, each at the position of
its token. -/
theorem balances_inv (looked : registry.accounts = some accounts) {balances : Balances} {t t' : Trace}
    (h : Runs (registry.balances ledger bounds target extra) t balances t') :
    ∃ found, Runs ((TokenGroup.ofTokens (registry.resolvedTokens accounts)).mapM
        (TokenGroup.balances ledger bounds (commonFilter target extra))) t found t' ∧
      ∀ member ∈ registry.resolvedTokens accounts,
        balances[member.index]? = some (List.lookup member.index found.flatten).join := by
  obtain ⟨accounts', u, resolved, h⟩ := runs_bind.1 h
  obtain ⟨found, v, asked, h⟩ := runs_bind.1 h
  obtain ⟨rfl, rfl⟩ := runs_pure.1 h
  obtain ⟨resolved, rfl⟩ := Traced.runs_ofResult.1 resolved
  rw [Registry.resolved, looked] at resolved
  cases resolved
  refine ⟨found, asked, fun member inside => ?_⟩
  rw [List.getElem?_map, List.getElem?_range (index_lt_of_mem_resolvedTokens inside),
    Option.map_some]

/-- At the position of each token stands a balance that the ledger gives it. -/
theorem counted_of_runs_balances (looked : registry.accounts = some accounts) {balances : Balances}
    {t t' : Trace} (h : Runs (registry.balances ledger bounds target extra) t balances t')
    {member : ResolvedToken} (inside : member ∈ registry.resolvedTokens accounts) :
    ∃ balance, balances[member.index]? = some balance ∧
      member.Counted ledger bounds (commonFilter target extra) balance := by
  obtain ⟨found, asked, positioned⟩ := registry.balances_inv looked h
  have each := TokenGroup.forall₂_of_runs_mapM_balances asked
  have groups := TokenGroup.ofTokens_groups (registry.resolvedTokens accounts)
  have distinct := registry.nodup_index_resolvedTokens accounts
  have keys : found.flatten.map Prod.fst =
      ((TokenGroup.ofTokens (registry.resolvedTokens accounts)).flatMap TokenGroup.members).map
        ResolvedToken.index := by
    have own : found.map (List.map Prod.fst) =
        (TokenGroup.ofTokens (registry.resolvedTokens accounts)).map fun group =>
          group.members.map ResolvedToken.index := by
      refine (map_eq_map_of_forall₂ each fun group entries => ?_).symm
      rintro ⟨totals, -, rfl⟩
      rw [List.map_map]
      rfl
    rw [List.map_flatten, own, List.map_flatMap, List.flatMap_def]
  refine ⟨_, positioned member inside, ?_⟩
  by_cases none : member.accounts = []
  · have absent : List.lookup member.index found.flatten = Option.none := by
      rw [List.lookup_eq_none_iff]
      intro entry stored
      have key : entry.1 ∈ found.flatten.map Prod.fst := List.mem_map_of_mem stored
      rw [keys] at key
      obtain ⟨other, grouped, own⟩ := List.mem_map.1 key
      obtain ⟨resolved, nonempty⟩ := List.mem_filter.1 (groups.members.mem_iff.1 grouped)
      rw [bne_iff_ne]
      intro same
      obtain rfl := List.inj_on_of_nodup_map distinct inside resolved (same.trans own.symm)
      simp [none] at nonempty
    rw [absent]
    exact .none none
  · have grouped : member ∈ (TokenGroup.ofTokens (registry.resolvedTokens accounts)).flatMap
        TokenGroup.members :=
      groups.members.mem_iff.2 (List.mem_filter.2 ⟨inside, by simpa using none⟩)
    obtain ⟨group, known, belongs⟩ := List.mem_flatMap.1 grouped
    obtain ⟨entries, given, totals, asked, rfl⟩ := exists_mem_of_forall₂ each known
    have nodup : (found.flatten.map Prod.fst).Nodup := by
      rw [keys, (groups.members.map _).nodup_iff]
      exact distinct.sublist (List.filter_sublist.map _)
    rw [lookup_eq_some_of_mem nodup
      (List.mem_flatten.2 ⟨_, given, List.mem_map_of_mem belongs⟩)]
    exact .some belongs (groups.fits group known member belongs) asked

/-- The balance of a token is its own, whatever tokens are registered with it. -/
theorem getElem?_of_runs_balances (sound : ledger.SumsPerAccount lines sums)
    (looked : registry.accounts = some accounts) {balances : Balances} {t t' : Trace}
    (h : Runs (registry.balances ledger bounds target extra) t balances t')
    {member : ResolvedToken} (inside : member ∈ registry.resolvedTokens accounts) :
    balances[member.index]? = some (member.balanceOver lines sums bounds target extra) := by
  obtain ⟨balance, stands, counted⟩ := counted_of_runs_balances looked h inside
  rw [stands, counted.eq_balanceOver sound]

/-- A ledger that answers gives the balances, and is asked once for each group. -/
theorem exists_runs_balances (answers : ledger.Answers) (looked : registry.accounts = some accounts)
    (bounds : Bounds) (target : TargetMove) (extra : Filter) (t : Trace) :
    ∃ balances t', Runs (registry.balances ledger bounds target extra) t balances t' ∧
      t'.aggregations = t.aggregations + (registry.asked accounts).length := by
  obtain ⟨found, t', run, counted⟩ := TokenGroup.exists_runs_mapM_balances answers bounds
    (commonFilter target extra) (TokenGroup.ofTokens (registry.resolvedTokens accounts)) t
  have resolved : Runs (Traced.ofResult registry.resolved) t accounts t := by
    rw [Traced.runs_ofResult, Registry.resolved, looked]
    exact ⟨rfl, rfl⟩
  refine ⟨_, t', runs_bind.2 ⟨accounts, t, resolved, runs_bind.2 ⟨_, t', run,
    runs_pure.2 ⟨rfl, rfl⟩⟩⟩, ?_⟩
  rw [counted, asked, List.length_map]

end Registry

end KpiReport
