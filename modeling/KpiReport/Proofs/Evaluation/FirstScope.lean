import KpiReport.Evaluation.Template
import KpiReport.Proofs.Definition.Validation
import KpiReport.Proofs.Formula.Written
import KpiReport.Proofs.Runs

/-!
# The names of the first scope

Before the passes start, only the names of the queries and the private names of the account tokens
are bound (`Sources.origin_of_firstScope`). A valid template keeps the names of its KPIs apart from
both.
-/

namespace KpiReport

open KpiReport.Text

/-! ## Private names -/

namespace Registry

theorem toList_privateName (index : Nat) :
    (privateName index).toList = "__acc_".toList ++ Nat.toDigits 10 index := by
  simp [privateName, toString, Nat.repr]

theorem privateName_injective {m n : Nat} (h : privateName m = privateName n) : m = n := by
  have digits : Nat.toDigits 10 m = Nat.toDigits 10 n := by
    have same := congrArg String.toList h
    rwa [toList_privateName, toList_privateName, List.append_cancel_left_eq] at same
  rw [← Nat.ofDigitChars_ten_toDigits (n := m), digits, Nat.ofDigitChars_ten_toDigits]

theorem isPrivate_privateName (index : Nat) : Template.isPrivate (privateName index) = true := by
  unfold Template.isPrivate
  rw [toList_privateName]
  rfl

theorem dotless_privateName (index : Nat) : Dotless (privateName index) := by
  intro dot
  rw [toList_privateName, List.mem_append] at dot
  rcases dot with dot | dot
  · exact absurd dot (by decide)
  · have digit : ('.' : Char).isDigit = true := Nat.isDigit_of_mem_toDigits (by decide) (by decide) dot
    exact absurd digit (by decide)

end Registry

/-! ## Bindings -/

/-- Where a binding of the first scope comes from. -/
inductive Origin (template : Template) : String → Prop where
  | query (query : Query) (asked : query ∈ template.queries) : Origin template query.name
  | token (index : Nat) : Origin template (Registry.privateName index)

namespace Query

theorem origin_of_fetchInto {store : RecordStore} {offset : Calendar.UtcOffset} {bounds : Bounds}
    {extras : Table Filter} {queries : List Query} {scope after : Scope} {result : Result Unit}
    {t t' : Trace}
    (h : (fetchInto store offset bounds extras scope queries).run t = ((after, result), t'))
    {x : String} (bound : after.get? x ≠ none) :
    scope.get? x ≠ none ∨ ∃ query ∈ queries, x = query.name := by
  induction queries generalizing scope t with
  | nil =>
    cases h
    exact Or.inl bound
  | cons query queries ih =>
    rcases fetchInto_cons_inv h with ⟨e, -, rfl, -⟩ | ⟨value, u, -, more⟩
    · exact Or.inl bound
    · rcases ih more with known | ⟨other, asked, same⟩
      · rw [Scope.get?_insert] at known
        by_cases own : x = query.name
        · exact Or.inr ⟨query, List.mem_cons_self, own⟩
        · rw [if_neg own] at known
          exact Or.inl known
      · exact Or.inr ⟨other, List.mem_cons_of_mem _ asked, same⟩

end Query

namespace Balances

theorem origin_of_entriesFrom {balances : Balances} {index : Nat} {x : String} {value : Value}
    (h : (x, value) ∈ balances.entriesFrom index) : ∃ n, x = Registry.privateName n := by
  induction balances generalizing index with
  | nil => cases h
  | cons balance balances ih =>
    rcases List.mem_cons.1 h with same | h
    · cases same
      exact ⟨index, rfl⟩
    · exact ih h

theorem origin_of_bind {balances : Balances} {scope : Scope} {x : String}
    (bound : (balances.bind scope).get? x ≠ none) :
    scope.get? x ≠ none ∨ ∃ n, x = Registry.privateName n := by
  rw [bind, Scope.get?_insertAll] at bound
  cases given : List.lookup x (balances.entriesFrom 0).reverse with
  | none =>
    rw [given, Option.none_or] at bound
    exact Or.inl bound
  | some value =>
    obtain ⟨before, after, split, -⟩ := List.lookup_eq_some_iff.1 given
    have member : (x, value) ∈ (balances.entriesFrom 0).reverse := by
      rw [split]
      simp
    exact Or.inr (origin_of_entriesFrom (List.mem_reverse.1 member))

theorem lookup_entriesFrom (balances : Balances) (index k : Nat) :
    List.lookup (Registry.privateName k) (balances.entriesFrom index).reverse =
      if index ≤ k then (balances[k - index]?).map Value.ofFloat? else none := by
  induction balances generalizing index with
  | nil => simp [entriesFrom]
  | cons balance balances ih =>
    rw [entriesFrom, List.reverse_cons, List.lookup_append, ih, List.lookup_cons]
    have differ (ne : k ≠ index) :
        (Registry.privateName k == Registry.privateName index) = false :=
      beq_eq_false_iff_ne.2 fun same => ne (Registry.privateName_injective same)
    rcases Nat.lt_trichotomy index k with later | rfl | earlier
    · have position : k - index = (k - (index + 1)) + 1 := by omega
      rw [if_pos (Nat.succ_le_of_lt later), if_pos (Nat.le_of_lt later), position,
        List.getElem?_cons_succ, differ (by omega)]
      exact Option.or_none
    · rw [if_neg (by omega), if_pos (Nat.le_refl index), Nat.sub_self, beq_self_eq_true]
      rfl
    · rw [if_neg (by omega), if_neg (by omega), differ (by omega)]
      rfl

/-- A private name is bound to the balance at its position. -/
theorem get?_bind {balances : Balances} {index : Nat} {balance : Option Float}
    (known : balances[index]? = some balance) (scope : Scope) :
    (balances.bind scope).get? (Registry.privateName index) = some (Value.ofFloat? balance) := by
  rw [bind, Scope.get?_insertAll, lookup_entriesFrom, if_pos (Nat.zero_le index), Nat.sub_zero,
    known]
  rfl

end Balances

namespace Sources

variable {sources : Sources} {self : Instance} {column : Column} {template : Template}
  {registry : Registry} {base : Scope} {t t' : Trace}

/-- The first scope binds the private names to the balances of the account tokens. -/
theorem balances_of_firstScope
    (h : Runs (sources.firstScope self column template registry) t base t') :
    ∃ balances u u', Runs (registry.balances sources.ledger column.bounds self.targetMove
        column.period.moveLineFilter) u balances u' ∧
      ∀ (index : Nat) (balance : Option Float), balances[index]? = some balance →
        base.get? (Registry.privateName index) = some (Value.ofFloat? balance) := by
  obtain ⟨offset, u, -, h⟩ := runs_bind.1 h
  obtain ⟨⟨scope, fetched⟩, v, -, h⟩ := runs_bind.1 h
  obtain ⟨⟨⟩, w, -, h⟩ := runs_bind.1 h
  obtain ⟨balances, z, run, h⟩ := runs_bind.1 h
  obtain ⟨rfl, rfl⟩ := runs_pure.1 h
  exact ⟨balances, w, _, run, fun _ _ known => Balances.get?_bind known scope⟩

theorem origin_of_firstScope (h : Runs (sources.firstScope self column template registry) t base t')
    {x : String} (bound : base.get? x ≠ none) : Origin template x := by
  obtain ⟨offset, u, -, h⟩ := runs_bind.1 h
  obtain ⟨⟨scope, fetched⟩, v, fetch, h⟩ := runs_bind.1 h
  obtain ⟨⟨⟩, w, -, h⟩ := runs_bind.1 h
  obtain ⟨balances, z, -, h⟩ := runs_bind.1 h
  obtain ⟨rfl, rfl⟩ := runs_pure.1 h
  rcases Balances.origin_of_bind bound with known | ⟨n, rfl⟩
  · have fetched' := Traced.runs_lift.1 fetch
    rcases Query.origin_of_fetchInto fetched' known with empty | ⟨query, asked, rfl⟩
    · exact absurd rfl empty
    · exact .query query asked
  · exact .token n

/-- In a valid template, no KPI has a name of the first scope. -/
theorem unbound_of_firstScope (valid : template.validate = .ok ())
    (h : Runs (sources.firstScope self column template registry) t base t') {kpi : Kpi}
    (member : kpi ∈ template.kpis) : base.get? kpi.name = none := by
  have names := Template.names_of_validate valid
  by_contra bound
  generalize same : kpi.name = x at bound
  cases origin_of_firstScope h bound with
  | query query asked => exact names.query_ne_kpi query asked kpi member same.symm
  | token index =>
    have visible := (names.nameable_kpi kpi member).notPrivate
    rw [same, Registry.isPrivate_privateName] at visible
    cases visible

/-- In a valid template, the names of the first scope have no dots. -/
theorem dotless_of_firstScope (valid : template.validate = .ok ())
    (h : Runs (sources.firstScope self column template registry) t base t') {x : String}
    (bound : base.get? x ≠ none) : Dotless x := by
  have names := Template.names_of_validate valid
  cases origin_of_firstScope h bound with
  | query query asked => exact dotless_of_isIdentifier (names.nameable_query query asked).isIdentifier
  | token index => exact Registry.dotless_privateName index

end Sources

end KpiReport
