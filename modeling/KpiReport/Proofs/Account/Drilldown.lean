import KpiReport.Account.Drilldown
import KpiReport.Proofs.Account.Counting
import KpiReport.Proofs.Account.Registration

/-!
# The lines behind a formula

The filter that shows the lines behind a formula is put together anew, with its own registry and
with alternatives in place of groups. It matches a line exactly if a token of the formula counts the
line, and the line has an amount on the token's side (`Registry.drilldownFilter_matches`).
-/

namespace KpiReport

/-- Whether a line has an amount on a side; every line counts for a balance. -/
def Side.shows (side : Side) (line : MoveLine) : Bool :=
  match side with
  | .balance => true
  | .credit => !(line.credit == 0)
  | .debit => !(line.debit == 0)

theorem FieldValue.equals_number (x y : Float) :
    (FieldValue.number x).equals (.number y) = (x == y) := by
  have order : (FieldValue.number x).equals (.number y) = (Value.floatOrder? x y == some .eq) := rfl
  rw [order, Value.floatOrder?]
  by_cases less : x < y
  · rw [if_pos less]
    rw [lt_iff_compare] at less
    by_contra other
    have equal : (x == y) = true := by
      cases same : x == y with
      | true => rfl
      | false =>
        rw [same] at other
        exact absurd rfl other
    have compared := compare_of_beq equal
    rw [less] at compared
    cases compared
  · rw [if_neg less]
    split
    · rename_i equal
      rw [equal]
      rfl
    · rename_i other
      rw [Bool.not_eq_true] at other
      rw [other]
      split <;> rfl

theorem Side.lineConditions_matches (side : Side) (line : MoveLine) :
    Filter.matches line.field side.lineConditions = side.shows line := by
  cases side with
  | balance => rfl
  | credit =>
    have credit : line.field MoveLine.creditField = .number line.credit := rfl
    rw [lineConditions, Filter.matches, Condition.matches, FilterOp.holds, credit,
      FieldValue.equals_number, Filter.matches, Bool.and_true]
    rfl
  | debit =>
    have debit : line.field MoveLine.debitField = .number line.debit := rfl
    rw [lineConditions, Filter.matches, Condition.matches, FilterOp.holds, debit,
      FieldValue.equals_number, Filter.matches, Bool.and_true]
    rfl

/-- With the conditions on all lines of a period, the filter of a token matches the lines that the
token counts and that have an amount on its side. -/
theorem ResolvedToken.lineFilter_matches (member : ResolvedToken) (bounds : Bounds)
    (target : TargetMove) (extra : Filter) (line : MoveLine) :
    (Filter.matches line.field (member.lineFilter bounds) &&
        Filter.matches line.field (commonFilter target extra)) =
      (member.counts bounds target extra line && member.token.side.shows line) := by
  rw [lineFilter, Filter.matches_append, Filter.matches, accountCondition_matches,
    Filter.matches_append, Side.lineConditions_matches, commonFilter_matches, counts]
  ac_rfl

theorem Filter.anyMatches_eq_any (record : String → FieldValue) (filters : List Filter) :
    Filter.anyMatches record filters = filters.any (Filter.matches record) := by
  induction filters with
  | nil => rfl
  | cons filter filters ih => rw [Filter.anyMatches, List.any_cons, ih]

/-- The filter of some alternatives matches what one of them matches. -/
theorem Filter.anyOf_matches (record : String → FieldValue) (alternatives : List Filter) :
    Filter.matches record (Filter.anyOf alternatives) =
      alternatives.any (Filter.matches record) := by
  rw [Filter.anyOf, Filter.matches, Condition.matches, Filter.anyMatches_eq_any, Filter.matches,
    Bool.and_true]

namespace Registry

theorem any_addAlternative (record : String → FieldValue) (alternatives : List Filter)
    (filter : Filter) :
    (addAlternative alternatives filter).any (Filter.matches record) =
      (alternatives.any (Filter.matches record) || Filter.matches record filter) := by
  unfold addAlternative
  split
  · rename_i known
    obtain ⟨other, inside, same⟩ := List.any_eq_true.1 known
    have agrees := Filter.matches_of_same record same
    rw [← agrees]
    cases matched : Filter.matches record other with
    | false => rw [Bool.or_false]
    | true =>
      rw [Bool.or_true]
      exact List.any_eq_true.2 ⟨other, inside, matched⟩
  · rw [List.any_append, List.any_cons, List.any_nil, Bool.or_false]

/-- Alternatives that are left out match nothing that the others do not match. -/
theorem any_foldl_addAlternative (record : String → FieldValue) (filters alternatives : List Filter) :
    (filters.foldl addAlternative alternatives).any (Filter.matches record) =
      (alternatives.any (Filter.matches record) || filters.any (Filter.matches record)) := by
  induction filters generalizing alternatives with
  | nil => simp
  | cons filter filters ih =>
    rw [List.foldl_cons, ih, any_addAlternative, List.any_cons, Bool.or_assoc]

theorem foldl_addAlternative_ne_nil {filters alternatives : List Filter}
    (h : filters ≠ [] ∨ alternatives ≠ []) : filters.foldl addAlternative alternatives ≠ [] := by
  induction filters generalizing alternatives with
  | nil => exact h.resolve_left (fun ne => ne rfl)
  | cons filter filters ih =>
    refine ih (Or.inr ?_)
    unfold addAlternative
    split
    · rename_i known
      rintro rfl
      cases known
    · simp

/-- The filter of a formula with tokens matches what the filter of a token and the conditions on all
lines match. -/
theorem drilldownFilter_eq {registry : Registry} {accounts : List (List String)}
    {formula : String} {tokens : List AccountToken} {members : List ResolvedToken}
    (looked : registry.accounts = some accounts) (found : AccountToken.tokensOf formula = .ok tokens)
    (lookUp : tokens.mapM (registry.lookUp accounts) = .ok members) (nonempty : members ≠ [])
    (bounds : Bounds) (target : TargetMove) (extra : Filter) :
    ∃ filter, registry.drilldownFilter formula bounds target extra = .ok (some filter) ∧
      ∀ record, Filter.matches record filter =
        ((members.any fun member => Filter.matches record (member.lineFilter bounds)) &&
          Filter.matches record (commonFilter target extra)) := by
  have resolved : registry.resolved = .ok accounts := by
    rw [Registry.resolved, looked]
    rfl
  have all (record : String → FieldValue) :
      ((members.map fun member => member.lineFilter bounds).foldl addAlternative []).any
        (Filter.matches record) =
      members.any fun member => Filter.matches record (member.lineFilter bounds) := by
    rw [any_foldl_addAlternative, List.any_nil, Bool.false_or, List.any_map]
    rfl
  have some : (members.map fun member => member.lineFilter bounds).foldl addAlternative [] ≠ [] :=
    foldl_addAlternative_ne_nil (Or.inl (by simpa using nonempty))
  simp only [drilldownFilter, resolved, found, lookUp, bind, Except.bind]
  generalize (members.map fun member => member.lineFilter bounds).foldl addAlternative [] =
    alternatives at all some
  match alternatives with
  | [] => exact absurd rfl some
  | [only] =>
    refine ⟨only ++ commonFilter target extra, rfl, fun record => ?_⟩
    rw [← all, Filter.matches_append, List.any_cons, List.any_nil, Bool.or_false]
  | first :: second :: more =>
    refine ⟨_, rfl, fun record => ?_⟩
    rw [← all, Filter.matches_append, Filter.anyOf_matches]

theorem lookUp_eq {registry : Registry} (sound : registry.Sound) {chart : Chart}
    {token : AccountToken} (member : token ∈ registry.tokens) :
    ∃ index, registry.lookUp (registry.codesIn chart) token =
      .ok ⟨index, token, chart.select token.selectors⟩ := by
  cases place : registry.index? token.text with
  | none => exact absurd (List.mem_map_of_mem member) (index?_eq_none_iff.1 place)
  | some index =>
    obtain ⟨other, known, same⟩ := index?_eq_some place
    obtain rfl := (sound.written other (List.mem_of_getElem? known)).eq_of_text
      (sound.written token member) same
    refine ⟨index, ?_⟩
    have given : registry.index other = .ok index := by
      rw [Registry.index, place]
      rfl
    have picked : (registry.codesIn chart).getD index [] = chart.select other.selectors := by
      simp [codesIn, known]
    rw [lookUp, given, Except.map, known, picked]
    rfl

/-- **The lines behind a formula are those that its tokens count** and that have an amount on the
side of the token. -/
theorem drilldownFilter_matches {registry : Registry} (sound : registry.Sound) {chart : Chart}
    (looked : registry.accounts = some (registry.codesIn chart)) {formula : String}
    {tokens : List AccountToken} (found : AccountToken.tokensOf formula = .ok tokens)
    (inside : ∀ token ∈ tokens, token ∈ registry.tokens) (nonempty : tokens ≠ []) (bounds : Bounds)
    (target : TargetMove) (extra : Filter) :
    ∃ filter, registry.drilldownFilter formula bounds target extra = .ok (some filter) ∧
      ∀ line : MoveLine, Filter.matches line.field filter = true ↔
        ∃ member : ResolvedToken, member.token ∈ tokens ∧
          member.accounts = chart.select member.token.selectors ∧
          member.counts bounds target extra line = true ∧
          member.token.side.shows line = true := by
  have each : ∀ token ∈ tokens, ∃ index, registry.lookUp (registry.codesIn chart) token =
      .ok ⟨index, token, chart.select token.selectors⟩ :=
    fun token member => lookUp_eq sound (inside token member)
  obtain ⟨members, lookUp⟩ := exists_mapM_eq_ok fun token member =>
    (each token member).imp' (fun index => ResolvedToken.mk index token _) fun _ => id
  have some : members ≠ [] := by
    rintro rfl
    exact nonempty (List.forall₂_nil_right_iff.1 (mapM_eq_ok.1 lookUp))
  obtain ⟨filter, made, same⟩ := drilldownFilter_eq looked found lookUp some bounds target extra
  refine ⟨filter, made, fun line => ?_⟩
  rw [same, Bool.and_eq_true, List.any_eq_true]
  constructor
  · rintro ⟨⟨member, known, own⟩, common⟩
    have both := member.lineFilter_matches bounds target extra line
    rw [own, common, Bool.and_self] at both
    obtain ⟨token, listed, given⟩ := exists_of_mem_mapM lookUp known
    obtain ⟨index, given'⟩ := each token listed
    rw [given] at given'
    cases given'
    exact ⟨_, listed, rfl, (Bool.and_eq_true _ _).mp both.symm⟩
  · rintro ⟨⟨position, token, codes⟩, listed, accounts, counted, shown⟩
    obtain rfl : codes = chart.select token.selectors := accounts
    obtain ⟨index, given⟩ := each token listed
    obtain ⟨member, known, given'⟩ := exists_mem_of_mapM lookUp listed
    rw [given] at given'
    cases given'
    -- what a token counts does not depend on its position
    have both := ResolvedToken.lineFilter_matches ⟨index, token, chart.select token.selectors⟩
      bounds target extra line
    rw [show ResolvedToken.counts ⟨index, token, _⟩ bounds target extra line = true from counted,
      shown, Bool.and_true, Bool.and_eq_true] at both
    exact ⟨⟨_, known, both.1⟩, both.2⟩

end Registry

end KpiReport
