import KpiReport.Account.Drilldown
import KpiReport.Ledger.Book
import KpiReport.Proofs.Account.Crossover
import KpiReport.Proofs.Account.Ledgers
import Mathlib.Data.List.GetD
import Mathlib.Data.List.Induction

/-!
# Registries that are changed in place

A host keeps one registry and calls it again and again, and some of the calls fail. Kept in place,
a registry has four parts that different calls change: the tokens, a table of the positions of their
texts, the accounts of the tokens as they were last looked up, and a mark that these are the
accounts of all tokens (`Processor`). `Processor.Consistent` says what ties the tokens to the table,
and `Processor.Selected` what ties the accounts to the tokens while the mark is set. Every call
keeps both, and does to the registry with these parts what `Registry.register` and
`Registry.resolve` do (`Processor.Consistent.simulates`).

The main statement, `Processor.after_sound`, is about any calls in any order, and about what is read
from the parts afterwards.
-/

namespace KpiReport

/-- A registry in parts that are changed in place: its tokens, the positions of their texts, the
accounts of the tokens when they were last looked up, and whether no token was added since. -/
structure Processor where
  tokens : List AccountToken := []
  positions : Table Nat := []
  accounts : List (List String) := []
  finalized : Bool := false

namespace Processor

/-! ## Calls -/

/-- Adds a token at the end, unless one with its text is there. -/
def insert (processor : Processor) (token : AccountToken) : Processor :=
  if processor.positions.contains token.text then processor
  else
    { processor with
      tokens := processor.tokens ++ [token]
      positions := processor.positions.insert token.text processor.tokens.length
      finalized := false }

/-- A call that changes a processor. -/
inductive Call where
  /-- Adds the account tokens of a formula. -/
  | parse (formula : String)
  /-- Looks up the accounts of every token below a root. -/
  | finalize (ledger : Ledger) (root : String)

/-- The steps of a call; what a step has changed stays changed when a later one fails. -/
def Call.steps : Call → ExceptT ReportError (StateM Processor) Unit
  | parse formula => do
    let tokens ← ExceptT.mk (pure (AccountToken.tokensOf formula))
    tokens.forM fun token => modify fun processor => processor.insert token
  | finalize ledger root => do
    let chart ← ExceptT.mk (pure (ledger.accountsUnder root))
    modify fun processor =>
      { processor with
        accounts := processor.tokens.map fun token => chart.select token.selectors
        finalized := true }

/-- What a call answers, and the processor that it leaves. -/
def Call.run (call : Call) (processor : Processor) : Result Unit × Processor :=
  call.steps.run.run processor

/-- The processor after some calls on a new one, whether they succeed or fail. -/
def after (calls : List Call) : Processor :=
  calls.foldl (fun processor call => (call.run processor).2) {}

/-- The chart that a call looks the accounts up in, if it gets one. -/
def Call.chart? : Call → Option Chart
  | parse _ => none
  | finalize ledger root => (ledger.accountsUnder root).toOption

/-- The chart of the last call that got one. -/
def lastChart? (calls : List Call) : Option Chart :=
  calls.reverse.findSome? Call.chart?

/-- The registry with the parts of a processor. -/
def registry (processor : Processor) : Registry where
  tokens := processor.tokens
  accounts := if processor.finalized then some processor.accounts else none

/-- What a call does to a registry. -/
def Call.ofRegistry (registry : Registry) : Call → Traced Registry
  | parse formula => Traced.ofResult (registry.register formula)
  | finalize ledger root => registry.resolve ledger root

theorem run_forM_insert (tokens : List AccountToken) (processor : Processor) :
    (tokens.forM fun token => (modify fun processor => processor.insert token :
      ExceptT ReportError (StateM Processor) Unit)).run.run processor =
        (.ok (), tokens.foldl insert processor) := by
  induction tokens generalizing processor with
  | nil => rfl
  | cons token tokens ih => exact ih (processor.insert token)

/-- A formula is scanned before the first token is added. -/
theorem run_parse (formula : String) (processor : Processor) :
    (Call.parse formula).run processor =
      match AccountToken.tokensOf formula with
      | .error e => (.error e, processor)
      | .ok tokens => (.ok (), tokens.foldl insert processor) := by
  simp only [Call.run, Call.steps, ExceptT.run_bind, StateT.run_bind]
  cases AccountToken.tokensOf formula with
  | error e => rfl
  | ok tokens => exact run_forM_insert tokens processor

/-- A chart is asked for before the accounts are changed. -/
theorem run_finalize (ledger : Ledger) (root : String) (processor : Processor) :
    (Call.finalize ledger root).run processor =
      match ledger.accountsUnder root with
      | .error e => (.error e, processor)
      | .ok chart => (.ok (),
        { processor with
          accounts := processor.registry.codesIn chart
          finalized := true }) := by
  simp only [Call.run, Call.steps, ExceptT.run_bind, StateT.run_bind]
  cases ledger.accountsUnder root with
  | error e => rfl
  | ok chart => rfl

theorem after_concat (calls : List Call) (call : Call) :
    after (calls ++ [call]) = (call.run (after calls)).2 := by
  rw [after, List.foldl_append]
  rfl

theorem lastChart?_concat (calls : List Call) (call : Call) :
    lastChart? (calls ++ [call]) = call.chart?.or (lastChart? calls) := by
  rw [lastChart?, List.reverse_concat, List.findSome?_cons]
  cases call.chart? <;> rfl

/-! ## Tokens and positions -/

/-- The table of positions belongs to the tokens, of which no two have one text. -/
structure Consistent (processor : Processor) : Prop where
  texts : (processor.tokens.map AccountToken.text).Nodup
  written : ∀ token ∈ processor.tokens, token.Written
  positions : ∀ text index, processor.positions.get? text = some index ↔
    ∃ token, processor.tokens[index]? = some token ∧ token.text = text

variable {processor : Processor}

theorem consistent_new : Consistent {} where
  texts := List.nodup_nil
  written := nofun
  positions := fun text index => iff_of_false nofun (by simp)

theorem insert_of_known {token : AccountToken} {index : Nat}
    (known : processor.positions.get? token.text = some index) :
    processor.insert token = processor := by
  rw [insert, Table.contains, known]
  rfl

theorem insert_of_new {token : AccountToken} (new : processor.positions.get? token.text = none) :
    processor.insert token = { processor with
      tokens := processor.tokens ++ [token]
      positions := processor.positions.insert token.text processor.tokens.length
      finalized := false } := by
  rw [insert, Table.contains, new]
  rfl

theorem Consistent.mem_texts_iff (h : processor.Consistent) {text : String} :
    text ∈ processor.tokens.map AccountToken.text ↔
      ∃ index, processor.positions.get? text = some index := by
  rw [List.mem_map]
  simp only [h.positions]
  constructor
  · rintro ⟨token, member, same⟩
    obtain ⟨index, known⟩ := List.getElem?_of_mem member
    exact ⟨index, token, known, same⟩
  · rintro ⟨index, token, known, same⟩
    exact ⟨token, List.mem_of_getElem? known, same⟩

theorem Consistent.insert (h : processor.Consistent) {token : AccountToken}
    (written : token.Written) : (processor.insert token).Consistent := by
  cases known : processor.positions.get? token.text with
  | some index => rwa [insert_of_known known]
  | none =>
    have fresh : token.text ∉ processor.tokens.map AccountToken.text := by
      rw [h.mem_texts_iff, known]
      rintro ⟨index, found⟩
      cases found
    rw [insert_of_new known]
    refine ⟨?texts, ?written, ?positions⟩
    case texts =>
      rw [List.map_append, List.nodup_append]
      refine ⟨h.texts, List.nodup_singleton _, ?_⟩
      rintro text old _ new rfl
      rw [List.map_singleton, List.mem_singleton] at new
      exact fresh (new ▸ old)
    case written =>
      intro other member
      rcases List.mem_append.1 member with old | new
      · exact h.written other old
      · rwa [List.mem_singleton.1 new]
    case positions =>
      intro text index
      simp only [Table.get?_insert, getElem?_concat_eq_some_iff]
      split
      · rename_i own
        subst own
        -- no token before has the text
        constructor
        · rintro ⟨⟩
          exact ⟨token, .inr ⟨rfl, rfl⟩, rfl⟩
        · rintro ⟨other, old | ⟨rfl, -⟩, same⟩
          · exact absurd (same ▸ List.mem_map_of_mem (List.mem_of_getElem? old)) fresh
          · rfl
      · rename_i other
        rw [h.positions]
        refine exists_congr fun found => and_congr_left fun same => (or_iff_left ?_).symm
        rintro ⟨-, rfl⟩
        exact other same.symm

/-- Adding tokens keeps the processor consistent and every position. -/
theorem Consistent.foldl_insert {tokens : List AccountToken}
    (written : ∀ token ∈ tokens, token.Written) (h : processor.Consistent) :
    (tokens.foldl Processor.insert processor).Consistent := by
  induction tokens generalizing processor with
  | nil => exact h
  | cons token tokens ih =>
    obtain ⟨first, rest⟩ := List.forall_mem_cons.1 written
    exact ih rest (h.insert first)

theorem Consistent.run (h : processor.Consistent) (call : Call) :
    (call.run processor).2.Consistent := by
  cases call with
  | parse formula =>
    rw [run_parse]
    split
    · exact h
    · rename_i tokens found
      exact h.foldl_insert fun token => AccountToken.written_of_tokensOf found
  | finalize ledger root =>
    rw [run_finalize]
    split
    · exact h
    · exact ⟨h.texts, h.written, h.positions⟩

theorem consistent_after (calls : List Call) : (after calls).Consistent := by
  induction calls using List.reverseRecOn with
  | nil => exact consistent_new
  | append_singleton calls call ih =>
    rw [after_concat]
    exact ih.run call

/-! ## Positions last -/

theorem get?_insert {token : AccountToken} {text : String} {index : Nat}
    (known : processor.positions.get? text = some index) :
    (processor.insert token).positions.get? text = some index := by
  cases found : processor.positions.get? token.text with
  | some _ => rwa [insert_of_known found]
  | none =>
    rw [insert_of_new found, Table.get?_insert, if_neg, known]
    rintro rfl
    rw [known] at found
    cases found

theorem get?_run {text : String} {index : Nat} (known : processor.positions.get? text = some index)
    (call : Call) : (call.run processor).2.positions.get? text = some index := by
  cases call with
  | parse formula =>
    rw [run_parse]
    split
    · exact known
    · rename_i tokens found
      clear found
      induction tokens generalizing processor with
      | nil => exact known
      | cons token tokens ih => exact ih (get?_insert known)
  | finalize ledger root =>
    rw [run_finalize]
    split <;> exact known

/-- The position of a text never changes. -/
theorem get?_after_append {calls : List Call} {text : String} {index : Nat}
    (known : (after calls).positions.get? text = some index) (later : List Call) :
    (after (calls ++ later)).positions.get? text = some index := by
  induction later using List.reverseRecOn with
  | nil => rwa [List.append_nil]
  | append_singleton later call ih =>
    rw [← List.append_assoc, after_concat]
    exact get?_run ih call

/-! ## Accounts -/

/-- While the mark is set, the accounts are those that the chart gives for the tokens. -/
def Selected (chart? : Option Chart) (processor : Processor) : Prop :=
  processor.finalized = true →
    ∃ chart, chart? = some chart ∧ processor.accounts = processor.registry.codesIn chart

/-- Adding tokens leaves the mark only if there is nothing to add. -/
theorem foldl_insert_of_finalized {tokens : List AccountToken}
    (marked : (tokens.foldl Processor.insert processor).finalized = true) :
    tokens.foldl Processor.insert processor = processor := by
  induction tokens generalizing processor with
  | nil => rfl
  | cons token tokens ih =>
    have rest := ih marked
    rw [List.foldl_cons] at marked ⊢
    rw [rest] at marked ⊢
    cases known : processor.positions.get? token.text with
    | some index => exact insert_of_known known
    | none =>
      rw [insert_of_new known] at marked
      cases marked

theorem Selected.run {chart? : Option Chart} (h : processor.Selected chart?) (call : Call) :
    (call.run processor).2.Selected (call.chart?.or chart?) := by
  cases call with
  | parse formula =>
    rw [run_parse]
    split
    · exact h
    · intro marked
      have same := foldl_insert_of_finalized marked
      dsimp only at marked ⊢
      rw [same] at marked ⊢
      exact h marked
  | finalize ledger root =>
    rw [run_finalize, Call.chart?]
    split
    · rename_i failed
      rw [failed]
      exact h
    · rename_i chart found
      rw [found]
      exact fun _ => ⟨chart, rfl, rfl⟩

theorem selected_after (calls : List Call) : (after calls).Selected (lastChart? calls) := by
  induction calls using List.reverseRecOn with
  | nil => exact nofun
  | append_singleton calls call ih =>
    rw [after_concat, lastChart?_concat]
    exact ih.run call

/-! ## The registry with the parts -/

theorem Consistent.index?_registry (h : processor.Consistent) (text : String) :
    processor.registry.index? text = processor.positions.get? text := by
  cases found : processor.registry.index? text with
  | none =>
    cases stored : processor.positions.get? text with
    | none => rfl
    | some index =>
      exact absurd (h.mem_texts_iff.2 ⟨index, stored⟩) (Registry.index?_eq_none_iff.1 found)
  | some index => exact ((h.positions text index).2 (Registry.index?_eq_some found)).symm

theorem Consistent.registry_insert (h : processor.Consistent) (token : AccountToken) :
    (processor.insert token).registry = processor.registry.add token := by
  rw [Registry.add, h.index?_registry]
  cases known : processor.positions.get? token.text with
  | some index => rw [insert_of_known known]
  | none =>
    rw [insert_of_new known]
    rfl

theorem Consistent.registry_foldl_insert {tokens : List AccountToken}
    (written : ∀ token ∈ tokens, token.Written) (h : processor.Consistent) :
    (tokens.foldl Processor.insert processor).registry =
      tokens.foldl Registry.add processor.registry := by
  induction tokens generalizing processor with
  | nil => rfl
  | cons token tokens ih =>
    obtain ⟨first, rest⟩ := List.forall_mem_cons.1 written
    rw [List.foldl_cons, List.foldl_cons, ← h.registry_insert, ih rest (h.insert first)]

/-- A call does to the registry what it does to the parts, and leaves the parts as they are where it
fails. -/
def Call.Simulated (call : Call) (processor : Processor) : Prop :=
  match call.run processor with
  | (.ok (), processor') => (call.ofRegistry processor.registry).Gives processor'.registry
  | (.error e, processor') => processor' = processor ∧ (call.ofRegistry processor.registry).Fails e

theorem Consistent.simulates (h : processor.Consistent) (call : Call) :
    call.Simulated processor := by
  unfold Call.Simulated
  cases call with
  | parse formula =>
    rw [run_parse]
    cases found : AccountToken.tokensOf formula with
    | error e =>
      refine ⟨rfl, Traced.Fails.ofResult ?_⟩
      rw [Registry.register, found]
      rfl
    | ok tokens =>
      refine Traced.Gives.ofResult ?_
      rw [Registry.register, found,
        h.registry_foldl_insert fun token => AccountToken.written_of_tokensOf found]
      rfl
  | finalize ledger root =>
    rw [run_finalize]
    cases found : ledger.accountsUnder root with
    | error e => exact ⟨rfl, (Traced.Fails.ofResult found).bind⟩
    | ok chart => exact Registry.gives_resolve found

/-- The registry with the parts is one that registrations and look-ups lead to. -/
theorem built_after (calls : List Call) : (after calls).registry.Built := by
  induction calls using List.reverseRecOn with
  | nil => exact .empty
  | append_singleton calls call ih =>
    have simulated := (consistent_after calls).simulates call
    rw [after_concat]
    unfold Call.Simulated at simulated
    split at simulated
    · rename_i processor' run
      obtain ⟨t, done⟩ := simulated {}
      rw [run]
      cases call with
      | parse formula => exact .register ih (Traced.runs_ofResult.1 done).1
      | finalize ledger root => exact .resolve ih done
    · rename_i e processor' run
      rw [run, simulated.1]
      exact ih

end Processor

/-! ## What is read from the parts -/

namespace Registry

variable {registry : Registry}

/-- The tokens of a formula that can be substituted are registered. -/
theorem index?_of_substitute {formula out : String} (h : registry.substitute formula = .ok out)
    {pieces : List Piece} (scanned : AccountToken.scan formula = .ok pieces) {token : AccountToken}
    (member : .token token ∈ pieces) : ∃ index, registry.index? token.text = some index := by
  unfold substitute at h
  rw [scanned] at h
  obtain ⟨texts, replaced, -⟩ := map_eq_ok.1 h
  obtain ⟨_, -, made⟩ := exists_mem_of_mapM replaced member
  obtain ⟨index, found, -⟩ := map_eq_ok.1 made
  exact ⟨index, eq_some_of_index found⟩

end Registry

namespace Processor

variable {processor : Processor}

/-- What is read from a processor. Nothing is, while the mark is not set. Otherwise there are
accounts at the position of every token; the balances bind the private name of each position to the
balance of the token there; where substitution writes that name, it does so for this token; and the
lines behind a formula are those of its tokens with the accounts at their positions. -/
structure Reads (processor : Processor) (ledger : Ledger) (bounds : Bounds) (target : TargetMove)
    (extra : Filter) : Prop where
  unmarked : processor.finalized = false →
    processor.registry.resolved = .error (.malformedToken "" .unresolved)
  length : processor.finalized = true → processor.accounts.length = processor.tokens.length
  balances : processor.finalized = true → ∀ balances t t',
    Runs (processor.registry.balances ledger bounds target extra) t balances t' →
      balances.length = processor.tokens.length ∧ ∀ (scope : Scope) (index : Nat) token codes,
        processor.tokens[index]? = some token → processor.accounts[index]? = some codes →
          ∃ balance, ResolvedToken.Counted ledger bounds (commonFilter target extra)
              ⟨index, token, codes⟩ balance ∧
            (balances.bind scope).get? (Registry.privateName index) =
              some (Value.ofFloat? balance)
  substitute : ∀ formula out, processor.registry.substitute formula = .ok out →
    ∃ pieces, AccountToken.scan formula = .ok pieces ∧
      out.toList = AccountToken.fill processor.registry.nameOf pieces ∧
      ∀ token, .token token ∈ pieces → ∃ index, processor.tokens[index]? = some token ∧
        processor.positions.get? token.text = some index ∧
        processor.registry.nameOf token = Registry.privateName index
  drilldown : processor.finalized = true → ∀ formula found,
    processor.registry.drilldownFilter formula bounds target extra = .ok found →
      ∃ tokens members, AccountToken.tokensOf formula = .ok tokens ∧
        tokens.mapM (processor.registry.lookUp processor.accounts) = .ok members ∧
        List.Forall₂ (fun token member => member.token = token ∧
          processor.positions.get? token.text = some member.index ∧
          processor.tokens[member.index]? = some token ∧
          processor.accounts[member.index]? = some member.accounts) tokens members

/-- A token of a formula that is registered stands at its position. -/
theorem Consistent.getElem?_of_get? (h : processor.Consistent) {token : AccountToken}
    (written : token.Written) {index : Nat}
    (known : processor.positions.get? token.text = some index) :
    processor.tokens[index]? = some token := by
  obtain ⟨other, stands, same⟩ := (h.positions _ _).1 known
  rwa [← (h.written other (List.mem_of_getElem? stands)).eq_of_text written same]

/-- A token is looked up at its own position, where its accounts are, too. -/
theorem Consistent.member_of_lookUp (h : processor.Consistent)
    (length : processor.accounts.length = processor.tokens.length) {token : AccountToken}
    (written : token.Written) {member : ResolvedToken}
    (found : processor.registry.lookUp processor.accounts token = .ok member) :
    member.token = token ∧ processor.positions.get? token.text = some member.index ∧
      processor.tokens[member.index]? = some token ∧
      processor.accounts[member.index]? = some member.accounts := by
  obtain ⟨index, placed, rfl⟩ := map_eq_ok.1 found
  have known : processor.positions.get? token.text = some index := by
    rw [← h.index?_registry]
    exact Registry.eq_some_of_index placed
  have stands := h.getElem?_of_get? written known
  have inside : index < processor.accounts.length := by
    rw [length]
    exact (List.getElem?_eq_some_iff.1 stands).1
  have token_eq : (processor.registry.tokens[index]?).getD token = token := by
    change (processor.tokens[index]?).getD token = token
    rw [stands]
    rfl
  refine ⟨token_eq, known, stands, ?_⟩
  rw [List.getD_eq_getElem _ _ inside]
  exact List.getElem?_eq_getElem inside

theorem Consistent.reads (h : processor.Consistent) {chart? : Option Chart}
    (selected : processor.Selected chart?) (ledger : Ledger) (bounds : Bounds)
    (target : TargetMove) (extra : Filter) : processor.Reads ledger bounds target extra := by
  have length (marked : processor.finalized = true) :
      processor.accounts.length = processor.tokens.length := by
    obtain ⟨chart, -, same⟩ := selected marked
    rw [same, Registry.codesIn, List.length_map]
    rfl
  have looked (marked : processor.finalized = true) :
      processor.registry.accounts = some processor.accounts := by
    rw [registry, marked]
    rfl
  refine ⟨fun unmarked => ?unmarked, length, ?balances, ?substitute, ?drilldown⟩
  case unmarked =>
    rw [Registry.resolved, registry, unmarked]
    rfl
  case balances =>
    intro marked balances t t' run
    refine ⟨Registry.length_of_runs_balances run, fun scope index token codes known picked => ?_⟩
    obtain ⟨balance, stands, counted⟩ := Registry.counted_of_runs_balances (looked marked) run
      (Registry.mem_resolvedTokens known picked)
    exact ⟨balance, counted, Balances.get?_bind stands scope⟩
  case substitute =>
    intro formula out replaced
    obtain ⟨pieces, scanned, filled⟩ := Registry.substitute_eq_ok replaced
    refine ⟨pieces, scanned, filled, fun token member => ?_⟩
    obtain ⟨index, found⟩ := Registry.index?_of_substitute replaced scanned member
    have known : processor.positions.get? token.text = some index := by
      rw [← h.index?_registry, found]
    have written := AccountToken.written_of_scanFrom scanned member
    exact ⟨index, h.getElem?_of_get? written known, known, Registry.nameOf_of_index? found⟩
  case drilldown =>
    intro marked formula found drilled
    unfold Registry.drilldownFilter at drilled
    obtain ⟨accounts, resolved, drilled⟩ := bind_eq_ok.1 drilled
    obtain ⟨tokens, cut, drilled⟩ := bind_eq_ok.1 drilled
    obtain ⟨members, members_eq, -⟩ := bind_eq_ok.1 drilled
    rw [Registry.resolved, looked marked] at resolved
    cases resolved
    refine ⟨tokens, members, cut, members_eq, ?_⟩
    refine forall₂_imp_of_mem (mapM_eq_ok.1 members_eq) fun token member inside given => ?_
    exact h.member_of_lookUp (length marked) (AccountToken.written_of_tokensOf cut inside) given

/-- **A processor stays consistent over any use.** After any calls on a new processor, in any order
and whether they succeed or fail: no two tokens have one text, and the table holds the position of
each text, which never changes; a call that fails changes nothing, and every call does to the
registry with the parts what it does to the parts; while the mark is set, the accounts are those
that the chart of the last successful look-up gives for the tokens, one set for each; and balances,
substitution and drilling down read each token at its position. -/
theorem after_sound (calls : List Call) :
    ((after calls).tokens.map AccountToken.text).Nodup ∧
      (∀ text index, (after calls).positions.get? text = some index ↔
        ∃ token, (after calls).tokens[index]? = some token ∧ token.text = text) ∧
      (∀ later text index, (after calls).positions.get? text = some index →
        (after (calls ++ later)).positions.get? text = some index) ∧
      (∀ (call : Call) e processor', call.run (after calls) = (.error e, processor') →
        processor' = after calls) ∧
      (after calls).registry.Built ∧ (∀ call : Call, call.Simulated (after calls)) ∧
      ((after calls).finalized = true → ∃ chart, lastChart? calls = some chart ∧
        (after calls).accounts =
          (after calls).tokens.map fun token => chart.select token.selectors) ∧
      ∀ ledger bounds target extra, (after calls).Reads ledger bounds target extra := by
  have consistent := consistent_after calls
  have selected := selected_after calls
  refine ⟨consistent.texts, consistent.positions,
    fun later text index known => get?_after_append known later, fun call e processor' failed => ?_,
    built_after calls, consistent.simulates, selected, consistent.reads selected⟩
  have simulated := consistent.simulates call
  rw [Call.Simulated, failed] at simulated
  exact simulated.1

-- a malformed formula and one registered before leave the mark of the look-up in place
example :
    let ledger := Book.ledger { accounts := [⟨"7", "", none⟩] }
    let processor := after [.parse "bal[7]", .finalize ledger "7", .parse "bal[7", .parse "bal[7]"]
    processor.finalized = true ∧ processor.positions = [("bal[7]", 0)] ∧
      processor.accounts = [["7"]] :=
  ⟨by with_unfolding_all rfl, by with_unfolding_all rfl, by with_unfolding_all rfl⟩

end Processor

end KpiReport
