import KpiReport.Account.Balances
import KpiReport.Proofs.Account.Scanning
import KpiReport.Proofs.Runs

/-!
# Registries and what is registered in them

In every state that registrations and look-ups lead to, a registry holds its tokens once per text,
and its accounts, if they have been looked up, are those that a chart gives for its tokens
(`Registry.Built.sound`).
-/

namespace KpiReport

theorem Chart.sorted_select (chart : Chart) (selectors : List Selector) :
    (chart.select selectors).Pairwise (· < ·) :=
  sorted_distinctNames _

namespace Registry

/-- The states of a registry that registrations and look-ups lead to. -/
inductive Built : Registry → Prop where
  | empty : Built {}
  | register {registry registry' : Registry} {formula : String} (built : Built registry)
      (done : registry.register formula = .ok registry') : Built registry'
  | resolve {registry registry' : Registry} {ledger : Ledger} {root : String} {t t' : Trace}
      (built : Built registry) (done : Runs (registry.resolve ledger root) t registry' t') :
      Built registry'

/-- The accounts that a chart gives for the tokens of a registry. -/
def codesIn (registry : Registry) (chart : Chart) : List (List String) :=
  registry.tokens.map fun token => chart.select token.selectors

/-- What holds of every registry. -/
structure Sound (registry : Registry) : Prop where
  texts : (registry.tokens.map AccountToken.text).Nodup
  written : ∀ token ∈ registry.tokens, token.Written
  accounts : ∀ accounts, registry.accounts = some accounts →
    ∃ chart, accounts = registry.codesIn chart

theorem index?_eq_none_iff {registry : Registry} {text : String} :
    registry.index? text = none ↔ text ∉ registry.tokens.map AccountToken.text := by
  rw [index?, List.findIdx?_eq_none_iff]
  simp

theorem index?_eq_some {registry : Registry} {text : String} {index : Nat}
    (h : registry.index? text = some index) :
    ∃ token, registry.tokens[index]? = some token ∧ token.text = text := by
  obtain ⟨inside, found, -⟩ := List.findIdx?_eq_some_iff_getElem.1 h
  exact ⟨registry.tokens[index], List.getElem?_eq_getElem inside, by simpa using found⟩

theorem eq_some_of_index {registry : Registry} {token : AccountToken} {index : Nat}
    (h : registry.index token = .ok index) : registry.index? token.text = some index := by
  unfold Registry.index Result.ofOption at h
  split at h
  · rename_i found
    cases h
    exact found
  · cases h

theorem add_sound {registry : Registry} (h : registry.Sound) {token : AccountToken}
    (written : token.Written) : (registry.add token).Sound := by
  unfold add
  split
  · exact h
  · rename_i unknown
    rw [index?_eq_none_iff] at unknown
    refine ⟨?_, ?_, fun _ looked => nomatch looked⟩
    · rw [List.map_append, List.nodup_append]
      refine ⟨h.texts, List.nodup_cons.2 ⟨List.not_mem_nil, List.nodup_nil⟩, ?_⟩
      rintro text old _ new rfl
      rw [List.map_singleton, List.mem_singleton] at new
      rw [new] at old
      exact unknown old
    · intro other member
      rcases List.mem_append.1 member with old | new
      · exact h.written other old
      · rw [List.mem_singleton.1 new]
        exact written

theorem mem_add {registry : Registry} {token other : AccountToken} (h : other ∈ registry.tokens) :
    other ∈ (registry.add token).tokens := by
  unfold add
  split
  · exact h
  · exact List.mem_append_left _ h

/-- A token that is added to sound registry is there. -/
theorem mem_add_self {registry : Registry} (h : registry.Sound) {token : AccountToken}
    (written : token.Written) : token ∈ (registry.add token).tokens := by
  unfold add
  split
  · rename_i known
    obtain ⟨other, found, same⟩ := index?_eq_some known
    have member := List.mem_of_getElem? found
    rwa [← (h.written other member).eq_of_text written same]
  · exact List.mem_append_right _ List.mem_cons_self

theorem foldl_add_sound {tokens : List AccountToken} (written : ∀ token ∈ tokens, token.Written)
    {registry : Registry} (h : registry.Sound) :
    (tokens.foldl add registry).Sound ∧
      (∀ token ∈ registry.tokens, token ∈ (tokens.foldl add registry).tokens) ∧
      ∀ token ∈ tokens, token ∈ (tokens.foldl add registry).tokens := by
  induction tokens generalizing registry with
  | nil => exact ⟨h, fun _ => id, fun token member => nomatch member⟩
  | cons token tokens ih =>
    obtain ⟨first, rest⟩ := List.forall_mem_cons.1 written
    obtain ⟨sound, keeps, holds⟩ := ih rest (add_sound h first)
    refine ⟨sound, fun other member => keeps other (mem_add member), ?_⟩
    exact List.forall_mem_cons.2 ⟨keeps token (mem_add_self h first), holds⟩

/-- Registering a formula keeps the tokens and adds those of the formula. -/
theorem register_sound {registry registry' : Registry} {formula : String} (h : registry.Sound)
    (done : registry.register formula = .ok registry') :
    registry'.Sound ∧ (∀ token ∈ registry.tokens, token ∈ registry'.tokens) ∧
      ∃ tokens, AccountToken.tokensOf formula = .ok tokens ∧
        ∀ token ∈ tokens, token ∈ registry'.tokens := by
  obtain ⟨tokens, found, rfl⟩ := map_eq_ok.1 done
  obtain ⟨sound, keeps, holds⟩ :=
    foldl_add_sound (fun token => AccountToken.written_of_tokensOf found) h
  exact ⟨sound, keeps, tokens, found, holds⟩

/-- Registering formulas keeps the tokens and adds those of each formula. -/
theorem registerAll_sound {formulas : List String} {registry registry' : Registry}
    (h : registry.Sound) (done : registry.registerAll formulas = .ok registry') :
    registry'.Sound ∧ (∀ token ∈ registry.tokens, token ∈ registry'.tokens) ∧
      ∀ formula ∈ formulas, ∃ tokens, AccountToken.tokensOf formula = .ok tokens ∧
        ∀ token ∈ tokens, token ∈ registry'.tokens := by
  induction formulas generalizing registry with
  | nil =>
    cases done
    exact ⟨h, fun _ => id, fun formula member => nomatch member⟩
  | cons formula formulas ih =>
    rw [registerAll] at done
    split at done
    · cases done
    · rename_i middle first
      obtain ⟨sound, keeps, tokens, found, holds⟩ := register_sound h first
      obtain ⟨sound', keeps', rest⟩ := ih sound done
      refine ⟨sound', fun token member => keeps' token (keeps token member), ?_⟩
      refine List.forall_mem_cons.2 ⟨⟨tokens, found, fun token member => ?_⟩, rest⟩
      exact keeps' token (holds token member)

theorem resolve_inv {registry resolved : Registry} {ledger : Ledger} {root : String} {t t' : Trace}
    (h : Runs (registry.resolve ledger root) t resolved t') :
    ∃ chart, ledger.accountsUnder root = .ok chart ∧
      resolved = { registry with accounts := some (registry.codesIn chart) } := by
  obtain ⟨chart, u, found, h⟩ := runs_bind.1 h
  obtain ⟨⟨⟩, v, -, h⟩ := runs_bind.1 h
  obtain ⟨rfl, -⟩ := runs_pure.1 h
  obtain ⟨found, -⟩ := Traced.runs_ofResult.1 found
  exact ⟨chart, found, rfl⟩

theorem gives_resolve {registry : Registry} {ledger : Ledger} {root : String} {chart : Chart}
    (found : ledger.accountsUnder root = .ok chart) :
    (registry.resolve ledger root).Gives
      { registry with accounts := some (registry.codesIn chart) } := by
  refine (Traced.Gives.ofResult found).bind ((Traced.Gives.forM (fun entry => ?_) _).bind
    (Traced.Gives.pure _))
  unfold warnUnmatched
  split
  · exact Traced.Gives.log _ _
  · exact Traced.Gives.pure ()

theorem Sound.lookUp {registry : Registry} (h : registry.Sound) (chart : Chart) :
    Sound { registry with accounts := some (registry.codesIn chart) } := by
  refine ⟨h.texts, h.written, fun accounts looked => ?_⟩
  cases looked
  exact ⟨chart, rfl⟩

theorem resolve_sound {registry resolved : Registry} {ledger : Ledger} {root : String} {t t' : Trace}
    (h : registry.Sound) (done : Runs (registry.resolve ledger root) t resolved t') :
    resolved.Sound := by
  obtain ⟨chart, -, rfl⟩ := resolve_inv done
  exact h.lookUp chart

theorem sound_empty : Sound {} where
  texts := List.nodup_nil
  written := fun _ member => nomatch member
  accounts := fun _ looked => nomatch looked

/-- Every registry is sound. -/
theorem Built.sound {registry : Registry} (h : registry.Built) : registry.Sound := by
  induction h with
  | empty => exact sound_empty
  | register _ done ih => exact (register_sound ih done).1
  | resolve _ done ih => exact resolve_sound ih done

/-! ## Tokens with their accounts -/

theorem map_index_resolvedTokens (registry : Registry) (accounts : List (List String)) :
    (registry.resolvedTokens accounts).map ResolvedToken.index =
      List.range (registry.tokens.zip accounts).length := by
  apply List.ext_getElem <;> simp [resolvedTokens]

theorem nodup_index_resolvedTokens (registry : Registry) (accounts : List (List String)) :
    ((registry.resolvedTokens accounts).map ResolvedToken.index).Nodup := by
  rw [map_index_resolvedTokens]
  exact List.nodup_range

theorem mem_resolvedTokens {registry : Registry} {accounts : List (List String)} {index : Nat}
    {token : AccountToken} {codes : List String} (known : registry.tokens[index]? = some token)
    (looked : accounts[index]? = some codes) :
    ⟨index, token, codes⟩ ∈ registry.resolvedTokens accounts := by
  refine List.mem_iff_getElem?.2 ⟨index, ?_⟩
  simp [resolvedTokens, List.getElem?_zip_eq_some, known, looked]

theorem getElem?_of_mem_resolvedTokens {registry : Registry} {accounts : List (List String)}
    {member : ResolvedToken} (h : member ∈ registry.resolvedTokens accounts) :
    registry.tokens[member.index]? = some member.token ∧
      accounts[member.index]? = some member.accounts := by
  obtain ⟨index, found⟩ := List.mem_iff_getElem?.1 h
  simp only [resolvedTokens, List.getElem?_mapIdx, Option.map_eq_some_iff] at found
  obtain ⟨entry, stands, rfl⟩ := found
  exact List.getElem?_zip_eq_some.1 stands

theorem index_lt_of_mem_resolvedTokens {registry : Registry} {accounts : List (List String)}
    {member : ResolvedToken} (h : member ∈ registry.resolvedTokens accounts) :
    member.index < registry.tokens.length :=
  (List.getElem?_eq_some_iff.1 (getElem?_of_mem_resolvedTokens h).1).1

theorem mem_resolvedTokens_codesIn {registry : Registry} {chart : Chart} {member : ResolvedToken}
    (h : member ∈ registry.resolvedTokens (registry.codesIn chart)) :
    member.accounts = chart.select member.token.selectors := by
  obtain ⟨known, looked⟩ := getElem?_of_mem_resolvedTokens h
  rw [codesIn, List.getElem?_map, known, Option.map_some, Option.some.injEq] at looked
  exact looked.symm

theorem exists_mem_resolvedTokens {registry : Registry} {token : AccountToken}
    (h : token ∈ registry.tokens) (chart : Chart) : ∃ index,
      ⟨index, token, chart.select token.selectors⟩ ∈
        registry.resolvedTokens (registry.codesIn chart) := by
  obtain ⟨index, known⟩ := List.mem_iff_getElem?.1 h
  refine ⟨index, mem_resolvedTokens known ?_⟩
  rw [codesIn, List.getElem?_map, known]
  rfl

end Registry

end KpiReport
