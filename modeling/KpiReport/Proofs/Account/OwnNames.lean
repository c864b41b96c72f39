import KpiReport.Proofs.Account.Crossover
import KpiReport.Proofs.Definition.Validation

/-!
# A formula reads its own account tokens

The names that stand for account tokens are all of one form. A formula that keeps clear of this form
(`AccountToken.Discreet`) holds such names for its own account tokens and no others, in the order of
the tokens, and so its value does not depend on any other balance
(`CompiledKpi.reads_own_balances`). A formula that writes such a name, or goes on right after an
account token, can read the balance of an account token of another formula.
-/

namespace KpiReport

open KpiReport.Text

/-! ## Names of account tokens -/

/-- The identifiers among some tokens, in order. -/
def Token.words (ts : List Token) : List String :=
  ts.filterMap fun
    | .name s => some s
    | _ => none

theorem Token.mem_words {ts : List Token} {s : String} : s ∈ words ts ↔ .name s ∈ ts := by
  unfold words
  rw [List.mem_filterMap]
  constructor
  · rintro ⟨t, member, same⟩
    cases t <;> cases same
    exact member
  · intro member
    exact ⟨_, member, rfl⟩

/-- The name is of the form of those that stand for account tokens. -/
def Registry.isAccountName (name : String) : Bool :=
  "__acc_".toList.isPrefixOf name.toList

theorem Registry.isAccountName_privateName (index : Nat) :
    isAccountName (privateName index) = true := by
  rw [isAccountName, toList_privateName, List.isPrefixOf_iff_prefix]
  exact List.prefix_append _ _

theorem Registry.isAccountName_nameOf (registry : Registry) (token : AccountToken) :
    isAccountName (registry.nameOf token) = true :=
  isAccountName_privateName _

namespace AccountToken

/-- A formula that keeps clear of the names of account tokens: none of its account tokens is
directly followed by a character of identifiers, and with `None` for each account token the formula
writes no name of their form. -/
def Discreet (formula : String) : Prop :=
  ∀ pieces, scan formula = .ok pieces → SetApart pieces ∧
    ∀ ts, Token.ofChars (fill (fun _ => "None") pieces) = .ok ts →
      Token.Words (Registry.isAccountName · = false) ts

theorem discreet_of_scan {formula : String} {pieces : List Piece} {ts : List Token}
    (scanned : scan formula = .ok pieces) (apart : SetApart pieces)
    (cut : Token.ofChars (fill (fun _ => "None") pieces) = .ok ts)
    (shown : Token.Words (Registry.isAccountName · = false) ts) : Discreet formula := by
  intro pieces' scanned'
  cases scanned.symm.trans scanned'
  refine ⟨apart, fun ts' cut' => ?_⟩
  cases cut.symm.trans cut'
  exact shown

end AccountToken

namespace Registry

variable {registry : Registry}

/-- Of the names that lexemes are read as, those of the form of account tokens are the names of the
account tokens. -/
theorem words_fill {lexemes : List Lexeme}
    (shown : ∀ name, .plain (.name name) ∈ lexemes → isAccountName name = false) :
    (Token.words (lexemes.map (Lexeme.fill registry.nameOf))).filter isAccountName =
      (lexemes.filterMap Lexeme.account?).map registry.nameOf := by
  induction lexemes with
  | nil => rfl
  | cons lexeme lexemes ih =>
    have rest := ih fun name member => shown name (List.mem_cons_of_mem _ member)
    cases lexeme with
    | account token =>
      refine (List.filter_cons_of_pos (registry.isAccountName_nameOf token)).trans ?_
      exact congrArg (_ :: ·) rest
    | plain token =>
      cases token with
      | name name =>
        have other := Bool.eq_false_iff.1 (shown name List.mem_cons_self)
        exact (List.filter_cons_of_neg other).trans rest
      | _ => exact rest

/-- A formula whose account tokens are registered can be read. -/
theorem exists_substitute {formula : String} {tokens : List AccountToken} {indices : List Nat}
    (found : AccountToken.tokensOf formula = .ok tokens)
    (registered : tokens.mapM registry.index = .ok indices) :
    ∃ text, registry.substitute formula = .ok text := by
  obtain ⟨pieces, scanned, rfl⟩ := map_eq_ok.1 found
  have each : ∀ piece ∈ pieces, ∃ chars, registry.substitutePiece piece = .ok chars := by
    intro piece member
    cases piece with
    | plain c => exact ⟨[c], rfl⟩
    | token token =>
      obtain ⟨index, -, known⟩ :=
        exists_mem_of_mapM registered (List.mem_filterMap.2 ⟨_, member, rfl⟩)
      exact ⟨_, map_eq_ok.2 ⟨index, known, rfl⟩⟩
  obtain ⟨texts, replaced⟩ := exists_mapM_eq_ok each
  refine ⟨String.ofList texts.flatten, ?_⟩
  unfold substitute
  rw [scanned]
  exact map_eq_ok.2 ⟨texts, replaced, rfl⟩

theorem map_nameOf {tokens : List AccountToken} {indices : List Nat}
    (registered : tokens.mapM registry.index = .ok indices) :
    tokens.map registry.nameOf = indices.map privateName := by
  have each := mapM_eq_ok.1 registered
  clear registered
  induction each with
  | nil => rfl
  | @cons token index tokens indices known _ ih =>
    rw [List.map_cons, List.map_cons, ih, nameOf_of_index? (eq_some_of_index known)]

/-- The names of a formula that are of the form of account tokens are those of its account
tokens. -/
theorem words_of_discreet {formula text : String} {ts : List Token}
    (discreet : AccountToken.Discreet formula) (h : registry.substitute formula = .ok text)
    (cut : Token.ofText text = .ok ts) :
    ∃ tokens, AccountToken.tokensOf formula = .ok tokens ∧
      (Token.words ts).filter isAccountName = tokens.map registry.nameOf := by
  obtain ⟨pieces, scanned, filled⟩ := substitute_eq_ok h
  obtain ⟨apart, shown⟩ := discreet pieces scanned
  obtain ⟨r, lexed, read⟩ :=
    AccountToken.exists_lexemes pieces (AccountToken.scanned_of_scanFrom scanned apart)
  rw [Token.ofText, filled, read _ registry.names_nameOf] at cut
  obtain ⟨lexemes, found, rfl⟩ := map_eq_ok.1 cut
  -- The other words of the text are those of the formula with `None` for its account tokens.
  have clear : ∀ name, .plain (.name name) ∈ lexemes → isAccountName name = false := by
    intro name member
    have words := shown (lexemes.map (Lexeme.fill fun _ => "None")) (by
      rw [read _ AccountToken.names_none, found]
      rfl)
    exact words name (List.mem_map.2 ⟨_, member, rfl⟩)
  refine ⟨_, map_eq_ok.2 ⟨pieces, scanned, rfl⟩, ?_⟩
  rw [words_fill clear, (lexed lexemes found).accounts]

end Registry

/-! ## What a compiled KPI reads -/

namespace CompiledKpi

variable {library : Library} {template : Template} {registry : Registry} {kpi : Kpi}
  {compiled : CompiledKpi}

/-- A compiled formula reads identifiers of its text and KPIs of other reports. -/
theorem words_of_ofKpi (h : ofKpi library template registry kpi = .ok compiled) {e : Expr}
    (parsed : compiled.expression = .ok e) :
    ∃ text ts, registry.substitute kpi.expression = .ok text ∧ Token.ofText text = .ok ts ∧
      e.Reads fun x => x ∈ Token.words ts ∨ ∃ code attr, x = Library.dotted code attr := by
  obtain ⟨text, replaced, ⟨fault, -, rfl⟩ | ⟨references, -, -, rfl⟩⟩ := ofKpi_eq_ok h
  · cases parsed
  · obtain ⟨raw, read, rfl⟩ := map_eq_ok.1 parsed
    obtain ⟨ts, lexed, formed⟩ := bind_eq_ok.1 read
    have words : Token.Words (· ∈ Token.words ts) ts := fun s member => Token.mem_words.2 member
    refine ⟨text, ts, replaced, lexed, ?_⟩
    refine Expr.Reads.rename ?_ raw fun x member =>
      .inl (Expr.reads_of_ofTokens formed words x member)
    intro base attr s found
    unfold Expr.dottedName at found
    split at found
    · cases found
      exact .inr ⟨base, attr, rfl⟩
    · cases found

/-- **A formula reaches no balance that it does not name.** If it keeps clear of the names of
account tokens, such names stand in its text for its own account tokens only, in their order, and
its value is the same in any two scopes that differ in the balances of other account tokens. -/
theorem reads_own_balances {tokens : List AccountToken} {indices : List Nat}
    (discreet : AccountToken.Discreet kpi.expression)
    (found : AccountToken.tokensOf kpi.expression = .ok tokens)
    (registered : tokens.mapM registry.index = .ok indices) :
    ∃ text, registry.substitute kpi.expression = .ok text ∧
      (∀ ts, Token.ofText text = .ok ts →
        (Token.words ts).filter Registry.isAccountName = indices.map Registry.privateName) ∧
      ∀ library template compiled, ofKpi library template registry kpi = .ok compiled →
        ∀ scope scope' : Scope,
          (∀ name, (∀ index, name = Registry.privateName index → index ∈ indices) →
            scope.get? name = scope'.get? name) →
          compiled.eval scope = compiled.eval scope' := by
  obtain ⟨text, replaced⟩ := Registry.exists_substitute found registered
  have own {ts : List Token} (cut : Token.ofText text = .ok ts) :
      (Token.words ts).filter Registry.isAccountName = indices.map Registry.privateName := by
    obtain ⟨tokens', found', words⟩ := Registry.words_of_discreet discreet replaced cut
    cases found.symm.trans found'
    rw [words, Registry.map_nameOf registered]
  refine ⟨text, replaced, fun ts cut => own cut, ?_⟩
  intro library template compiled h scope scope' agree
  unfold eval
  cases parsed : compiled.expression with
  | error fault => rfl
  | ok e =>
    obtain ⟨text', ts, replaced', cut, reads⟩ := words_of_ofKpi h parsed
    cases replaced.symm.trans replaced'
    refine Expr.eval_congr e fun name member => agree name ?_
    rintro index rfl
    rcases reads _ member with written | ⟨code, attr, same⟩
    · have listed := List.mem_filter.2 ⟨written, Registry.isAccountName_privateName index⟩
      rw [own cut] at listed
      obtain ⟨index', inside, same⟩ := List.mem_map.1 listed
      rwa [← Registry.privateName_injective same]
    · exact absurd (same ▸ Registry.dotless_privateName index)
        (Library.not_dotless_dotted code attr)

end CompiledKpi

namespace Leaking

/-- The balance of an account. -/
def balance : AccountToken := ⟨"bal[0]", .balance, .variation, [.code "0"], []⟩

/-- The credit of the account. -/
def credit : AccountToken := ⟨"crd[0]", .credit, .variation, [.code "0"], []⟩

/-- The debit of the account. -/
def debit : AccountToken := ⟨"deb[0]", .debit, .variation, [.code "0"], []⟩

/-- The account tokens of a report. -/
def registry : Registry := ⟨[balance, debit, credit], none⟩

/-- A KPI that reads two of the account tokens. -/
def own : Kpi := { name := "own", expression := "crd[0] - bal[0]" }

/-- A KPI that writes the name of the first account token. -/
def leak : Kpi := { name := "leak", expression := "__acc_0" }

/-- A report whose second KPI holds no account token. -/
def template : Template where
  code := "r"
  name := "Leaking"
  kpis := [{ name := "total", expression := "bal[0]" }, leak]

/-- The library of the report. -/
def library : Library := .ofTemplates [template]

theorem valid_library : library.validate = .ok () := by
  have reports : library.reports = [("r", template)] := by rfl
  have total : dottedReferences "bal[0]" = .ok [] := by with_unfolding_all rfl
  have written : dottedReferences "__acc_0" = .ok [] := by with_unfolding_all rfl
  refine Library.validate_eq_ok.2 fun entry stored => ?_
  rw [reports, List.mem_singleton] at stored
  subst stored
  refine ⟨by rfl, fun kpi member => ?_⟩
  simp only [template, List.mem_cons, List.not_mem_nil, or_false] at member
  rcases member with rfl | rfl
  · exact Library.checkReferences_eq_ok.2 ⟨[], total, List.forall_mem_nil _⟩
  · exact Library.checkReferences_eq_ok.2 ⟨[], written, List.forall_mem_nil _⟩

/-- The balances of the account tokens of the report. -/
def scope : Scope := ⟨[("__acc_0", .number 100)]⟩

/-- The pieces of the formula with two account tokens. -/
def pieces : List Piece :=
  [.token credit, .plain ' ', .plain '-', .plain ' ', .token balance]

theorem setApart_pieces : AccountToken.SetApart pieces := by
  have last := ((AccountToken.setApart_token balance).cons_plain ' ').cons_plain '-'
  refine (last.cons_plain ' ').cons_token ?_
  rintro c ⟨rfl⟩
  decide

end Leaking

/-- The difference of two account tokens reads the balances of the two, in the order in which they
are written. -/
theorem CompiledKpi.reads_own_balances_difference :
    (AccountToken.Discreet Leaking.own.expression ∧
      AccountToken.tokensOf Leaking.own.expression = .ok [Leaking.credit, Leaking.balance] ∧
      [Leaking.credit, Leaking.balance].mapM Leaking.registry.index = .ok [2, 0]) ∧
    ∃ text, Leaking.registry.substitute Leaking.own.expression = .ok text ∧
      ∀ ts, Token.ofText text = .ok ts →
        (Token.words ts).filter Registry.isAccountName = ["__acc_2", "__acc_0"] := by
  have scanned : AccountToken.scan Leaking.own.expression =
      .ok Leaking.pieces := by with_unfolding_all rfl
  have cut : Token.ofChars (AccountToken.fill (fun _ => "None") Leaking.pieces) =
      .ok [.name "None", .punct .minus, .name "None"] := by with_unfolding_all rfl
  have shown : Token.Words (Registry.isAccountName · = false)
      [.name "None", .punct .minus, .name "None"] := by
    intro name member
    obtain rfl : name = "None" := by simpa using member
    decide
  have discreet := AccountToken.discreet_of_scan scanned Leaking.setApart_pieces cut shown
  have found : AccountToken.tokensOf Leaking.own.expression =
      .ok [Leaking.credit, Leaking.balance] := by with_unfolding_all rfl
  have registered : [Leaking.credit, Leaking.balance].mapM Leaking.registry.index =
      .ok [2, 0] := by rfl
  obtain ⟨text, replaced, words, -⟩ :=
    CompiledKpi.reads_own_balances discreet found registered
  exact ⟨⟨discreet, found, registered⟩, text, replaced, words⟩

/-- A KPI of a valid library that writes the name of an account token of another KPI reads its
balance. -/
theorem CompiledKpi.reads_other_balance :
    Leaking.library.validate = .ok () ∧ Leaking.leak ∈ Leaking.template.kpis ∧
      AccountToken.tokensOf Leaking.leak.expression = .ok [] ∧
      Leaking.registry.substitute Leaking.leak.expression = .ok "__acc_0" ∧
      (Token.ofText "__acc_0").map (fun ts => (Token.words ts).filter Registry.isAccountName) =
        .ok ["__acc_0"] ∧
      (CompiledKpi.ofKpi Leaking.library Leaking.template Leaking.registry Leaking.leak).map
        (fun compiled => compiled.eval Leaking.scope) = .ok (.ok (.number 100)) := by
  have tokens : AccountToken.tokensOf Leaking.leak.expression = .ok [] := by with_unfolding_all rfl
  have replaced : Leaking.registry.substitute Leaking.leak.expression = .ok "__acc_0" := by
    with_unfolding_all rfl
  have words : (Token.ofText "__acc_0").map
      (fun ts => (Token.words ts).filter Registry.isAccountName) = .ok ["__acc_0"] := by
    with_unfolding_all rfl
  have value : (CompiledKpi.ofKpi Leaking.library Leaking.template Leaking.registry
      Leaking.leak).map (fun compiled => compiled.eval Leaking.scope) =
      .ok (.ok (.number 100)) := by with_unfolding_all rfl
  exact ⟨Leaking.valid_library, by simp [Leaking.template], tokens, replaced, words, value⟩

end KpiReport
