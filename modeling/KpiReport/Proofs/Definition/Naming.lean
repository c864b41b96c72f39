import KpiReport.Account.Registry
import KpiReport.Formula.Eval
import KpiReport.Proofs.Account.Substitution
import KpiReport.Proofs.Definition.Validation
import KpiReport.Proofs.Formula.Acceptance

/-!
# Names in formulas

A name that validation accepts is an identifier, and a formula that consists of it alone reads its
binding. The one exception are names that are written like account tokens of the short form
(`AccountToken.ShortForm`), such as `bal_700`: validation does not know them, and a formula takes
them for account tokens. The main statement, `Template.formula_of_name`, says that there is no
other exception.
-/

namespace KpiReport

open KpiReport.Text

namespace AccountToken

/-! ## The short form -/

/-- The name is written like an account token of the short form: a side, an optional mode, an
underscore, and a code that starts with a digit. -/
def ShortForm (name : String) : Prop :=
  ∃ side ∈ ["bal", "crd", "deb"], ∃ mode ∈ ["", "p", "i", "e"], ∃ d code,
    name.toList = side.toList ++ (mode.toList ++ '_' :: d :: code) ∧ d.isDigit = true

theorem exists_of_takeSide? {word rest : List Char} {side : Side}
    (h : takeSide? word = some (side, rest)) :
    ∃ side ∈ ["bal", "crd", "deb"], word = side.toList ++ rest := by
  unfold takeSide? at h
  split at h <;> cases h
  · exact ⟨"bal", by simp, rfl⟩
  · exact ⟨"crd", by simp, rfl⟩
  · exact ⟨"deb", by simp, rfl⟩

theorem exists_of_modeOf? {letter : Char} {mode : Mode} (h : modeOf? letter = some mode) :
    ∃ mode ∈ ["p", "i", "e"], mode.toList = [letter] := by
  unfold modeOf? at h
  split at h <;> cases h
  · exact ⟨"p", by simp, rfl⟩
  · exact ⟨"i", by simp, rfl⟩
  · exact ⟨"e", by simp, rfl⟩

theorem code_of_shortHead? {side : Side} {mode : Mode} {code : List Char} {head : Head}
    (h : shortHead? side mode code = some head) :
    head.code = some code ∧ ∃ d cs, code = d :: cs ∧ d.isDigit = true := by
  unfold shortHead? at h
  split at h
  · split at h
    · rename_i d cs digit
      cases h
      exact ⟨rfl, d, cs, rfl, digit⟩
    · cases h
  · cases h

theorem shortForm_of_head? {name : String} {head : Head} {code : List Char}
    (h : head? name.toList = some head) (short : head.code = some code) : ShortForm name := by
  unfold head? at h
  obtain ⟨⟨side, rest⟩, taken, h⟩ := Option.bind_eq_some_iff.1 h
  obtain ⟨written, listed, word⟩ := exists_of_takeSide? taken
  dsimp only at h
  split at h
  · cases h
    cases short
  · obtain ⟨-, d, cs, rfl, digit⟩ := code_of_shortHead? h
    exact ⟨written, listed, "", by simp, d, cs, word, digit⟩
  · rename_i letter rest other
    obtain ⟨mode, known, h⟩ := Option.bind_eq_some_iff.1 h
    obtain ⟨text, listed', chars⟩ := exists_of_modeOf? known
    split at h
    · cases h
      cases short
    · obtain ⟨-, d, cs, rfl, digit⟩ := code_of_shortHead? h
      refine ⟨written, listed, text, List.mem_cons_of_mem _ listed', d, cs, ?_, digit⟩
      rw [word, chars]
      rfl
    · cases h

theorem head?_of_shortForm {name : String} (h : ShortForm name) :
    ∃ head code, head? name.toList = some head ∧ head.code = some code := by
  obtain ⟨side, listed, mode, listed', d, code, chars, digit⟩ := h
  rw [chars]
  have short (side : Side) (mode : Mode) :
      shortHead? side mode (d :: code) = some ⟨side, mode, some (d :: code)⟩ := if_pos digit
  simp only [List.mem_cons, List.not_mem_nil, or_false] at listed listed'
  rcases listed with rfl | rfl | rfl <;> rcases listed' with rfl | rfl | rfl | rfl <;>
    exact ⟨_, _, short _ _, rfl⟩

theorem shortForm_iff {name : String} :
    ((head? name.toList).bind Head.code).isSome = true ↔ ShortForm name := by
  rw [Option.isSome_iff_exists]
  constructor
  · rintro ⟨code, found⟩
    obtain ⟨head, read, short⟩ := Option.bind_eq_some_iff.1 found
    exact shortForm_of_head? read short
  · intro h
    obtain ⟨head, code, read, short⟩ := head?_of_shortForm h
    exact ⟨code, Option.bind_eq_some_iff.2 ⟨head, read, short⟩⟩

instance (name : String) : Decidable (ShortForm name) :=
  decidable_of_iff _ shortForm_iff

/-! ## Formulas of one word -/

theorem take?_of_word {cs : List Char} (all : cs.all isIdentChar = true) {head : Head}
    {code : List Char} (found : head? cs = some head) (short : head.code = some code) :
    ∃ token, take? cs = .ok (some (token, [])) := by
  rw [List.all_eq_true] at all
  unfold take?
  simp only [List.takeWhile_eq_self_iff.2 all, List.dropWhile_eq_nil_iff.2 all, found, short]
  exact ⟨_, rfl⟩

theorem take?_of_other_word {cs : List Char} (all : cs.all isIdentChar = true)
    (long : ∀ head code, head? cs = some head → head.code ≠ some code) :
    take? cs = .ok none := by
  rw [List.all_eq_true] at all
  unfold take?
  simp only [List.takeWhile_eq_self_iff.2 all, List.dropWhile_eq_nil_iff.2 all]
  split
  · rfl
  · rename_i head found
    split
    · rename_i code short
      exact absurd short (long head code found)
    · rfl

section Start

variable {previous : Option Char} {c : Char} {cs : List Char}
  (boundary : atBoundary previous = true) (start : isIdentStart c = true)

include boundary start

theorem scanFrom_of_take {token : AccountToken} {rest : List Char}
    (taken : take? (c :: cs) = .ok (some (token, rest))) :
    scanFrom previous none (c :: cs) =
      (scanFrom token.text.toList.getLast? none rest).map (.token token :: ·) := by
  have word := isIdentChar_of_isIdentStart start
  rw [scanFrom, if_neg (Bool.eq_false_iff.1 (isQuote_of_isIdentChar word)), boundary, start,
    Bool.and_self, if_pos rfl]
  split
  · rename_i failed
    cases taken.symm.trans failed
  · rename_i taken'
    cases taken.symm.trans taken'
    rfl
  · rename_i none
    cases taken.symm.trans none

theorem scanFrom_of_take_none (none : take? (c :: cs) = .ok Option.none) :
    scanFrom previous Option.none (c :: cs) =
      (scanFrom (some c) Option.none cs).map (.plain c :: ·) := by
  have word := isIdentChar_of_isIdentStart start
  rw [scanFrom, if_neg (Bool.eq_false_iff.1 (isQuote_of_isIdentChar word)), boundary, start,
    Bool.and_self, if_pos rfl]
  split
  · rename_i failed
    cases none.symm.trans failed
  · rename_i taken
    cases none.symm.trans taken
  · rfl

end Start

theorem scanFrom_word {previous : Char} {cs : List Char} (word : isIdentChar previous = true)
    (all : cs.all isIdentChar = true) : scanFrom (some previous) none cs = .ok (cs.map .plain) := by
  induction cs generalizing previous with
  | nil =>
    rw [scanFrom]
    rfl
  | cons c cs ih =>
    rw [List.all_cons, Bool.and_eq_true] at all
    have inside : atBoundary (some previous) = false := by simp [atBoundary, word]
    rw [scanFrom, if_neg (Bool.eq_false_iff.1 (isQuote_of_isIdentChar all.1)), inside,
      Bool.false_and, if_neg Bool.false_ne_true, ih all.1 all.2]
    rfl

/-- An identifier of the short form is an account token. -/
theorem scan_of_shortForm {name : String} (identifier : isIdentifier name = true)
    (h : ShortForm name) : ∃ token, scan name = .ok [.token token] := by
  obtain ⟨c, cs, chars, start, all⟩ := exists_of_isIdentifier identifier
  obtain ⟨head, code, found, short⟩ := head?_of_shortForm h
  rw [chars] at found
  obtain ⟨token, taken⟩ := take?_of_word all found short
  refine ⟨token, ?_⟩
  rw [scan, chars, scanFrom_of_take rfl start taken, scanFrom]
  rfl

/-- An identifier of another form holds no account token. -/
theorem scan_of_not_shortForm {name : String} (identifier : isIdentifier name = true)
    (h : ¬ ShortForm name) : scan name = .ok (name.toList.map .plain) := by
  obtain ⟨c, cs, chars, start, all⟩ := exists_of_isIdentifier identifier
  have long : ∀ head code, head? (c :: cs) = some head → head.code ≠ some code := by
    intro head code found short
    rw [← chars] at found
    exact h (shortForm_of_head? found short)
  rw [scan, chars, scanFrom_of_take_none rfl start (take?_of_other_word all long)]
  rw [List.all_cons, Bool.and_eq_true] at all
  rw [scanFrom_word all.1 all.2]
  rfl

end AccountToken

/-- A formula without account tokens is left as it is. -/
theorem Registry.substitute_of_plain {formula : String}
    (scanned : AccountToken.scan formula = .ok (formula.toList.map .plain)) (registry : Registry) :
    registry.substitute formula = .ok formula := by
  have replaced : (formula.toList.map Piece.plain).mapM registry.substitutePiece =
      .ok (formula.toList.map fun c => [c]) := by
    rw [mapM_eq_ok, List.forall₂_map_left_iff, List.forall₂_map_right_iff, List.forall₂_same]
    intro c _
    rfl
  rw [substitute, scanned]
  dsimp only
  rw [replaced]
  simp [Except.map, ← List.flatMap_def]

theorem Token.ofText_of_isIdentifier {name : String} (identifier : isIdentifier name = true) :
    ofText name = .ok [.name name] := by
  have read := AccountToken.readAs_of_isIdentifier identifier [] nofun
  rw [List.append_nil, ofChars] at read
  exact read

theorem Expr.parse_of_isIdentifier {name : String} (identifier : isIdentifier name = true)
    (free : name ∉ keywords) : parse name = .ok (.name name) := by
  refine bind_eq_ok.2 ⟨_, Token.ofText_of_isIdentifier identifier, Derives.ofTokens ?_⟩
  exact .tighten (.tighten (.tighten (.tighten (.tighten (.tighten (.tighten (.tighten (.tighten
    (.tighten (.name free))))))))))

namespace Template

theorem Nameable.not_mem_keywords {name : String} (h : Nameable name) : name ∉ keywords := by
  intro keyword
  have reserved : isReserved name = true := by
    rw [isReserved, List.contains_iff_mem.2 keyword, Bool.true_or]
  rw [h.notReserved] at reserved
  cases reserved

/-- **A formula that consists of the name of a KPI or a query of a valid template reads the binding
of the name.** It holds no account token and is left as it is exactly if the name is not written
like an account token of the short form. -/
theorem formula_of_name {template : Template} (valid : template.validate = .ok ()) {name : String}
    (named : name ∈ template.kpis.map Kpi.name ++ template.queries.map Query.name) :
    (AccountToken.tokensOf name = .ok [] ↔ ¬ AccountToken.ShortForm name) ∧
      ((∀ registry : Registry, registry.substitute name = .ok name) ↔
        ¬ AccountToken.ShortForm name) ∧
      Expr.parse name = .ok (.name name) ∧
      ∀ (scope : Scope) (value : Value), scope.get? name = some value →
        evalFormula scope name = .ok value := by
  have names := names_of_validate valid
  have nameable : Nameable name := by
    rcases List.mem_append.1 named with named | named
    · obtain ⟨kpi, member, rfl⟩ := List.mem_map.1 named
      exact names.nameable_kpi kpi member
    · obtain ⟨query, member, rfl⟩ := List.mem_map.1 named
      exact names.nameable_query query member
  have parsed := Expr.parse_of_isIdentifier nameable.isIdentifier nameable.not_mem_keywords
  refine ⟨⟨fun none short => ?_, fun long => ?_⟩, ⟨fun kept short => ?_, fun long => ?_⟩, parsed,
    fun scope value bound => ?_⟩
  · obtain ⟨token, scanned⟩ := AccountToken.scan_of_shortForm nameable.isIdentifier short
    rw [AccountToken.tokensOf, scanned] at none
    cases none
  · rw [AccountToken.tokensOf, AccountToken.scan_of_not_shortForm nameable.isIdentifier long]
    simp [Except.map, Piece.token?]
  · -- without registered account tokens there is no name for the account token
    obtain ⟨token, scanned⟩ := AccountToken.scan_of_shortForm nameable.isIdentifier short
    have empty := kept {}
    rw [Registry.substitute, scanned] at empty
    cases empty
  · exact Registry.substitute_of_plain
      (AccountToken.scan_of_not_shortForm nameable.isIdentifier long)
  · rw [evalFormula, parsed]
    simp only [Expr.eval, bound]

end Template

/-! ## Two templates -/

namespace Named

/-- A KPI with the name of a side and a mode, which is no account token without a code. -/
def plain : Template where
  code := "r"
  name := "Named"
  kpis := [{ name := "balp", expression := "5" }]

/-- A KPI with the name of an account token. -/
def short : Template where
  code := "r"
  name := "Named"
  kpis := [{ name := "bal_7", expression := "5" }]

/-- The account token with the name of the KPI. -/
def token : AccountToken := ⟨"bal_7", .balance, .variation, [.code "7"], []⟩

/-- The binding of the KPI, and the balance of the account. -/
def scope : Scope := ⟨[("bal_7", .number 5), ("__acc_0", .number 100)]⟩

end Named

/-- The name of a side and a mode without a code is a name, with the value that is bound to it. -/
theorem Template.formula_of_name_balp :
    Named.plain.validate = .ok () ∧ AccountToken.tokensOf "balp" = .ok [] ∧
      (∀ registry : Registry, registry.substitute "balp" = .ok "balp") ∧
      Expr.parse "balp" = .ok (.name "balp") ∧
      evalFormula ⟨[("balp", .number 5)]⟩ "balp" = .ok (.number 5) := by
  have valid : Named.plain.validate = .ok () := by rfl
  have named : "balp" ∈ Named.plain.kpis.map Kpi.name ++ Named.plain.queries.map Query.name := by
    simp [Named.plain]
  obtain ⟨tokens, kept, parsed, bound⟩ := Template.formula_of_name valid named
  have long : ¬ AccountToken.ShortForm "balp" := by decide
  exact ⟨valid, tokens.2 long, kept.2 long, parsed, bound _ _ (by rfl)⟩

/-- Validation accepts a KPI with the name of an account token; a formula that consists of the name
reads the balance of the account instead of the KPI. -/
theorem Template.formula_of_name_fails_for_short_form :
    Named.short.validate = .ok () ∧
      "bal_7" ∈ Named.short.kpis.map Kpi.name ++ Named.short.queries.map Query.name ∧
      AccountToken.tokensOf "bal_7" = .ok [Named.token] ∧
      Registry.substitute ⟨[Named.token], none⟩ "bal_7" = .ok "__acc_0" ∧
      Named.scope.get? "bal_7" = some (.number 5) ∧
      evalFormula Named.scope "__acc_0" = .ok (.number 100) := by
  have valid : Named.short.validate = .ok () := by rfl
  have tokens : AccountToken.tokensOf "bal_7" = .ok [Named.token] := by with_unfolding_all rfl
  have replaced : Registry.substitute ⟨[Named.token], none⟩ "bal_7" = .ok "__acc_0" := by
    with_unfolding_all rfl
  have found : evalFormula Named.scope "__acc_0" = .ok (.number 100) := by with_unfolding_all rfl
  exact ⟨valid, by simp [Named.short], tokens, replaced, by rfl, found⟩

end KpiReport
