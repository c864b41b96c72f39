import KpiReport.Proofs.Account.OwnNames
import KpiReport.Proofs.Account.Places

/-!
# Formulas whose account tokens have been replaced

The private names start with an underscore, with which no account token starts, and end with a
character of identifiers, after which none starts. So replacing the account tokens of a formula
makes no new ones, whatever stood around them. The main statement, `Registry.substitute_clears`,
says that a formula whose account tokens have been replaced is left as it is from then on.
-/

namespace KpiReport

open KpiReport.Text

namespace AccountToken

/-! ## Where no account token is taken -/

/-- Two texts start with the same word, and the same character follows it. -/
structure SameWord (cs ds : List Char) : Prop where
  word : cs.takeWhile isIdentChar = ds.takeWhile isIdentChar
  next : (cs.dropWhile isIdentChar).head? = (ds.dropWhile isIdentChar).head?

theorem SameWord.cons {c : Char} {cs ds : List Char} (h : SameWord cs ds) :
    SameWord (c :: cs) (c :: ds) := by
  cases word : isIdentChar c with
  | true =>
    constructor
    · rw [List.takeWhile_cons_of_pos word, List.takeWhile_cons_of_pos word, h.word]
    · rw [List.dropWhile_cons_of_pos word, List.dropWhile_cons_of_pos word, h.next]
  | false =>
    have other := Bool.eq_false_iff.1 word
    constructor
    · rw [List.takeWhile_cons_of_neg other, List.takeWhile_cons_of_neg other]
    · rw [List.dropWhile_cons_of_neg other, List.dropWhile_cons_of_neg other]
      rfl

theorem SameWord.take?_eq_none {cs ds : List Char} (h : SameWord cs ds)
    (none : take? cs = .ok none) : take? ds = .ok Option.none := by
  rw [take?_eq_none_iff, ← h.word, ← h.next]
  exact take?_eq_none_iff.1 none

/-! ## Texts without account tokens -/

/-- The text is scanned into characters only. -/
def Clear (previous quote : Option Char) (cs : List Char) : Prop :=
  scanFrom previous quote cs = .ok (cs.map .plain)

variable {previous : Option Char} {c q e : Char} {cs : List Char}

theorem clear_nil (previous quote : Option Char) : Clear previous quote [] := by
  rw [Clear, scanFrom]
  rfl

theorem clear_cut (previous : Option Char) (q : Char) : Clear previous (some q) ['\\'] := by
  rw [Clear, scanFrom]
  rfl

theorem Clear.escaped (h : Clear (some e) (some q) cs) :
    Clear previous (some q) ('\\' :: e :: cs) := by
  rw [Clear, scanFrom, if_pos rfl, h]
  rfl

theorem Clear.quoted (other : c ≠ '\\') (h : Clear (some c) (if c = q then none else some q) cs) :
    Clear previous (some q) (c :: cs) := by
  rw [Clear, scanFrom.eq_def]
  dsimp only
  rw [if_neg other, h]
  rfl

theorem Clear.opens (quote : isQuote c = true) (h : Clear (some c) (some c) cs) :
    Clear previous none (c :: cs) := by
  rw [Clear, scanFrom, if_pos quote, h]
  rfl

theorem Clear.plain (other : isQuote c = false)
    (untaken : atBoundary previous = true → isIdentStart c = true → take? (c :: cs) = .ok none)
    (h : Clear (some c) none cs) : Clear previous none (c :: cs) := by
  cases starts : atBoundary previous && isIdentStart c with
  | true =>
    rw [Bool.and_eq_true] at starts
    rw [Clear, scanFrom_of_take_none starts.1 starts.2 (untaken starts.1 starts.2), h]
    rfl
  | false =>
    rw [Clear, scanFrom, other, starts, if_neg Bool.false_ne_true, if_neg Bool.false_ne_true, h]
    rfl

/-- After a character of identifiers no account token starts before the word ends. -/
theorem clear_word_append {ds : List Char} (word : isIdentChar c = true)
    (all : ds.all isIdentChar = true)
    (after : ∀ d, isIdentChar d = true → Clear (some d) none cs) :
    Clear (some c) none (ds ++ cs) := by
  induction ds generalizing c with
  | nil => exact after c word
  | cons d ds ih =>
    rw [List.all_cons, Bool.and_eq_true] at all
    refine .plain (isQuote_of_isIdentChar all.1) (fun boundary => ?_) (ih all.1 all.2)
    rw [atBoundary, word] at boundary
    cases boundary

/-! ## Names that hold no account tokens -/

/-- The names are identifiers that start with an underscore. -/
def Hidden (names : AccountToken → String) : Prop :=
  ∀ t, ∃ cs, (names t).toList = '_' :: cs ∧ cs.all isIdentChar = true

variable {names : AccountToken → String}

/-- The rest of a word does not depend on the names: account tokens start words. -/
theorem Scans.sameWord {pieces : List Piece} (h : Scans (some c) none pieces)
    (word : isIdentChar c = true) (names names' : AccountToken → String) :
    SameWord (fill names pieces) (fill names' pieces) := by
  have stops {d : Char} {ps : List Piece} (other : isIdentChar d = false) :
      SameWord (fill names (.plain d :: ps)) (fill names' (.plain d :: ps)) := by
    rw [fill_plain, fill_plain]
    constructor <;> simp [other]
  generalize before : some c = previous at h
  generalize outside : (none : Option Char) = quote at h
  induction h generalizing c with
  | nil => exact ⟨rfl, rfl⟩
  | cut | escaped | quoted => cases outside
  | @opens _ d ps quote _ _ =>
    refine stops (Bool.eq_false_iff.2 fun word => ?_)
    rw [isQuote_of_isIdentChar word] at quote
    cases quote
  | @plain _ d ps _ _ _ ih =>
    cases goes : isIdentChar d with
    | true => exact .cons (ih goes rfl rfl)
    | false => exact stops goes
  | token boundary _ _ _ =>
    subst before
    rw [atBoundary, word] at boundary
    cases boundary

/-- With hidden names for its account tokens, a scanned text holds none. No word may start after
the character that is put in front unless one starts after the old one. -/
theorem Scans.clear (hidden : Hidden names) {previous previous' quote : Option Char}
    {pieces : List Piece} (h : Scans previous quote pieces)
    (fewer : atBoundary previous' = true → atBoundary previous = true) :
    Clear previous' quote (fill names pieces) := by
  induction h generalizing previous' with
  | nil => exact clear_nil _ _
  | cut => exact clear_cut _ _
  | escaped _ ih => exact (ih id).escaped
  | quoted other _ ih => exact (ih id).quoted other
  | opens quote _ ih => exact (ih id).opens quote
  | @plain _ c ps other untaken rest ih =>
    refine .plain other (fun boundary start => ?_) (ih id)
    have same := rest.sameWord (isIdentChar_of_isIdentStart start) text names
    exact same.cons.take?_eq_none (untaken (fewer boundary) start)
  | @token _ t ps _ _ _ ih =>
    obtain ⟨cs, chars, all⟩ := hidden t
    have word : isIdentChar '_' = true := by decide
    have after : Clear (some '_') none (cs ++ fill names ps) := by
      refine clear_word_append word all fun d ident => ih fun boundary => ?_
      rw [atBoundary, ident] at boundary
      cases boundary
    rw [fill_token, chars, List.cons_append]
    refine .plain (by decide) (fun _ _ => ?_) after
    rw [take?_eq_none_iff, List.takeWhile_cons_of_pos word]
    intro head read
    cases read

end AccountToken

namespace Registry

open AccountToken

theorem hidden_nameOf (registry : Registry) : Hidden registry.nameOf := by
  intro token
  obtain ⟨c, cs, chars, -, all, -⟩ := registry.names_nameOf token
  have shown := toList_privateName ((registry.index? token.text).getD 0)
  cases chars.symm.trans shown
  exact ⟨_, shown, all⟩

/-! ## Known account tokens -/

/-- What registrations and look-ups make of a registry. -/
inductive LeadsTo (start : Registry) : Registry → Prop where
  | refl : LeadsTo start start
  | register {registry registry' : Registry} {formula : String} (before : LeadsTo start registry)
      (done : registry.register formula = .ok registry') : LeadsTo start registry'
  | resolve {registry registry' : Registry} {ledger : Ledger} {root : String} {t t' : Trace}
      (before : LeadsTo start registry)
      (done : Runs (registry.resolve ledger root) t registry' t') : LeadsTo start registry'

/-- The texts of the tokens of a registry. -/
def texts (registry : Registry) : List String :=
  registry.tokens.map AccountToken.text

theorem mem_texts_add {registry : Registry} {token : AccountToken} {text : String} :
    text ∈ (registry.add token).texts ↔ text ∈ registry.texts ∨ text = token.text := by
  unfold add
  split
  · rename_i index known
    refine ⟨.inl, Or.rec id ?_⟩
    rintro rfl
    obtain ⟨other, stands, same⟩ := index?_eq_some known
    exact same ▸ List.mem_map_of_mem (List.mem_of_getElem? stands)
  · simp [texts]

theorem mem_texts_foldl_add {registry : Registry} {tokens : List AccountToken} {text : String} :
    text ∈ (tokens.foldl add registry).texts ↔
      text ∈ registry.texts ∨ text ∈ tokens.map AccountToken.text := by
  induction tokens generalizing registry with
  | nil => simp
  | cons token tokens ih =>
    rw [List.foldl_cons, ih, mem_texts_add, List.map_cons, List.mem_cons, or_assoc]

theorem LeadsTo.texts_subset {start registry : Registry} (h : start.LeadsTo registry) :
    start.texts ⊆ registry.texts := by
  induction h with
  | refl => exact List.Subset.refl _
  | register _ done ih =>
    obtain ⟨tokens, -, rfl⟩ := map_eq_ok.1 done
    exact fun text known => mem_texts_foldl_add.2 (.inl (ih known))
  | resolve _ done ih =>
    obtain ⟨chart, -, rfl⟩ := resolve_inv done
    exact ih

/-- What was registered once can be substituted ever after. -/
theorem LeadsTo.exists_substitute {start registered later : Registry} {formula : String}
    (done : start.register formula = .ok registered) (h : registered.LeadsTo later) :
    ∃ out, later.substitute formula = .ok out := by
  obtain ⟨tokens, found, rfl⟩ := map_eq_ok.1 done
  have known : ∀ token ∈ tokens, ∃ index, later.index token = .ok index := by
    intro token member
    have listed := h.texts_subset (mem_texts_foldl_add.2 (.inr (List.mem_map_of_mem member)))
    cases found : later.index? token.text with
    | none => exact absurd listed (index?_eq_none_iff.1 found)
    | some index =>
      refine ⟨index, ?_⟩
      rw [Registry.index, found]
      rfl
  obtain ⟨indices, registered⟩ := exists_mapM_eq_ok known
  exact Registry.exists_substitute found registered

/-- The formula of a substitution is cut at its account tokens, which stand outside of quoted texts;
what stands between them is kept, and private names stand for them. -/
def Replaces (registry : Registry) (formula out : String) : Prop :=
  ∃ pieces, scan formula = .ok pieces ∧ fill text pieces = formula.toList ∧
    fill registry.nameOf pieces = out.toList ∧
    ∀ before token after, pieces = before ++ .token token :: after →
      quoteAfter none before = none

theorem replaces_of_substitute {registry : Registry} {formula out : String}
    (h : registry.substitute formula = .ok out) : registry.Replaces formula out := by
  obtain ⟨pieces, scanned, filled⟩ := substitute_eq_ok h
  refine ⟨pieces, scanned, fill_text_of_scan scanned, filled.symm, ?_⟩
  rintro before token after rfl
  exact (scans_of_scan scanned).quoteAfter_of_token

theorem scan_of_substitute {registry : Registry} {formula out : String}
    (h : registry.substitute formula = .ok out) : scan out = .ok (out.toList.map .plain) := by
  obtain ⟨pieces, scanned, filled⟩ := substitute_eq_ok h
  rw [scan, filled]
  exact (scans_of_scan scanned).clear registry.hidden_nameOf id

/-- **Substitution removes every account token of a formula, and is idempotent.** What it makes of
the formula holds no account token and is left as it is by every registry; all of the formula but
its account tokens is kept. It succeeds on every registry in which the formula has been registered
before. -/
theorem substitute_clears (formula : String) :
    (∀ (registry : Registry) (out : String), registry.substitute formula = .ok out →
      scan out = .ok (out.toList.map .plain) ∧ tokensOf out = .ok [] ∧ occursIn out = false ∧
        (∀ other : Registry, other.substitute out = .ok out) ∧ registry.Replaces formula out) ∧
      ∀ start registered later : Registry, start.register formula = .ok registered →
        registered.LeadsTo later → ∃ out, later.substitute formula = .ok out := by
  refine ⟨fun registry out h => ?_, fun start registered later done leads =>
    leads.exists_substitute done⟩
  have scanned := scan_of_substitute h
  have none : tokensOf out = .ok [] := by
    rw [tokensOf, scanned]
    simp [Except.map, Piece.token?]
  have absent : occursIn out = false := by
    rw [occursIn, none]
    rfl
  exact ⟨scanned, none, absent, substitute_of_plain scanned, replaces_of_substitute h⟩

end Registry

/-! ## Two account tokens without a character between them -/

namespace Merged

/-- The account tokens of the formula. -/
def tokens : List AccountToken :=
  [⟨"bal[7]", .balance, .variation, [.code "7"], []⟩,
    ⟨"crdi_8[j = 'B']", .credit, .initial, [.code "8"], [.field "j" .eq (.text "B")]⟩]

/-- A formula in which an account token follows another one, and one stands in a quoted text. -/
def formula : String := "bal[7]crdi_8[j = 'B']x + 'bal[7]'"

/-- The formula with private names, which are merged with what follows them. -/
def out : String := "__acc_0__acc_1x + 'bal[7]'"

end Merged

/-- Two account tokens without a character between them are both replaced, and the quoted one is
kept. -/
theorem Registry.substitute_clears_merged :
    Registry.substitute ⟨Merged.tokens, none⟩ Merged.formula = .ok Merged.out ∧
      AccountToken.tokensOf Merged.out = .ok [] ∧
      (∀ other : Registry, other.substitute Merged.out = .ok Merged.out) ∧
      Registry.Replaces ⟨Merged.tokens, none⟩ Merged.formula Merged.out ∧
      Registry.register {} Merged.formula = .ok ⟨Merged.tokens, none⟩ ∧
      ∃ out, Registry.substitute ⟨Merged.tokens, none⟩ Merged.formula = .ok out := by
  have replaced : Registry.substitute ⟨Merged.tokens, none⟩ Merged.formula = .ok Merged.out := by
    with_unfolding_all rfl
  have registered : Registry.register {} Merged.formula = .ok ⟨Merged.tokens, none⟩ := by
    with_unfolding_all rfl
  obtain ⟨cleared, known⟩ := Registry.substitute_clears Merged.formula
  obtain ⟨-, none, -, kept, replaces⟩ := cleared _ _ replaced
  exact ⟨replaced, none, kept, replaces, registered, known _ _ _ registered .refl⟩

end KpiReport
