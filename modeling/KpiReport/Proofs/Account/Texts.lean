import KpiReport.Proofs.Account.Substitution
import KpiReport.Proofs.Formula.Closing

/-!
# The texts of account tokens

A formula is made of the texts of its account tokens and the characters between them
(`AccountToken.fill_text_of_scan`). The text of an account token is an identifier or ends with a
closing bracket, so where it can be cut into tokens alone, it is cut into the same tokens in a
formula (`AccountToken.Written.readAs`).
-/

namespace KpiReport.AccountToken

open KpiReport.Text

/-! ## Formulas are made of their pieces -/

theorem eq_of_takeBrackets? {quote : Option Char} {cs content rest : List Char}
    (h : takeBrackets? quote cs = some (content, rest)) : cs = content ++ ']' :: rest := by
  induction cs generalizing quote content with
  | nil => cases h
  | cons c cs ih =>
    have step {quote : Option Char}
        (h : takeBrackets?.prepend c (takeBrackets? quote cs) = some (content, rest)) :
        c :: cs = content ++ ']' :: rest := by
      obtain ⟨⟨inside, after⟩, found, same⟩ := Option.map_eq_some_iff.1 h
      cases same
      rw [ih found, List.cons_append]
    unfold takeBrackets? at h
    split at h
    · exact step h
    · split at h
      · exact step h
      · split at h
        · rename_i closes
          cases h
          rw [closes, List.nil_append]
        · split at h
          · cases h
          · exact step h

/-- What stands after the head and the selectors of an account token: nothing, or an inline filter
between brackets. -/
inductive FilterText (filter : Filter) : List Char → Prop where
  | none (empty : filter = []) : FilterText filter []
  | brackets {content : List Char} (read : inlineFilterOf content = .ok filter) :
    FilterText filter ('[' :: (content ++ [']']))

theorem filterText_of_withFilter {head : Head} {selectors : List Selector}
    {text rest after : List Char} {token : AccountToken}
    (h : withFilter head selectors text rest = .ok (token, after)) :
    ∃ brackets, FilterText token.filter brackets ∧ token.text.toList = text ++ brackets ∧
      rest = brackets ++ after ∧ token.selectors = selectors := by
  unfold withFilter at h
  split at h
  · split at h
    · cases h
    · rename_i content rest taken
      dsimp only at h
      split at h
      · cases h
      · rename_i filter read
        cases h
        refine ⟨_, .brackets read, String.toList_ofList, ?_, rfl⟩
        rw [eq_of_takeBrackets? taken]
        simp
  · cases h
    exact ⟨[], .none rfl, by rw [List.append_nil, String.toList_ofList], rfl, rfl⟩

/-- How the text of an account token is made up. -/
inductive Shape (token : AccountToken) : List Char → Prop where
  | short {word brackets : List Char} {head : Head} {code : List Char}
    (all : word.all isIdentChar = true) (found : head? word = some head)
    (coded : head.code = some code) (filter : FilterText token.filter brackets) :
    Shape token (word ++ brackets)
  | long {word content brackets : List Char} {head : Head}
    (all : word.all isIdentChar = true) (found : head? word = some head)
    (read : selectorsOf content = .ok token.selectors)
    (filter : FilterText token.filter brackets) :
    Shape token (word ++ '[' :: (content ++ ']' :: brackets))

/-- An account token at the start of a text is taken with its whole text. -/
theorem shape_of_take {cs after : List Char} {token : AccountToken}
    (h : take? cs = .ok (some (token, after))) :
    Shape token token.text.toList ∧ cs = token.text.toList ++ after := by
  have all : (cs.takeWhile isIdentChar).all isIdentChar = true := by
    rw [List.all_eq_true]
    exact fun c => List.mem_takeWhile_imp
  have whole := (List.takeWhile_append_dropWhile (p := isIdentChar) (l := cs)).symm
  unfold take? at h
  dsimp only at h
  split at h
  · cases h
  · rename_i head read
    split at h
    · rename_i code short
      obtain ⟨⟨found, left⟩, filtered, same⟩ := map_eq_ok.1 h
      cases same
      obtain ⟨brackets, filter, text, rest, -⟩ := filterText_of_withFilter filtered
      rw [text]
      refine ⟨.short all read short filter, ?_⟩
      rw [List.append_assoc, ← rest, ← whole]
    · split at h
      · rename_i opens
        split at h
        · cases h
        · rename_i content rest taken
          split at h
          · cases h
          · rename_i selectors selected
            obtain ⟨⟨found, left⟩, filtered, same⟩ := map_eq_ok.1 h
            cases same
            obtain ⟨brackets, filter, text, rest, own⟩ := filterText_of_withFilter filtered
            rw [← own] at selected
            have inner := eq_of_takeBrackets? taken
            have text' : token.text.toList =
                cs.takeWhile isIdentChar ++ '[' :: (content ++ ']' :: brackets) := by
              rw [text]
              simp
            rw [text']
            refine ⟨.long all read selected filter, whole.trans ?_⟩
            rw [opens, inner, rest]
            simp
      · cases h

theorem Written.shape {t : AccountToken} (h : t.Written) : Shape t t.text.toList :=
  (shape_of_take h).1

/-- A text is made of the texts of its pieces. -/
theorem fill_text_of_scanFrom {previous quote : Option Char} {cs : List Char} {pieces : List Piece}
    (h : scanFrom previous quote cs = .ok pieces) : fill text pieces = cs := by
  have skip {c : Char} {cs : List Char} {scanned : Result (List Piece)} {pieces : List Piece}
      (ih : ∀ {pieces}, scanned = .ok pieces → fill text pieces = cs)
      (h : scanned.map (.plain c :: ·) = .ok pieces) : fill text pieces = c :: cs := by
    obtain ⟨rest, found, rfl⟩ := map_eq_ok.1 h
    rw [fill_plain, ih found]
  fun_induction scanFrom previous quote cs generalizing pieces with
  | case1 =>
    cases h
    rfl
  | case2 =>
    cases h
    rfl
  | case3 previous q c cs ih =>
    obtain ⟨rest, found, rfl⟩ := map_eq_ok.1 h
    rw [fill_plain, fill_plain, ih found]
  | case4 previous c cs q other ih => exact skip ih h
  | case5 previous c cs opens ih => exact skip ih h
  | case6 previous c cs plain start e failed => cases h
  | case7 previous c cs plain start found rest taken ih =>
    obtain ⟨pieces, more, rfl⟩ := map_eq_ok.1 h
    rw [fill_token, ih more]
    exact (shape_of_take taken).2.symm
  | case8 previous c cs plain start none ih => exact skip ih h
  | case9 previous c cs plain inside ih => exact skip ih h

theorem fill_text_of_scan {formula : String} {pieces : List Piece}
    (h : scan formula = .ok pieces) : fill text pieces = formula.toList :=
  fill_text_of_scanFrom h

/-! ## Account tokens as formulas -/

theorem exists_of_head? {word : List Char} {head : Head} (h : head? word = some head) :
    ∃ c cs, word = c :: cs ∧ isIdentStart c = true ∧ ¬ (c = 'e' ∨ c = 'E') := by
  unfold head? at h
  obtain ⟨⟨side, rest⟩, taken, -⟩ := Option.bind_eq_some_iff.1 h
  unfold takeSide? at taken
  split at taken
  · exact ⟨_, _, rfl, by decide, by decide⟩
  · exact ⟨_, _, rfl, by decide, by decide⟩
  · exact ⟨_, _, rfl, by decide, by decide⟩
  · cases taken

theorem Shape.start {t : AccountToken} {cs : List Char} (h : Shape t cs) :
    ∃ d ds, cs = d :: ds ∧ isIdentStart d = true ∧ ¬ (d = 'e' ∨ d = 'E') := by
  cases h with
  | short _ found _ _ | long _ found _ _ =>
    obtain ⟨d, ds, rfl, start, other⟩ := exists_of_head? found
    exact ⟨d, _, rfl, start, other⟩

theorem heads_text : Heads text :=
  fun _ written => written.shape.start

theorem FilterText.closed {filter : Filter} {brackets : List Char}
    (h : FilterText filter brackets) : brackets = [] ∨ ∃ xs, brackets = xs ++ [']'] := by
  cases h with
  | none _ => exact .inl rfl
  | @brackets content _ => exact .inr ⟨'[' :: content, rfl⟩

/-- The text of an account token is an identifier, or it ends with a closing bracket. -/
theorem Shape.closed {t : AccountToken} (h : Shape t t.text.toList) :
    isIdentifier t.text = true ∨ ∃ xs, t.text.toList = xs ++ [']'] := by
  generalize same : t.text.toList = cs at h
  cases h with
  | @short word brackets head code all found _ filter =>
    rcases filter.closed with rfl | ⟨xs, rfl⟩
    · obtain ⟨c, ds, rfl, start, -⟩ := exists_of_head? found
      rw [List.all_cons, Bool.and_eq_true] at all
      left
      rw [isIdentifier, same, List.append_nil]
      exact Bool.and_eq_true_iff.2 ⟨start, all.2⟩
    · exact .inr ⟨word ++ xs, by rw [List.append_assoc]⟩
  | @long word content brackets head _ _ _ filter =>
    right
    rcases filter.closed with rfl | ⟨xs, rfl⟩
    · exact ⟨word ++ '[' :: content, by simp⟩
    · exact ⟨word ++ '[' :: (content ++ ']' :: xs), by simp⟩

/-- An account token whose text can be cut into tokens is cut into the same tokens in a formula,
where no character of identifiers follows it. -/
theorem Written.readAs {t : AccountToken} (h : t.Written) {ts : List Token}
    (cut : Token.ofText t.text = .ok ts) : ReadAs t.text ts := by
  intro rest ends
  rcases h.shape.closed with identifier | ⟨xs, closed⟩
  · have single := readAs_of_isIdentifier identifier [] nofun
    rw [List.append_nil, Token.ofChars] at single
    obtain rfl : ts = [.name t.text] := by
      cases cut.symm.trans single
      rfl
    exact readAs_of_isIdentifier identifier rest ends
  · rw [Token.ofText, closed] at cut
    rw [closed, List.append_assoc]
    exact (Token.ofChars_closed cut).2 rest

end KpiReport.AccountToken
