import KpiReport.Account.Scan
import KpiReport.Proofs.Results
import Mathlib.Data.List.TakeWhile

/-!
# Account tokens are what they are written as

A token that was found in a formula can be read again from its own text (`AccountToken.take_text`),
whatever followed it there. So tokens with one text are one token.
-/

namespace KpiReport.AccountToken

open KpiReport.Text

/-- What stands between brackets does not depend on what follows them. -/
theorem takeBrackets_again {quote : Option Char} {cs content rest : List Char}
    (h : takeBrackets? quote cs = some (content, rest)) (rest' : List Char) :
    takeBrackets? quote (content ++ ']' :: rest') = some (content, rest') := by
  induction cs generalizing quote content with
  | nil => simp [takeBrackets?] at h
  | cons c cs ih =>
    have step {quote quote' : Option Char}
        (h : takeBrackets?.prepend c (takeBrackets? quote' cs) = some (content, rest))
        (unfolds : ∀ cs, takeBrackets? quote (c :: cs) =
          takeBrackets?.prepend c (takeBrackets? quote' cs)) :
        takeBrackets? quote (content ++ ']' :: rest') = some (content, rest') := by
      simp only [takeBrackets?.prepend, Option.map_eq_some_iff] at h
      obtain ⟨⟨inside, after⟩, found, same⟩ := h
      cases same
      rw [List.cons_append, unfolds, ih found]
      rfl
    cases quote with
    | some q => exact step h fun _ => by rw [takeBrackets?]
    | none =>
      rw [takeBrackets?] at h
      by_cases opens : isQuote c = true
      · rw [if_pos opens] at h
        exact step h fun _ => by rw [takeBrackets?, if_pos opens]
      · rw [if_neg opens] at h
        by_cases closes : c = ']'
        · rw [if_pos closes] at h
          cases h
          rw [List.nil_append, takeBrackets?, if_neg (by decide), if_pos rfl]
        · rw [if_neg closes] at h
          by_cases nested : c = '['
          · rw [if_pos nested] at h
            cases h
          · rw [if_neg nested] at h
            exact step h fun _ => by
              rw [takeBrackets?, if_neg opens, if_neg closes, if_neg nested]

/-- The text is empty or starts with an opening bracket, so no word goes on there. -/
def EndsWord (text : List Char) : Prop :=
  text = [] ∨ ∃ cs, text = '[' :: cs

theorem EndsWord.takeWhile {text : List Char} (h : EndsWord text) (cs : List Char) :
    (cs.takeWhile isIdentChar ++ text).takeWhile isIdentChar = cs.takeWhile isIdentChar := by
  rw [List.takeWhile_append_of_pos fun _ => List.mem_takeWhile_imp]
  obtain rfl | ⟨inside, rfl⟩ := h
  · simp
  · rw [List.takeWhile_cons_of_neg (by decide), List.append_nil]

theorem EndsWord.dropWhile {text : List Char} (h : EndsWord text) (cs : List Char) :
    (cs.takeWhile isIdentChar ++ text).dropWhile isIdentChar = text := by
  rw [List.dropWhile_append_of_pos fun _ => List.mem_takeWhile_imp]
  obtain rfl | ⟨inside, rfl⟩ := h
  · rfl
  · exact List.dropWhile_cons_of_neg (by decide)

theorem withFilter_again {head : Head} {selectors : List Selector} {text rest after : List Char}
    {token : AccountToken} (h : withFilter head selectors text rest = .ok (token, after)) :
    ∃ brackets, EndsWord brackets ∧ token.text.toList = text ++ brackets ∧
      withFilter head selectors text brackets = .ok (token, []) := by
  unfold withFilter at h
  split at h
  · split at h
    · cases h
    · rename_i content rest taken
      dsimp only at h
      split at h
      · cases h
      · rename_i filter read
        cases h
        refine ⟨'[' :: (content ++ [']']), Or.inr ⟨_, rfl⟩, String.toList_ofList, ?_⟩
        rw [withFilter, takeBrackets_again taken []]
        dsimp only
        rw [read]
  · cases h
    refine ⟨[], Or.inl rfl, ?_, rfl⟩
    rw [List.append_nil]
    exact String.toList_ofList

/-- A token can be read again from its own text. -/
theorem take_text {cs after : List Char} {token : AccountToken}
    (h : take? cs = .ok (some (token, after))) :
    take? token.text.toList = .ok (some (token, [])) := by
  unfold take? at h
  dsimp only at h
  split at h
  · cases h
  · rename_i head read
    split at h
    · rename_i code short
      obtain ⟨⟨found, left⟩, filtered, same⟩ := map_eq_ok.1 h
      cases same
      obtain ⟨brackets, ends, text, again⟩ := withFilter_again filtered
      rw [text, take?, ends.takeWhile, ends.dropWhile, read]
      dsimp only
      rw [short]
      exact map_eq_ok.2 ⟨_, again, rfl⟩
    · rename_i long
      split at h
      · split at h
        · cases h
        · rename_i content rest taken
          split at h
          · cases h
          · rename_i selectors selected
            obtain ⟨⟨found, left⟩, filtered, same⟩ := map_eq_ok.1 h
            cases same
            obtain ⟨brackets, -, text, again⟩ := withFilter_again filtered
            have ends : EndsWord ('[' :: (content ++ ']' :: brackets)) := Or.inr ⟨_, rfl⟩
            have whole : token.text.toList =
                cs.takeWhile isIdentChar ++ '[' :: (content ++ ']' :: brackets) := by
              rw [text]
              simp
            rw [whole, take?, ends.takeWhile, ends.dropWhile, read]
            dsimp only
            rw [long]
            simp only [takeBrackets_again taken brackets, selected]
            exact map_eq_ok.2 ⟨_, again, rfl⟩
      · cases h

/-- The token is what its text is read as. -/
def Written (token : AccountToken) : Prop :=
  take? token.text.toList = .ok (some (token, []))

theorem Written.eq_of_text {a b : AccountToken} (ha : a.Written) (hb : b.Written)
    (same : a.text = b.text) : a = b := by
  unfold Written at ha hb
  rw [same, hb] at ha
  simpa using ha.symm

theorem written_of_scanFrom {previous quote : Option Char} {cs : List Char} {pieces : List Piece}
    (h : scanFrom previous quote cs = .ok pieces) {token : AccountToken}
    (member : .token token ∈ pieces) : token.Written := by
  have skip {scanned : Result (List Piece)} {pieces : List Piece} {c : Char}
      (ih : ∀ {pieces}, scanned = .ok pieces → .token token ∈ pieces → token.Written)
      (h : scanned.map (.plain c :: ·) = .ok pieces) (member : .token token ∈ pieces) :
      token.Written := by
    obtain ⟨rest, found, rfl⟩ := map_eq_ok.1 h
    exact ih found (by simpa using member)
  fun_induction scanFrom previous quote cs generalizing pieces with
  | case1 =>
    cases h
    cases member
  | case2 =>
    cases h
    simp at member
  | case3 previous q c cs ih =>
    obtain ⟨rest, found, rfl⟩ := map_eq_ok.1 h
    exact ih found (by simpa using member)
  | case4 previous c cs q other ih => exact skip ih h member
  | case5 previous c cs opens ih => exact skip ih h member
  | case6 previous c cs plain start e failed => cases h
  | case7 previous c cs plain start found rest taken ih =>
    obtain ⟨pieces, more, rfl⟩ := map_eq_ok.1 h
    rcases List.mem_cons.1 member with same | member
    · cases same
      exact take_text taken
    · exact ih more member
  | case8 previous c cs plain start none ih => exact skip ih h member
  | case9 previous c cs plain inside ih => exact skip ih h member

/-- The tokens of a formula are what they are written as. -/
theorem written_of_tokensOf {formula : String} {tokens : List AccountToken}
    (h : tokensOf formula = .ok tokens) {token : AccountToken} (member : token ∈ tokens) :
    token.Written := by
  obtain ⟨pieces, scanned, rfl⟩ := map_eq_ok.1 h
  obtain ⟨piece, inside, same⟩ := List.mem_filterMap.1 member
  cases piece with
  | plain c => cases same
  | token found =>
    cases same
    exact written_of_scanFrom scanned inside

theorem occursIn_iff {formula : String} :
    occursIn formula = true ↔ ∃ tokens, tokensOf formula = .ok tokens ∧ tokens ≠ [] := by
  unfold occursIn
  cases tokensOf formula with
  | error e => simp
  | ok tokens => simp

end KpiReport.AccountToken
