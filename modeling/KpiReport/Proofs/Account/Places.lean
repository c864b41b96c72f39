import KpiReport.Proofs.Account.Texts
import KpiReport.Proofs.Definition.Naming

/-!
# Places in a scanned formula

`AccountToken.Scans` says which pieces a formula is scanned into, one step after the other. Between
two pieces there is a place. What is scanned after a place depends on what stands before it in two
ways only: whether the place is inside a quoted text (`quoteAfter`), and whether a word goes on
there. So the rest of a formula after an open place is scanned like a formula of its own
(`Scans.after`), and account tokens stand outside of quoted texts (`Scans.quoteAfter_of_token`).
-/

namespace KpiReport.AccountToken

open KpiReport.Text

/-! ## Where no account token is taken -/

theorem take?_eq_none_iff {cs : List Char} :
    take? cs = .ok none ↔ ∀ head, head? (cs.takeWhile isIdentChar) = some head →
      head.code = none ∧ (cs.dropWhile isIdentChar).head? ≠ some '[' := by
  unfold take?
  dsimp only
  split
  · rename_i other
    rw [other]
    exact iff_of_true rfl nofun
  · rename_i head read
    rw [read]
    split
    · rename_i code short
      refine iff_of_false (fun h => ?_) fun h => ?_
      · obtain ⟨_, -, other⟩ := map_eq_ok.1 h
        cases other
      · cases short.symm.trans (h head rfl).1
    · rename_i long
      split
      · rename_i inner opens
        rw [opens]
        refine iff_of_false (fun h => ?_) fun h => (h head rfl).2 rfl
        split at h
        · cases h
        · split at h
          · cases h
          · obtain ⟨_, -, other⟩ := map_eq_ok.1 h
            cases other
      · rename_i other
        refine iff_of_true rfl ?_
        rintro _ ⟨⟩
        refine ⟨long, fun opens => ?_⟩
        obtain ⟨inner, same⟩ := List.head?_eq_some_iff.1 opens
        exact other inner same

/-! ## Scanning as a relation -/

/-- The pieces are what their text is scanned into, after a character and inside a quoted text or
not. -/
inductive Scans : Option Char → Option Char → List Piece → Prop where
  | nil {previous quote : Option Char} : Scans previous quote []
  | cut {previous : Option Char} {q : Char} : Scans previous (some q) [.plain '\\']
  | escaped {previous : Option Char} {q e : Char} {ps : List Piece}
    (rest : Scans (some e) (some q) ps) :
    Scans previous (some q) (.plain '\\' :: .plain e :: ps)
  | quoted {previous : Option Char} {q c : Char} {ps : List Piece} (other : c ≠ '\\')
    (rest : Scans (some c) (if c = q then none else some q) ps) :
    Scans previous (some q) (.plain c :: ps)
  | opens {previous : Option Char} {c : Char} {ps : List Piece} (quote : isQuote c = true)
    (rest : Scans (some c) (some c) ps) : Scans previous none (.plain c :: ps)
  | plain {previous : Option Char} {c : Char} {ps : List Piece} (other : isQuote c = false)
    (untaken : atBoundary previous = true → isIdentStart c = true →
      take? (c :: fill text ps) = .ok none)
    (rest : Scans (some c) none ps) : Scans previous none (.plain c :: ps)
  | token {previous : Option Char} {t : AccountToken} {ps : List Piece}
    (boundary : atBoundary previous = true)
    (taken : take? (t.text.toList ++ fill text ps) = .ok (some (t, fill text ps)))
    (rest : Scans t.text.toList.getLast? none ps) : Scans previous none (.token t :: ps)

variable {previous quote : Option Char}

theorem scans_of_scanFrom {cs : List Char} {pieces : List Piece}
    (h : scanFrom previous quote cs = .ok pieces) : Scans previous quote pieces := by
  fun_induction scanFrom previous quote cs generalizing pieces with
  | case1 =>
    cases h
    exact .nil
  | case2 =>
    cases h
    exact .cut
  | case3 previous q e cs ih =>
    obtain ⟨rest, found, rfl⟩ := map_eq_ok.1 h
    exact .escaped (ih found)
  | case4 previous c cs q other ih =>
    obtain ⟨rest, found, rfl⟩ := map_eq_ok.1 h
    exact .quoted other (ih found)
  | case5 previous c cs opens ih =>
    obtain ⟨rest, found, rfl⟩ := map_eq_ok.1 h
    exact .opens opens (ih found)
  | case6 previous c cs plain start e failed => cases h
  | case7 previous c cs plain start found rest taken ih =>
    obtain ⟨pieces, more, rfl⟩ := map_eq_ok.1 h
    rw [Bool.and_eq_true] at start
    have left := fill_text_of_scanFrom more
    have whole := (shape_of_take taken).2
    refine .token start.1 ?_ (ih more)
    rw [left, ← whole]
    exact taken
  | case8 previous c cs plain start none ih =>
    obtain ⟨rest, found, rfl⟩ := map_eq_ok.1 h
    refine .plain (Bool.eq_false_iff.2 plain) (fun _ _ => ?_) (ih found)
    rw [fill_text_of_scanFrom found]
    exact none
  | case9 previous c cs plain inside ih =>
    obtain ⟨rest, found, rfl⟩ := map_eq_ok.1 h
    refine .plain (Bool.eq_false_iff.2 plain) (fun boundary start => ?_) (ih found)
    rw [boundary, start] at inside
    exact absurd rfl inside

theorem scans_of_scan {formula : String} {pieces : List Piece} (h : scan formula = .ok pieces) :
    Scans none none pieces :=
  scans_of_scanFrom h

/-! ## Quoted texts -/

/-- The quote of the text in which some pieces end, none where they end outside of quoted texts;
`quote` is that of the text in which they start. -/
def quoteAfter : (quote : Option Char) → List Piece → Option Char
  | quote, [] => quote
  | quote, .token _ :: pieces => quoteAfter quote pieces
  | none, .plain c :: pieces => quoteAfter (if isQuote c then some c else none) pieces
  | some q, [.plain c] => if c = q ∧ c ≠ '\\' then none else some q
  | some q, .plain c :: piece :: pieces =>
    if c = '\\' then quoteAfter (some q) pieces
    else quoteAfter (if c = q then none else some q) (piece :: pieces)

/-- The character before a place, `previous` being that before the pieces in front of it. -/
def charAfter (previous : Option Char) (pieces : List Piece) : Option Char :=
  (fill text pieces).getLast?.or previous

@[simp] theorem charAfter_plain (c : Char) (pieces : List Piece) :
    charAfter previous (.plain c :: pieces) = charAfter (some c) pieces := by
  rw [charAfter, charAfter, fill_plain, List.getLast?_cons]
  cases (fill text pieces).getLast? <;> rfl

theorem charAfter_token {t : AccountToken} (written : Shape t t.text.toList)
    (pieces : List Piece) :
    charAfter previous (.token t :: pieces) = charAfter t.text.toList.getLast? pieces := by
  obtain ⟨d, ds, chars, -, -⟩ := written.start
  rw [charAfter, charAfter, fill_token, List.getLast?_append, chars, List.getLast?_cons]
  cases (fill text pieces).getLast? <;> rfl

/-- **What stands after a place outside of quoted texts is scanned like a formula of its own**, but
for the character before it. -/
theorem Scans.after {before after : List Piece} (h : Scans previous quote (before ++ after))
    (unquoted : quoteAfter quote before = none) : Scans (charAfter previous before) none after := by
  fun_induction quoteAfter quote before generalizing previous with
  | case1 quote =>
    subst unquoted
    exact h
  | case2 quote t pieces ih =>
    cases h with
    | token _ taken rest =>
      rw [charAfter_token (shape_of_take taken).1]
      exact ih rest unquoted
  | case3 c pieces ih =>
    rw [charAfter_plain]
    cases h with
    | opens opened rest =>
      rw [if_pos opened] at ih unquoted
      exact ih rest unquoted
    | plain other _ rest =>
      rw [other] at ih unquoted
      exact ih rest unquoted
  | case4 q c closes =>
    obtain ⟨rfl, other⟩ := closes
    cases h with
    | cut => exact absurd rfl other
    | escaped _ => exact absurd rfl other
    | quoted _ rest =>
      rw [if_pos rfl] at rest
      exact rest
  | case5 => cases unquoted
  | case6 q piece pieces ih =>
    cases h with
    | escaped rest =>
      rw [charAfter_plain, charAfter_plain]
      exact ih rest unquoted
    | quoted other _ => exact absurd rfl other
  | case7 q c piece pieces other ih =>
    rw [charAfter_plain]
    cases h with
    | escaped _ => exact absurd rfl other
    | quoted _ rest => exact ih rest unquoted

/-- Account tokens stand outside of quoted texts. -/
theorem Scans.quoteAfter_of_token {before after : List Piece} {t : AccountToken}
    (h : Scans previous quote (before ++ .token t :: after)) : quoteAfter quote before = none := by
  fun_induction quoteAfter quote before generalizing previous with
  | case1 quote =>
    cases h
    rfl
  | case2 quote t pieces ih =>
    cases h with
    | token _ _ rest => exact ih rest
  | case3 c pieces ih =>
    cases h with
    | opens opened rest =>
      rw [if_pos opened] at ih ⊢
      exact ih rest
    | plain other _ rest =>
      rw [other] at ih ⊢
      exact ih rest
  | case4 => rfl
  | case5 q c open_ =>
    cases h with
    | quoted other rest =>
      -- the account token cannot stand inside of the quoted text
      by_cases closes : c = q
      · exact absurd ⟨closes, other⟩ open_
      · rw [if_neg closes] at rest
        cases rest
  | case6 q piece pieces ih =>
    cases h with
    | escaped rest => exact ih rest
    | quoted other _ => exact absurd rfl other
  | case7 q c piece pieces other ih =>
    cases h with
    | escaped _ => exact absurd rfl other
    | quoted _ rest => exact ih rest

end KpiReport.AccountToken
