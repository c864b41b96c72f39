import KpiReport.Proofs.Account.Texts
import KpiReport.Proofs.Formula.Renaming

/-!
# Selectors in formulas

What an account token writes between its brackets to select accounts can always be cut into tokens
of formulas, and no reference is found there: a point comes only as half of the two points of a
range. So the text of an account token without inline filter, read as a formula, holds no reference
(`AccountToken.Written.dottedReferences_text`), whatever its selectors are.
-/

namespace KpiReport

open KpiReport.Text

/-! ## Cut texts -/

namespace Text

theorem splitOn_ne_nil (separator : Char) (cs : List Char) : splitOn separator cs ≠ [] := by
  cases cs with
  | nil => nofun
  | cons c cs =>
    rw [splitOn]
    split
    · nofun
    · split <;> nofun

theorem eq_of_splitOn {separator : Char} {cs piece : List Char} {pieces : List (List Char)}
    (h : splitOn separator cs = piece :: pieces) :
    cs = piece ++ pieces.flatMap (separator :: ·) := by
  induction cs generalizing piece pieces with
  | nil =>
    cases h
    rfl
  | cons c cs ih =>
    obtain ⟨first, more, rest⟩ := List.exists_cons_of_ne_nil (splitOn_ne_nil separator cs)
    rw [splitOn] at h
    split at h
    · rename_i same
      cases h
      rw [rest, List.flatMap_cons, List.nil_append, List.cons_append, ← ih rest, same]
    · rw [rest] at h
      cases h
      rw [List.cons_append, ← ih rest]

theorem eq_of_dropStart? {start text rest : List Char} (h : dropStart? start text = some rest) :
    text = start ++ rest := by
  induction start generalizing text with
  | nil =>
    cases h
    rfl
  | cons s start ih =>
    cases text with
    | nil => cases h
    | cons c text =>
      rw [dropStart?] at h
      split at h
      · rename_i same
        rw [ih h, same, List.cons_append]
      · cases h

theorem eq_of_cutAt? {separator cs before after : List Char}
    (h : cutAt? separator cs = some (before, after)) : cs = before ++ (separator ++ after) := by
  induction cs generalizing before with
  | nil =>
    cases separator with
    | nil =>
      cases h
      rfl
    | cons s separator => cases h
  | cons c cs ih =>
    rw [cutAt?] at h
    split at h
    · rename_i rest found
      cases h
      rw [List.nil_append, ← eq_of_dropStart? found]
    · obtain ⟨⟨before, after⟩, found, same⟩ := Option.map_eq_some_iff.1 h
      cases same
      rw [ih found, List.cons_append]

theorem exists_eq_trimEnd (cs : List Char) :
    ∃ blanks, cs = trimEnd cs ++ blanks ∧ blanks.all isBlank = true := by
  refine ⟨(cs.reverse.takeWhile isBlank).reverse, ?_, ?_⟩
  · rw [trimEnd, ← List.reverse_append, List.takeWhile_append_dropWhile, List.reverse_reverse]
  · rw [List.all_reverse, List.all_eq_true]
    exact fun c => List.mem_takeWhile_imp

/-- A text is what is left of it without blank characters at its ends, between blank characters. -/
theorem exists_eq_trim (cs : List Char) : ∃ blanks blanks',
    cs = blanks ++ (trim cs ++ blanks') ∧ blanks.all isBlank = true ∧
      blanks'.all isBlank = true := by
  obtain ⟨blanks', whole, all⟩ := exists_eq_trimEnd (trimStart cs)
  refine ⟨cs.takeWhile isBlank, blanks', ?_, ?_, all⟩
  · rw [trim, ← whole, trimStart, List.takeWhile_append_dropWhile]
  · rw [List.all_eq_true]
    exact fun c => List.mem_takeWhile_imp

end Text

/-! ## Listings -/

/-- Whether a character may occur in a listing by itself: those of identifiers, blank characters and
some punctuation. -/
def isListed (c : Char) : Bool :=
  isIdentChar c || isBlank c || ['%', ',', '-', '[', ']'].contains c

/-- A text of listed characters and pairs of points. -/
inductive Listing : List Char → Prop where
  | nil : Listing []
  | char {c : Char} {cs : List Char} (listed : isListed c = true) (rest : Listing cs) :
    Listing (c :: cs)
  | points {cs : List Char} (rest : Listing cs) : Listing ('.' :: '.' :: cs)

namespace Listing

theorem append {xs ys : List Char} (h : Listing xs) (h' : Listing ys) : Listing (xs ++ ys) := by
  induction h with
  | nil => exact h'
  | char listed _ ih => exact .char listed ih
  | points _ ih => exact .points ih

theorem of_all {p : Char → Bool} (listed : ∀ c, p c = true → isListed c = true) {cs : List Char}
    (all : cs.all p = true) : Listing cs := by
  induction cs with
  | nil => exact .nil
  | cons c cs ih =>
    rw [List.all_cons, Bool.and_eq_true] at all
    exact .char (listed c all.1) (ih all.2)

theorem of_ident {cs : List Char} (all : cs.all isIdentChar = true) : Listing cs :=
  of_all (fun c word => by rw [isListed, word, Bool.true_or, Bool.true_or]) all

theorem of_blank {cs : List Char} (all : cs.all isBlank = true) : Listing cs :=
  of_all (fun c blank => by rw [isListed, blank, Bool.or_true, Bool.true_or]) all

theorem of_trim {cs : List Char} (h : Listing (trim cs)) : Listing cs := by
  obtain ⟨blanks, blanks', whole, all, all'⟩ := exists_eq_trim cs
  rw [whole]
  exact (of_blank all).append (h.append (of_blank all'))

theorem of_isEmpty_trim {cs : List Char} (empty : (trim cs).isEmpty = true) : Listing cs := by
  apply of_trim
  rw [List.isEmpty_iff.1 empty]
  exact .nil

theorem tail {c : Char} {cs : List Char} (h : Listing (c :: cs)) (other : c ≠ '.') :
    Listing cs := by
  cases h with
  | char _ rest => exact rest
  | points _ => exact absurd rfl other

theorem dropWhile {p : Char → Bool} (other : p '.' = false) {cs : List Char} (h : Listing cs) :
    Listing (cs.dropWhile p) := by
  induction cs with
  | nil => exact h
  | cons c cs ih =>
    cases own : p c with
    | false => rwa [List.dropWhile_cons_of_neg (Bool.eq_false_iff.1 own)]
    | true =>
      rw [List.dropWhile_cons_of_pos own]
      refine ih (h.tail ?_)
      rintro rfl
      rw [other] at own
      cases own

/-! ## Reading listings -/

open KpiReport.Decimal

theorem takeDigits {cs : List Char} (h : Listing cs) : Listing (takeDigits cs).2 :=
  h.dropWhile (by decide)

theorem takePlaces {cs : List Char} (h : Listing cs) : Listing (Token.takePlaces cs).2 := by
  cases h with
  | nil => exact .nil
  | @char c cs listed rest =>
    have other : c ≠ '.' := by
      rintro rfl
      exact absurd listed (by decide)
    rw [AccountToken.takePlaces_of_ne other]
    exact .char listed rest
  | points rest => exact .points rest

theorem takeSign {cs : List Char} (h : Listing cs) : Listing (takeSign cs).2 := by
  unfold Decimal.takeSign
  split
  · exact h.tail (by decide)
  · exact h.tail (by decide)
  · exact h

theorem takeExponent {cs : List Char} (h : Listing cs) : Listing (Token.takeExponent cs).2 := by
  cases cs with
  | nil => exact h
  | cons e cs =>
    by_cases letter : e = 'e' ∨ e = 'E'
    · have rest : Listing cs := by
        apply h.tail
        rcases letter with rfl | rfl <;> decide
      rw [Token.takeExponent, if_pos letter]
      dsimp only
      split
      · exact h
      · rename_i taken
        have left := rest.takeSign.takeDigits
        rw [taken] at left
        exact left
    · rw [AccountToken.takeExponent_of_ne letter]
      exact h

/-- A mark that starts no mark of two characters is a token by itself. -/
theorem next_of_mark {c : Char} {p : Punct} (digit : c.isDigit = false)
    (start : isIdentStart c = false) (other : ¬ (c = '\'' ∨ c = '"'))
    (mark : Punct.ofChar? c = some p) (alone : ∀ d, Punct.ofPair? c d = none) (cs : List Char) :
    Token.next c cs = .ok (.punct p, cs) := by
  unfold Token.next Token.takePunct
  rw [digit, if_neg Bool.false_ne_true, start, if_neg Bool.false_ne_true, if_neg other,
    Option.bind_eq_none_iff.2 fun d _ => alone d, mark]

/-- The token at the start of a listing, which is no point. -/
theorem next {c : Char} {cs : List Char} (listed : isListed c = true) (solid : isBlank c = false)
    (h : Listing cs) : ∃ token rest, Token.next c cs = .ok (token, rest) ∧ Listing rest ∧
      token ≠ .punct .dot := by
  have whole : Listing (c :: cs) := .char listed h
  cases digit : c.isDigit with
  | true =>
    refine ⟨_, _, if_pos digit, ?_, nofun⟩
    exact whole.takeDigits.takePlaces.takeExponent
  | false =>
    cases start : isIdentStart c with
    | true =>
      unfold Token.next
      rw [digit, if_neg Bool.false_ne_true, start, if_pos rfl]
      exact ⟨_, _, rfl, h.dropWhile (by decide), nofun⟩
    | false =>
      have word : isIdentChar c = false := by
        rw [isIdentStart, Bool.or_eq_false_iff] at start
        rw [isIdentChar, Char.isAlphanum, start.1, digit, start.2]
        rfl
      rw [isListed, word, solid, Bool.false_or, Bool.false_or, List.contains_iff_mem] at listed
      have single {p : Punct} := next_of_mark (p := p) digit start
      simp only [List.mem_cons, List.not_mem_nil, or_false] at listed
      rcases listed with rfl | rfl | rfl | rfl | rfl
      · exact ⟨.punct .modulo, cs, single (by decide) rfl (fun _ => rfl) cs, h, by decide⟩
      · exact ⟨.punct .comma, cs, single (by decide) rfl (fun _ => rfl) cs, h, by decide⟩
      · exact ⟨.punct .minus, cs, single (by decide) rfl (fun _ => rfl) cs, h, by decide⟩
      · exact ⟨.punct .openBracket, cs, single (by decide) rfl (fun _ => rfl) cs, h, by decide⟩
      · exact ⟨.punct .closeBracket, cs, single (by decide) rfl (fun _ => rfl) cs, h, by decide⟩

theorem ofChars_points (cs : List Char) : Token.ofChars ('.' :: '.' :: cs) =
    (Token.ofChars cs).map fun ts => .punct .dot :: .punct .dot :: ts := by
  have solid : isBlank '.' = false := by decide
  have read (cs : List Char) : Token.next '.' cs = .ok (.punct .dot, cs) :=
    next_of_mark (by decide) (by decide) (by decide) rfl (fun _ => rfl) cs
  rw [AccountToken.ofChars_of_next solid (read _), AccountToken.ofChars_of_next solid (read _)]
  cases Token.ofChars cs <;> rfl

/-- A listing can be cut into tokens; no reference is found, and a point among the tokens at their
start is followed by another one. -/
theorem ofChars {cs : List Char} (h : Listing cs) : ∃ ts, Token.ofChars cs = .ok ts ∧
    (∀ afterDot, Token.references afterDot ts = []) ∧
      ∀ us, ts = .punct .dot :: us → ∃ vs, us = .punct .dot :: vs := by
  match cs, h with
  | [], _ => exact ⟨[], by rw [Token.ofChars], fun _ => rfl, nofun⟩
  | c :: cs, .char listed rest =>
    cases blank : isBlank c with
    | true =>
      rw [AccountToken.ofChars_of_isBlank blank]
      exact ofChars rest
    | false =>
      obtain ⟨token, left, read, listing, other⟩ := next listed blank rest
      have shorter := Token.length_next_le read
      obtain ⟨ts, cut, none, points⟩ := ofChars listing
      refine ⟨token :: ts, ?_, fun afterDot => ?_, ?_⟩
      · rw [AccountToken.ofChars_of_next blank read, cut]
        rfl
      · rw [Token.references_of_not_reference, none]
        rintro base attr us - same
        obtain ⟨vs, again⟩ := points _ same
        cases again
      · rintro us ⟨rfl, rfl⟩
        exact absurd rfl other
  | '.' :: '.' :: cs, .points rest =>
    -- Neither point starts a reference, and what follows them comes after a point.
    obtain ⟨ts, cut, none, -⟩ := ofChars rest
    refine ⟨.punct .dot :: .punct .dot :: ts, ?_, fun afterDot => ?_, ?_⟩
    · rw [ofChars_points, cut]
      rfl
    · exact none _
    · rintro us ⟨⟩
      exact ⟨ts, rfl⟩
termination_by cs.length

end Listing

/-! ## The texts of account tokens -/

namespace AccountToken

theorem listing_of_isCode {cs : List Char} (h : isCode cs = true) : Listing cs :=
  .of_ident (Bool.and_eq_true_iff.1 h).2

theorem listing_of_range {first separator last : List Char} (listing : Listing separator)
    (first' : isCode (trim first) = true) (last' : isCode (trim last) = true) :
    Listing (first ++ (separator ++ last)) :=
  (Listing.of_trim (listing_of_isCode first')).append
    (listing.append (Listing.of_trim (listing_of_isCode last')))

theorem listing_of_selectorOf {item : List Char} {selector : Selector}
    (h : selectorOf item = .ok selector) : Listing item := by
  unfold selectorOf at h
  dsimp only at h
  split at h
  · cases h
  · split at h
    · rename_i first last found
      split at h
      · cases h
      · rename_i valid
        simp only [Bool.or_eq_true, Bool.not_eq_true', not_or, Bool.not_eq_false] at valid
        rcases Option.or_eq_some_iff.1 found with points | ⟨-, hyphen⟩
        · rw [eq_of_cutAt? points]
          exact listing_of_range (.points .nil) valid.1 valid.2
        · rw [eq_of_cutAt? hyphen]
          exact listing_of_range (.char (by decide) .nil) valid.1 valid.2
    · split at h
      · split at h
        · rename_i pattern
          refine Listing.of_all (fun c listed => ?_) pattern
          rcases Bool.or_eq_true_iff.1 listed with percent | word
          · rw [beq_iff_eq] at percent
            subst percent
            decide
          · rw [isListed, word, Bool.true_or, Bool.true_or]
        · cases h
      · split at h
        · rename_i valid
          exact listing_of_isCode valid
        · cases h

theorem listing_of_selectorsOf {content : List Char} {selectors : List Selector}
    (h : selectorsOf content = .ok selectors) : Listing content := by
  unfold selectorsOf at h
  split at h
  · rename_i empty
    exact .of_isEmpty_trim empty
  · have each : ∀ item ∈ splitOn ',' content, Listing item := by
      intro item member
      obtain ⟨selector, -, read⟩ := exists_mem_of_mapM h member
      exact .of_trim (listing_of_selectorOf read)
    obtain ⟨piece, pieces, cut⟩ := List.exists_cons_of_ne_nil (splitOn_ne_nil ',' content)
    rw [cut, List.forall_mem_cons] at each
    obtain ⟨first, rest⟩ := each
    rw [eq_of_splitOn cut]
    refine first.append ?_
    -- Every item after the first has its comma before it.
    clear cut
    induction pieces with
    | nil => exact .nil
    | cons piece pieces ih =>
      rw [List.forall_mem_cons] at rest
      exact (Listing.char (by decide) rest.1).append (ih rest.2)

theorem splitItems_ne_nil (quote : Option Char) (cs : List Char) : splitItems quote cs ≠ [] := by
  cases cs with
  | nil => nofun
  | cons c cs =>
    rw [splitItems.eq_def]
    dsimp only
    split
    · nofun
    · split <;> nofun

theorem FilterText.listing {brackets : List Char} (h : FilterText [] brackets) :
    Listing brackets := by
  cases h with
  | none _ => exact .nil
  | @brackets content read =>
    have inside : Listing content := by
      unfold inlineFilterOf at read
      split at read
      · rename_i empty
        exact .of_isEmpty_trim empty
      · obtain ⟨item, items, cut⟩ := List.exists_cons_of_ne_nil (splitItems_ne_nil .none content)
        rw [cut, mapM_eq_ok] at read
        cases read
    exact .char (by decide) (inside.append (.char (by decide) .nil))

theorem Shape.listing {t : AccountToken} {cs : List Char} (h : Shape t cs) (none : t.filter = []) :
    Listing cs := by
  cases h with
  | short all _ _ filter =>
    rw [none] at filter
    exact (Listing.of_ident all).append filter.listing
  | long all _ read filter =>
    rw [none] at filter
    have closed := Listing.char (c := ']') (by decide) filter.listing
    have content := (listing_of_selectorsOf read).append closed
    exact (Listing.of_ident all).append (.char (by decide) content)

/-- An account token without inline filter holds no reference, whatever its selectors are. -/
theorem Written.dottedReferences_text {t : AccountToken} (h : t.Written) (none : t.filter = []) :
    dottedReferences t.text = .ok [] := by
  obtain ⟨ts, cut, references, -⟩ := (h.shape.listing none).ofChars
  rw [dottedReferences, Token.ofText, cut]
  exact congrArg Except.ok (references false)

end AccountToken

end KpiReport
