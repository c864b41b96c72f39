import KpiReport.Proofs.Account.Readings
import KpiReport.Proofs.Evaluation.Failures

/-!
# Account tokens are recognised by their syntax

At the start of a word outside of quoted texts, a formula that can be scanned holds an account token
exactly if one is written there (`AccountToken.scan_recognises`): what the grammar writes is found
with its whole text, and the side, the mode and the selectors of what is found are those that its
text writes. A side and a mode before a bracket are never passed over.
-/

namespace KpiReport

open KpiReport.Text

namespace AccountToken

/-! ## What is written is taken -/

theorem withFilter_eq {filter : Filter} {brackets rest : List Char} (h : Brackets filter brackets)
    (ends : brackets = [] → rest.head? ≠ some '[') (head : Head) (selectors : List Selector)
    (text : List Char) :
    withFilter head selectors text (brackets ++ rest) =
      .ok (⟨String.ofList (text ++ brackets), head.side, head.mode, selectors, filter⟩, rest) := by
  cases h with
  | none =>
    rw [List.nil_append, List.append_nil]
    unfold withFilter
    split
    · exact absurd rfl (ends rfl)
    · rfl
  | @some _ content conditions =>
    have taken := takeBrackets?_of_closed conditions.closed rest
    rw [List.cons_append, List.append_assoc, List.singleton_append, withFilter]
    simp only [taken, inlineFilterOf_eq conditions]

theorem HeadWord.all {head : Head} {word : List Char} (h : HeadWord head word)
    (coded : ∀ code, head.code = some code → isCode code = true) :
    word.all isIdentChar = true := by
  have sided (side : Side) : side.word.all isIdentChar = true := by cases side <;> decide
  cases h with
  | long moded =>
    rw [List.all_append, sided]
    cases moded <;> decide
  | short moded _ =>
    have valid := (Bool.and_eq_true_iff.1 (coded _ rfl)).2
    rw [List.all_append, sided, List.all_append, List.all_cons, valid]
    cases moded <;> decide

/-- What the grammar writes is taken where it stands. -/
theorem take?_of_spelled {form : Form} {brackets rest : List Char} {token : AccountToken}
    (h : Spelled form brackets token) (ends : Ends form brackets rest) :
    take? (token.text.toList ++ rest) = .ok (some (token, rest)) := by
  obtain ⟨text, side, mode, selectors, filter⟩ := token
  obtain ⟨⟨body, written, whole⟩, filtered⟩ := h
  dsimp only at written whole filtered ⊢
  obtain rfl : text = String.ofList (body ++ brackets) := by rw [← whole, String.ofList_toList]
  rw [whole, List.append_assoc]
  cases written with
  | @short _ _ code _ head valid =>
    have all : body.all isIdentChar = true := head.all fun _ same => by
      cases same
      exact valid
    have stops : ∀ c ∈ (brackets ++ rest).head?, isIdentChar c = false := by
      cases filtered with
      | none => exact ends.code rfl rfl
      | some _ =>
        rintro c ⟨⟩
        decide
    obtain ⟨word, left⟩ := takeWhile_append_of_head all stops
    unfold take?
    simp only [word, left, head?_eq_some_iff.2 head, withFilter_eq filtered ends.bracket]
    rfl
  | @long _ _ _ word content head selection =>
    have all : word.all isIdentChar = true := head.all nofun
    have stops : ∀ c ∈ ('[' :: (content ++ ']' :: (brackets ++ rest))).head?,
        isIdentChar c = false := by
      rintro c ⟨⟩
      decide
    obtain ⟨first, left⟩ := takeWhile_append_of_head all stops
    have taken := takeBrackets?_of_closed selection.closed (brackets ++ rest)
    have cut : word ++ '[' :: (content ++ [']']) ++ (brackets ++ rest) =
        word ++ '[' :: (content ++ ']' :: (brackets ++ rest)) := by simp
    unfold take?
    rw [cut]
    simp only [first, left, head?_eq_some_iff.2 head, taken, selectorsOf_eq_ok_iff.2 selection,
      withFilter_eq filtered ends.bracket]
    rfl

/-! ## What is taken is written -/

/-- Nothing, or a text between brackets. -/
def Bracketed (brackets : List Char) : Prop :=
  brackets = [] ∨ ∃ content, brackets = '[' :: (content ++ [']'])

theorem inv_of_withFilter {head : Head} {selectors : List Selector} {text rest after : List Char}
    {token : AccountToken} (h : withFilter head selectors text rest = .ok (token, after)) :
    ∃ brackets, Bracketed brackets ∧ token.text.toList = text ++ brackets ∧
      rest = brackets ++ after ∧ (brackets = [] → after.head? ≠ some '[') ∧
      token.side = head.side ∧ token.mode = head.mode ∧ token.selectors = selectors := by
  unfold withFilter at h
  split at h
  · split at h
    · cases h
    · rename_i content rest taken
      dsimp only at h
      split at h
      · cases h
      · cases h
        refine ⟨_, .inr ⟨content, rfl⟩, String.toList_ofList, ?_, nofun, rfl, rfl, rfl⟩
        rw [eq_of_takeBrackets? taken]
        simp
  · rename_i other
    cases h
    refine ⟨[], .inl rfl, ?_, rfl, fun _ opens => ?_, rfl, rfl, rfl⟩
    · rw [List.append_nil, String.toList_ofList]
    · obtain ⟨cs, same⟩ := List.head?_eq_some_iff.1 opens
      exact other cs same

theorem HeadWord.isCode {side : Side} {mode : Mode} {code word : List Char}
    (h : HeadWord ⟨side, mode, some code⟩ word) (all : word.all isIdentChar = true) :
    isCode code = true := by
  cases h with
  | short _ _ =>
    rw [List.all_append, List.all_append, Bool.and_eq_true, Bool.and_eq_true, List.all_cons,
      Bool.and_eq_true] at all
    exact Bool.and_eq_true_iff.2 ⟨rfl, all.2.2.2⟩

theorem Body.bodied {form : Form} {side : Side} {mode : Mode} {selectors : List Selector}
    {body brackets : List Char} {token : AccountToken}
    (written : Body form side mode selectors body) (text : token.text.toList = body ++ brackets)
    (sided : token.side = side) (moded : token.mode = mode) (own : token.selectors = selectors) :
    Bodied form brackets token := by
  subst sided moded own
  exact ⟨_, written, text⟩

/-- What is taken is written by the grammar up to its inline filter, and ends where it can. -/
theorem bodied_of_take {cs after : List Char} {token : AccountToken}
    (h : take? cs = .ok (some (token, after))) :
    ∃ form brackets, Bodied form brackets token ∧ Bracketed brackets ∧
      Ends form brackets after := by
  have all : (cs.takeWhile isIdentChar).all isIdentChar = true := by
    rw [List.all_eq_true]
    exact fun c => List.mem_takeWhile_imp
  unfold take? at h
  dsimp only at h
  split at h
  · cases h
  · rename_i head read
    have word := head?_eq_some_iff.1 read
    split at h
    · rename_i code short
      obtain ⟨side, mode, _⟩ := head
      obtain rfl := short
      obtain ⟨⟨found, left⟩, filtered, same⟩ := map_eq_ok.1 h
      cases same
      obtain ⟨brackets, bracketed, text, rest, ends, sided, moded, own⟩ :=
        inv_of_withFilter filtered
      have body := Body.short word (word.isCode all)
      refine ⟨.short, brackets, body.bodied text sided moded own, bracketed,
        fun _ none c first => ?_, ends⟩
      rw [none, List.nil_append] at rest
      have stops := List.head?_dropWhile_not isIdentChar cs
      rw [rest, Option.mem_def.1 first] at stops
      simpa using stops
    · rename_i long
      split at h
      · split at h
        · cases h
        · rename_i content rest taken
          split at h
          · cases h
          · rename_i selectors selected
            obtain ⟨side, mode, _⟩ := head
            obtain rfl := long
            obtain ⟨⟨found, left⟩, filtered, same⟩ := map_eq_ok.1 h
            cases same
            obtain ⟨brackets, bracketed, text, -, ends, sided, moded, own⟩ :=
              inv_of_withFilter filtered
            have body := Body.long word (selectorsOf_eq_ok_iff.1 selected)
            exact ⟨.long, brackets, body.bodied text sided moded own, bracketed, nofun, ends⟩
      · cases h

/-! ## Recognition -/

/-- A place outside of quoted texts and of account tokens at which a word can start: some pieces
stand in front of it. -/
structure Open (before : List Piece) : Prop where
  unquoted : quoteAfter none before = none
  boundary : atBoundary (charAfter none before) = true

theorem Body.start {form : Form} {side : Side} {mode : Mode} {selectors : List Selector}
    {body : List Char} (h : Body form side mode selectors body) :
    ∃ c cs, body = c :: cs ∧ isIdentStart c = true := by
  cases h with
  | short head _ | long head _ =>
    obtain ⟨c, cs, rfl, start, -⟩ := exists_of_head? (head?_eq_some_iff.2 head)
    exact ⟨c, _, rfl, start⟩

/-- At an open place a word that is taken for an account token is scanned as one. -/
theorem Scans.exists_token {previous : Option Char} {pieces : List Piece}
    (h : Scans previous none pieces) (boundary : atBoundary previous = true) {c : Char}
    {cs : List Char} (text : fill text pieces = c :: cs) (start : isIdentStart c = true)
    (taken : take? (c :: cs) ≠ .ok none) :
    ∃ token later, pieces = .token token :: later ∧
      take? (c :: cs) = .ok (some (token, fill AccountToken.text later)) := by
  cases h with
  | nil => cases text
  | opens quote _ =>
    cases text
    rw [isQuote_of_isIdentChar (isIdentChar_of_isIdentStart start)] at quote
    cases quote
  | plain _ untaken _ =>
    cases text
    exact absurd (untaken boundary start) taken
  | @token _ token later _ found _ =>
    rw [fill_token] at text
    rw [text] at found
    exact ⟨token, later, rfl, found⟩

/-- How account tokens are recognised in a formula that is scanned into some pieces. -/
structure Recognises (formula : String) (pieces : List Piece) : Prop where
  /-- The pieces make up the formula. -/
  whole : fill text pieces = formula.toList
  /-- What the grammar writes at an open place is an account token with that text. -/
  spelled : ∀ before after, pieces = before ++ after → Open before →
    ∀ form brackets token rest, Spelled form brackets token → Ends form brackets rest →
      fill text after = token.text.toList ++ rest →
      ∃ later, after = .token token :: later ∧ fill text later = rest
  /-- The first word of an account token with a bracket right after it, at an open place, starts
  an account token. -/
  opened : ∀ before after, pieces = before ++ after → Open before →
    ∀ head word rest, HeadWord head word → word.all isIdentChar = true →
      fill text after = word ++ '[' :: rest → ∃ token later, after = .token token :: later
  /-- Every account token stands at an open place and says its side, its mode and its selectors by
  the grammar. -/
  bodied : ∀ before token later, pieces = before ++ .token token :: later → Open before ∧
    ∃ form brackets, Bodied form brackets token ∧ Bracketed brackets ∧
      Ends form brackets (fill text later)

theorem recognises_of_scan {formula : String} {pieces : List Piece}
    (h : scan formula = .ok pieces) : Recognises formula pieces := by
  have scans := scans_of_scan h
  refine ⟨fill_text_of_scan h, ?_, ?_, ?_⟩
  · rintro before after rfl place form brackets token rest spelled ends text
    obtain ⟨body, written, whole⟩ := spelled.body
    obtain ⟨c, cs, rfl, start⟩ := written.start
    have taken := take?_of_spelled spelled ends
    rw [whole, List.append_assoc, List.cons_append] at text taken
    obtain ⟨found, later, rfl, taken'⟩ :=
      (scans.after place.unquoted).exists_token place.boundary text start (by
        rw [taken]
        nofun)
    cases taken.symm.trans taken'
    exact ⟨later, rfl, rfl⟩
  · rintro before after rfl place head word rest written all text
    have read := head?_eq_some_iff.2 written
    obtain ⟨c, cs, rfl, start, -⟩ := exists_of_head? read
    have stops : ∀ d ∈ ('[' :: rest).head?, isIdentChar d = false := by
      rintro d ⟨⟩
      decide
    obtain ⟨first, left⟩ := takeWhile_append_of_head all stops
    have taken : take? (c :: cs ++ '[' :: rest) ≠ .ok none := by
      rw [Ne, take?_eq_none_iff, first, left]
      exact fun none => (none head read).2 rfl
    obtain ⟨token, later, same, -⟩ :=
      (scans.after place.unquoted).exists_token place.boundary text start taken
    exact ⟨token, later, same⟩
  · rintro before token later rfl
    have unquoted := scans.quoteAfter_of_token
    cases scans.after unquoted with
    | token boundary taken _ => exact ⟨⟨unquoted, boundary⟩, bodied_of_take taken⟩

/-- **Account tokens are recognised exactly by their syntax.** In a formula that can be scanned
they are those that the grammar writes at the starts of words outside of quoted texts; the first
word of an account token before a bracket is one of them, or the formula cannot be scanned, and all
failures are those of malformed account tokens. -/
theorem scan_recognises (formula : String) :
    (∀ pieces, scan formula = .ok pieces → Recognises formula pieces) ∧
      ∀ e, scan formula = .error e → ∃ text fault, e = .malformedToken text fault :=
  ⟨fun _ => recognises_of_scan,
    failsOnly_scanFrom (fun text fault => ⟨text, fault, rfl⟩) none none formula.toList⟩

/-! ## An account token in a formula -/

namespace Recognised

/-- The account token of the formula. -/
def token : AccountToken where
  text := "crdi[7, 5%][j != 'a]']"
  side := .credit
  mode := .initial
  selectors := [.code "7", .pattern "5%"]
  filter := [.field "j" .ne (.text "a]")]

/-- A formula with an account token after a quoted one and an attribute. -/
def formula : String := "'bal_1' - x.bal_2 + crdi[7, 5%][j != 'a]']"

/-- What stands in front of the account token. -/
def before : List Piece := "'bal_1' - x.bal_2 + ".toList.map .plain

/-- The text of the inline filter. -/
def brackets : List Char := "[j != 'a]']".toList

theorem scanned : scan formula = .ok (before ++ [.token token]) := by with_unfolding_all rfl

theorem selection : Selection [.code "7", .pattern "5%"] "7, 5%".toList := by
  have code := @SelectorItem.code ['7'] ['7'] rfl (Padded.self _)
  have pattern := @SelectorItem.pattern ['5', '%'] [' ', '5', '%'] rfl (by decide)
    ⟨[' '], [], rfl, rfl, rfl⟩
  exact .listed (.next code (.last pattern))

theorem conditions : Conditions [.field "j" .ne (.text "a]")] "j != 'a]'".toList := by
  have value := @ItemValue.text '\'' ['a', ']'] rfl (by decide)
  have item := @FilterItem.field "j" .ne _ _ _ ['j', ' '] [' ', '\'', 'a', ']', '\''] rfl
    ⟨[], [' '], rfl, rfl, rfl⟩ .ne value ⟨[' '], [], rfl, rfl, rfl⟩
  exact .listed (.last item)

theorem spelled : Spelled .long brackets token where
  body := ⟨"crdi[7, 5%]".toList, .long (.long .initial) selection, rfl⟩
  filter := .some conditions

theorem place : Open before where
  unquoted := by decide
  boundary := by decide

end Recognised

/-- An account token with a closing bracket inside a quoted value is recognised to its end, behind a
quoted one and an attribute; one whose bracket is never closed is refused. -/
theorem scan_recognises_quoted_bracket :
    scan Recognised.formula = .ok (Recognised.before ++ [.token Recognised.token]) ∧
      Spelled .long Recognised.brackets Recognised.token ∧
      (∃ later, [Piece.token Recognised.token] = .token Recognised.token :: later ∧
        fill text later = []) ∧
      (∃ token later, [Piece.token Recognised.token] = .token token :: later) ∧
      (∃ form brackets, Bodied form brackets Recognised.token ∧ Bracketed brackets) ∧
      scan "bal[7" = .error (.malformedToken "bal[7" .unbalancedBrackets) ∧
      ∃ text fault, ReportError.malformedToken "bal[7" .unbalancedBrackets =
        .malformedToken text fault := by
  have recognised := (scan_recognises Recognised.formula).1 _ Recognised.scanned
  have found := recognised.spelled _ _ rfl Recognised.place _ _ _ [] Recognised.spelled
    ⟨nofun, nofun⟩ rfl
  have opened := recognised.opened _ _ rfl Recognised.place ⟨.credit, .initial, none⟩ _ _
    (.long .initial) (by decide) rfl
  obtain ⟨-, form, brackets, bodied, bracketed, -⟩ :=
    recognised.bodied Recognised.before Recognised.token [] rfl
  have failed : scan "bal[7" = .error (.malformedToken "bal[7" .unbalancedBrackets) := by
    with_unfolding_all rfl
  exact ⟨Recognised.scanned, Recognised.spelled, found, opened, ⟨form, brackets, bodied, bracketed⟩,
    failed, (scan_recognises "bal[7").2 _ failed⟩

end AccountToken

end KpiReport
