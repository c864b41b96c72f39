import KpiReport.Proofs.Account.TokenSyntax

/-!
# Reading the parts of account tokens

Selectors and the first words of account tokens are read exactly as the grammar writes them
(`AccountToken.selectorsOf_eq_ok_iff`, `AccountToken.head?_eq_some_iff`). An inline filter that the
grammar writes is read as that filter (`AccountToken.inlineFilterOf_eq`); the reader takes some
more, such as a quoted text that holds its own quote.
-/

namespace KpiReport

open KpiReport.Text

namespace AccountToken

/-! ## Selectors -/

/-- Account codes and patterns are made of characters that separate nothing. -/
def isCodeChar (c : Char) : Bool :=
  c == '%' || isIdentChar c

theorem solid_of_isCodeChar {c : Char} (h : isCodeChar c = true) : isBlank c = false := by
  rcases Bool.or_eq_true_iff.1 h with percent | word
  · rw [beq_iff_eq] at percent
    subst percent
    decide
  · exact isBlank_of_isIdentChar word

theorem isPattern_of_isCode {code : List Char} (h : isCode code = true) :
    code ≠ [] ∧ isPattern code = true := by
  rw [isCode, Bool.and_eq_true, Bool.not_eq_true', List.isEmpty_eq_false_iff] at h
  refine ⟨h.1, ?_⟩
  rw [isPattern, List.all_eq_true]
  intro c member
  rw [List.all_eq_true.1 h.2 c member, Bool.or_true]

theorem solid_of_isPattern {pattern : List Char} (nonempty : pattern ≠ [])
    (h : isPattern pattern = true) : Solid pattern :=
  solid_of_all (fun _ => solid_of_isCodeChar) nonempty h

theorem solid_of_isCode {code : List Char} (h : isCode code = true) : Solid code :=
  solid_of_isPattern (isPattern_of_isCode h).1 (isPattern_of_isCode h).2

theorem not_mem_of_all {p : Char → Bool} {c : Char} {cs : List Char} (all : cs.all p = true)
    (other : p c = false) : c ∉ cs := by
  intro member
  rw [List.all_eq_true.1 all c member] at other
  cases other

/-- Without a hyphen and without points an item is a code or a pattern. -/
theorem cutAt?_of_isPattern {item : List Char} (h : isPattern item = true) :
    (cutAt? ['.', '.'] item).or (cutAt? ['-'] item) = none := by
  rw [cutAt?_of_not_mem (not_mem_of_all h (by decide)),
    cutAt?_of_not_mem (not_mem_of_all h (by decide))]
  rfl

/-- A range is cut at its hyphen or its points, whatever blank characters stand around them. -/
theorem cutAt?_of_range {first last after before separator : List Char}
    (valid : isCode first = true) (valid' : isCode last = true) (blank : after.all isBlank = true)
    (blank' : before.all isBlank = true) (points : separator = ['-'] ∨ separator = ['.', '.']) :
    let item := first ++ (after ++ (separator ++ (before ++ last)))
    (cutAt? ['.', '.'] item).or (cutAt? ['-'] item) = some (first ++ after, before ++ last) := by
  have free {c : Char} (other : isCodeChar c = false) (solid : isBlank c = false) :
      c ∉ first ++ after ∧ c ∉ before ++ last := by
    simp only [List.mem_append, not_or]
    exact ⟨⟨not_mem_of_all (isPattern_of_isCode valid).2 other, not_mem_of_all blank solid⟩,
      not_mem_of_all blank' solid, not_mem_of_all (isPattern_of_isCode valid').2 other⟩
  obtain ⟨point, point'⟩ := free (c := '.') (by decide) (by decide)
  obtain ⟨hyphen, -⟩ := free (c := '-') (by decide) (by decide)
  dsimp only
  rw [← List.append_assoc]
  rcases points with rfl | rfl
  · have uncut : '.' ∉ first ++ after ++ (['-'] ++ (before ++ last)) := by
      simp only [List.mem_append, not_or] at point point' ⊢
      exact ⟨point, by decide, point'⟩
    rw [cutAt?_of_not_mem uncut, cutAt?_append hyphen]
    rfl
  · rw [cutAt?_append point]
    rfl

theorem selectorOf_eq {selector : Selector} {cs : List Char} (h : SelectorItem selector cs) :
    selectorOf (trim cs) = .ok selector := by
  cases h with
  | @code code _ valid padded =>
    obtain ⟨nonempty, all⟩ := isPattern_of_isCode valid
    have plain : '%' ∉ code := not_mem_of_all (Bool.and_eq_true_iff.1 valid).2 (by decide)
    rw [padded.trim_eq (solid_of_isCode valid), selectorOf]
    simp only [List.isEmpty_eq_false_iff.2 nonempty, cutAt?_of_isPattern all,
      List.contains_eq_mem, plain, decide_false, valid, Bool.false_eq_true, if_false, if_true]
  | @pattern pattern _ valid percent padded =>
    have nonempty : pattern ≠ [] := List.ne_nil_of_mem percent
    rw [padded.trim_eq (solid_of_isPattern nonempty valid), selectorOf]
    simp only [List.isEmpty_eq_false_iff.2 nonempty, cutAt?_of_isPattern valid,
      List.contains_eq_mem, percent, decide_true, valid, Bool.false_eq_true, if_false, if_true]
  | @range first last _ separator _ valid valid' padded padded' points ordered =>
    obtain ⟨after, before, blank, blank', padded⟩ := padded.join padded' separator
    have solid := solid_of_isCode valid
    have solid' := solid_of_isCode valid'
    have nonempty : first ++ (after ++ (separator ++ (before ++ last))) ≠ [] :=
      List.append_ne_nil_of_left_ne_nil (isPattern_of_isCode valid).1 _
    have trimmed : trim (first ++ after) = first :=
      ((Padded.self first).append_blank blank).trim_eq solid
    have trimmed' : trim (before ++ last) = last :=
      ((Padded.self last).blank_append blank').trim_eq solid'
    have whole := solid.join solid' (after ++ (separator ++ before))
    simp only [List.append_assoc] at whole
    rw [padded.trim_eq whole, selectorOf]
    simp only [List.isEmpty_eq_false_iff.2 nonempty, cutAt?_of_range valid valid' blank blank'
      points, trimmed, trimmed', valid, valid', ordered, Bool.not_true, Bool.or_self,
      Bool.false_eq_true, if_false, if_true]

theorem exists_separator {cs first last : List Char}
    (h : (cutAt? ['.', '.'] cs).or (cutAt? ['-'] cs) = some (first, last)) :
    ∃ separator : List Char, (separator = ['-'] ∨ separator = ['.', '.']) ∧
      cs = first ++ (separator ++ last) := by
  rcases Option.or_eq_some_iff.1 h with points | ⟨-, hyphen⟩
  · exact ⟨_, .inr rfl, eq_of_cutAt? points⟩
  · exact ⟨_, .inl rfl, eq_of_cutAt? hyphen⟩

theorem selectorItem_of_selectorOf {selector : Selector} {cs : List Char}
    (h : selectorOf (trim cs) = .ok selector) : SelectorItem selector cs := by
  have padded := padded_trim cs
  unfold selectorOf at h
  dsimp only at h
  split at h
  · cases h
  · split at h
    · rename_i first last found
      split at h
      · cases h
      · rename_i valid
        simp only [Bool.or_eq_true, Bool.not_eq_true', not_or, Bool.not_eq_false] at valid
        split at h
        · rename_i ordered
          cases h
          obtain ⟨separator, points, whole⟩ := exists_separator found
          obtain ⟨before, after, around, blank, blank'⟩ := padded
          have front := (padded_trim first).blank_append blank
          have back := (padded_trim last).append_blank blank'
          have item := SelectorItem.range valid.1 valid.2 front back points ordered
          rw [around, whole]
          simpa using item
        · cases h
    · split at h
      · rename_i percent
        split at h
        · rename_i valid
          cases h
          rw [List.contains_iff_mem] at percent
          exact .pattern valid percent padded
        · cases h
      · split at h
        · rename_i valid
          cases h
          exact .code valid padded
        · cases h

theorem SelectorItem.unmarked {selector : Selector} {cs : List Char}
    (h : SelectorItem selector cs) : Unmarked cs := by
  have pattern {pattern : List Char} (valid : isPattern pattern = true) : Unmarked pattern :=
    unmarked_of_all (by simp [marks, isIdentChar]) valid
  cases h with
  | code valid padded => exact unmarked_of_padded padded (pattern (isPattern_of_isCode valid).2)
  | pattern valid _ padded => exact unmarked_of_padded padded (pattern valid)
  | range valid valid' padded padded' points _ =>
    have front := unmarked_of_padded padded (pattern (isPattern_of_isCode valid).2)
    have back := unmarked_of_padded padded' (pattern (isPattern_of_isCode valid').2)
    refine front.append (Unmarked.append ?_ back)
    rcases points with rfl | rfl <;> simp [Unmarked, marks]

theorem SelectorItem.not_blank {selector : Selector} {cs : List Char}
    (h : SelectorItem selector cs) : cs.all isBlank = false := by
  rw [Bool.eq_false_iff]
  intro blank
  have read := selectorOf_eq h
  rw [List.isEmpty_iff.1 (isEmpty_trim_iff.2 blank)] at read
  cases read

theorem Selection.closed {selectors : List Selector} {content : List Char}
    (h : Selection selectors content) : Closed isBracket none content := by
  cases h with
  | all blank => exact (unmarked_of_blank blank).closed isBracket_mem
  | listed items =>
    exact items.closed (fun _ _ item => item.unmarked.closed isBracket_mem) (by decide)

/-- Selectors are read exactly as they are written. -/
theorem selectorsOf_eq_ok_iff {selectors : List Selector} {content : List Char} :
    selectorsOf content = .ok selectors ↔ Selection selectors content := by
  unfold selectorsOf
  constructor
  · intro read
    split at read
    · rename_i empty
      cases read
      exact .all (isEmpty_trim_iff.1 empty)
    · refine .listed (listed_of_splitOn ?_)
      exact (mapM_eq_ok.1 read).imp fun _ _ => selectorItem_of_selectorOf
  · intro h
    cases h with
    | all blank => rw [if_pos (isEmpty_trim_iff.2 blank)]
    | listed items =>
      have solid := items.not_blank fun _ _ => SelectorItem.not_blank
      have cut := items.forall₂_splitOn fun _ _ item member => item.unmarked ',' member (by decide)
      rw [if_neg (by rw [isEmpty_trim_iff, solid]; exact Bool.false_ne_true), mapM_eq_ok]
      exact cut.imp fun _ _ => selectorOf_eq

/-! ## Heads -/

theorem word_of_takeSide? {word rest : List Char} {side : Side}
    (h : takeSide? word = some (side, rest)) : word = side.word ++ rest := by
  unfold takeSide? at h
  split at h <;> cases h <;> rfl

theorem letter_of_modeOf? {c : Char} {mode : Mode} (h : modeOf? c = some mode) :
    mode.Letter [c] := by
  unfold modeOf? at h
  split at h <;> cases h <;> constructor

theorem headWord_of_shortHead? {side : Side} {mode : Mode} {letter code : List Char} {head : Head}
    (moded : mode.Letter letter) (h : shortHead? side mode code = some head) :
    HeadWord head (side.word ++ (letter ++ '_' :: code)) := by
  unfold shortHead? at h
  split at h
  · split at h
    · rename_i digit
      cases h
      exact .short moded digit
    · cases h
  · cases h

/-- The first words of account tokens are read exactly as they are written. -/
theorem head?_eq_some_iff {word : List Char} {head : Head} :
    head? word = some head ↔ HeadWord head word := by
  constructor
  · intro h
    unfold head? at h
    obtain ⟨⟨side, rest⟩, taken, h⟩ := Option.bind_eq_some_iff.1 h
    rw [word_of_takeSide? taken]
    dsimp only at h
    split at h
    · cases h
      exact .long .none
    · exact headWord_of_shortHead? .none h
    · obtain ⟨mode, known, h⟩ := Option.bind_eq_some_iff.1 h
      have moded := letter_of_modeOf? known
      split at h
      · cases h
        exact .long moded
      · exact headWord_of_shortHead? moded h
      · cases h
  · intro h
    cases h with
    | @long side mode _ moded => cases side <;> cases moded <;> rfl
    | @short side mode letter code d moded digit =>
      have short : shortHead? side mode (d :: code) = some ⟨side, mode, some (d :: code)⟩ :=
        if_pos digit
      cases side <;> cases moded <;> exact short

end AccountToken

/-! ## Numbers -/

namespace Decimal

/-- The characters of numbers. -/
def isNumeric (c : Char) : Bool :=
  isIdentChar c || c == '+' || c == '-' || c == '.'

theorem all_isNumeric_of_all {p : Char → Bool} (numeric : ∀ c, p c = true → isIdentChar c = true)
    {cs : List Char} (all : cs.all p = true) : cs.all isNumeric = true := by
  rw [List.all_eq_true] at all ⊢
  intro c member
  rw [isNumeric, numeric c (all c member), Bool.true_or, Bool.true_or, Bool.true_or]

theorem all_isNumeric_of_isDigit {ds : List Char} (all : ds.all Char.isDigit = true) :
    ds.all isNumeric = true :=
  all_isNumeric_of_all (fun _ => AccountToken.isIdentChar_of_isDigit) all

theorem all_takeDigits (cs : List Char) : (takeDigits cs).1.all isNumeric = true :=
  all_isNumeric_of_isDigit (List.all_eq_true.2 fun _ => List.mem_takeWhile_imp)

theorem append_takeDigits (cs : List Char) : (takeDigits cs).1 ++ (takeDigits cs).2 = cs :=
  List.takeWhile_append_dropWhile

theorem all_of_takeDigits {cs : List Char} (rest : (takeDigits cs).2.all isNumeric = true) :
    cs.all isNumeric = true := by
  rw [← append_takeDigits cs, List.all_append, all_takeDigits, rest]
  rfl

theorem all_of_takeSign {cs : List Char} (rest : (takeSign cs).2.all isNumeric = true) :
    cs.all isNumeric = true := by
  unfold takeSign at rest
  split at rest
  · exact rest
  · exact rest
  · exact rest

theorem all_of_exponent? {cs : List Char} {n : Int} (h : exponent? cs = some n) :
    cs.all isNumeric = true := by
  cases cs with
  | nil => rfl
  | cons e cs =>
    rw [exponent?] at h
    split at h
    · rename_i letter
      have digits : (takeDigits (takeSign cs).2).2 = [] := by
        dsimp only at h
        split at h
        · cases h
        · rename_i cut
          rw [cut]
        · cases h
      have rest : cs.all isNumeric = true := by
        refine all_of_takeSign (all_of_takeDigits ?_)
        rw [digits]
        rfl
      rw [List.all_cons, rest]
      rcases letter with rfl | rfl <;> rfl
    · cases h

theorem all_of_magnitude? {cs : List Char} {x : Float} (h : magnitude? cs = some x) :
    cs.all isNumeric = true := by
  have ending {empty : Bool} {places rest : List Char}
      (h : (if empty = true then none
        else (exponent? rest).map (ofPlaces (takeDigits cs).1 places)) = some x) :
      rest.all isNumeric = true := by
    split at h
    · cases h
    · obtain ⟨n, read, -⟩ := Option.map_eq_some_iff.1 h
      exact all_of_exponent? read
  unfold magnitude? at h
  dsimp only at h
  refine all_of_takeDigits ?_
  split at h
  · rename_i places found
    rw [found, List.all_cons, all_of_takeDigits (ending h)]
    rfl
  · exact ending h

theorem isIdentChar_of_toLower {c : Char} (h : isIdentChar c.toLower = true) :
    isIdentChar c = true := by
  unfold Char.toLower at h
  split at h
  · rename_i upper
    have letter : c.isUpper = true := decide_eq_true upper
    have alpha : c.isAlpha = true := Bool.or_eq_true_iff.2 (.inl letter)
    rw [isIdentChar, Char.isAlphanum, alpha]
    rfl
  · exact h

theorem all_of_toLower {cs : List Char} {word : String}
    (letters : word.toList.all isIdentChar = true)
    (h : String.ofList (cs.map Char.toLower) = word) : cs.all isNumeric = true := by
  subst h
  rw [String.toList_ofList, List.all_map] at letters
  exact all_isNumeric_of_all (fun _ => isIdentChar_of_toLower) letters

/-- A text that is read as a number has the characters of numbers only. -/
theorem all_of_ofText? {cs : List Char} {x : Float} (h : ofText? cs = some x) :
    cs.all isNumeric = true := by
  unfold ofText? at h
  dsimp only at h
  obtain ⟨y, read, -⟩ := Option.map_eq_some_iff.1 h
  refine all_of_takeSign ?_
  split at read
  · rename_i infinite
    rcases infinite with infinite | infinite
    · exact all_of_toLower (by decide) infinite
    · exact all_of_toLower (by decide) infinite
  · split at read
    · rename_i none
      exact all_of_toLower (by decide) none
    · exact all_of_magnitude? read

end Decimal

namespace AccountToken

/-! ## Inline filters -/

theorem unquote?_quoted {q : Char} (quote : isQuote q = true) (inside : List Char) :
    unquote? (q :: (inside ++ [q])) = some inside := by
  obtain ⟨c, cs, same⟩ := List.exists_cons_of_ne_nil
    (List.append_ne_nil_of_right_ne_nil inside (List.cons_ne_nil q []))
  rw [same, unquote?, quote, ← same, List.getLast?_concat, List.dropLast_concat, beq_self_eq_true]
  rfl

theorem unquote?_of_not_isQuote {c : Char} (other : isQuote c = false) (cs : List Char) :
    unquote? (c :: cs) = none := by
  cases cs with
  | nil => rfl
  | cons d cs => rw [unquote?, other, Bool.false_and, if_neg Bool.false_ne_true]

/-- The characters of a number are no quotes, and neither blank nor the equals sign. -/
theorem solid_of_isNumeric {c : Char} (h : Decimal.isNumeric c = true) : isBlank c = false := by
  rw [Decimal.isNumeric, Bool.or_assoc, Bool.or_assoc, Bool.or_eq_true] at h
  rcases h with word | sign
  · exact isBlank_of_isIdentChar word
  · simp only [Bool.or_eq_true, beq_iff_eq] at sign
    rcases sign with rfl | rfl | rfl <;> decide

theorem ne_nil_of_ofText? {cs : List Char} {x : Float} (h : Decimal.ofText? cs = some x) :
    cs ≠ [] := by
  rintro rfl
  have none : Decimal.ofText? [] = none := by rfl
  rw [none] at h
  cases h

theorem ne_of_ofText? {cs : List Char} {x : Float} {word : String}
    (h : Decimal.ofText? cs = some x) (none : Decimal.ofText? word.toList = none) :
    String.ofList cs ≠ word := by
  rintro rfl
  rw [String.toList_ofList, h] at none
  cases none

/-- A number is not quoted. -/
theorem unquote?_of_ofText? {cs : List Char} {x : Float} (h : Decimal.ofText? cs = some x) :
    unquote? cs = none := by
  obtain ⟨c, ds, rfl⟩ := List.exists_cons_of_ne_nil (ne_nil_of_ofText? h)
  have all := Decimal.all_of_ofText? h
  rw [List.all_cons, Bool.and_eq_true] at all
  refine unquote?_of_not_isQuote (Bool.eq_false_iff.2 fun quote => ?_) ds
  have other := eq_false_of_isQuote (p := Decimal.isNumeric) (by decide) (by decide) quote
  rw [all.1] at other
  cases other

/-- The value of a filter item starts with a quote or a character of numbers. -/
theorem ItemValue.start {value : FieldValue} {cs : List Char} (h : ItemValue value cs) :
    ∃ c ds, cs = c :: ds ∧ (isQuote c = true ∨ Decimal.isNumeric c = true) := by
  cases h with
  | text quote _ => exact ⟨_, _, rfl, .inl quote⟩
  | yes spelled => rcases spelled with rfl | rfl <;> exact ⟨_, _, rfl, .inr rfl⟩
  | no spelled => rcases spelled with rfl | rfl <;> exact ⟨_, _, rfl, .inr rfl⟩
  | number read =>
    obtain ⟨c, ds, rfl⟩ := List.exists_cons_of_ne_nil (ne_nil_of_ofText? read)
    have all := Decimal.all_of_ofText? read
    rw [List.all_cons, Bool.and_eq_true] at all
    exact ⟨c, ds, rfl, .inr all.1⟩

theorem ItemValue.solid {value : FieldValue} {cs : List Char} (h : ItemValue value cs) :
    Solid cs := by
  cases h with
  | @text q inside quote _ =>
    have solid : isBlank q = false := eq_false_of_isQuote (by decide) (by decide) quote
    refine ⟨⟨q, rfl, solid⟩, ⟨q, ?_, solid⟩⟩
    rw [← List.cons_append, List.getLast?_concat]
    rfl
  | yes spelled =>
    rcases spelled with rfl | rfl <;>
      exact solid_of_all (fun _ => isBlank_of_isIdentChar) (by decide) (by decide)
  | no spelled =>
    rcases spelled with rfl | rfl <;>
      exact solid_of_all (fun _ => isBlank_of_isIdentChar) (by decide) (by decide)
  | number read =>
    exact solid_of_all (fun _ => solid_of_isNumeric) (ne_nil_of_ofText? read)
      (Decimal.all_of_ofText? read)

theorem filterValueOf_eq {value : FieldValue} {shown cs : List Char} (h : ItemValue value shown)
    (padded : Padded shown cs) : filterValueOf cs = .ok value := by
  have trimmed := padded.trim_eq h.solid
  unfold filterValueOf
  rw [trimmed]
  dsimp only
  cases h with
  | @text q inside quote free => rw [unquote?_quoted quote]
  | @yes word spelled =>
    have unquoted : unquote? word.toList = none := by rcases spelled with rfl | rfl <;> rfl
    rw [unquoted]
    dsimp only
    rw [String.ofList_toList, if_pos spelled]
  | @no word spelled =>
    have unquoted : unquote? word.toList = none := by rcases spelled with rfl | rfl <;> rfl
    have other : ¬ (word = "true" ∨ word = "True") := by
      rcases spelled with rfl | rfl <;> decide
    rw [unquoted]
    dsimp only
    rw [String.ofList_toList, if_neg other, if_pos spelled]
  | number read =>
    rw [unquote?_of_ofText? read]
    dsimp only
    rw [if_neg, if_neg, read]
    · rintro (same | same)
      · exact ne_of_ofText? read (by rfl) same
      · exact ne_of_ofText? read (by rfl) same
    · rintro (same | same)
      · exact ne_of_ofText? read (by rfl) same
      · exact ne_of_ofText? read (by rfl) same

/-- What holds of blank characters and of the first character of a text holds of the first
character of the text after some blank ones. -/
theorem forall_head?_append {p : Char → Prop} {blanks cs : List Char}
    (blank : blanks.all isBlank = true) (each : ∀ c, isBlank c = true → p c)
    (first : ∀ c ∈ cs.head?, p c) : ∀ c ∈ (blanks ++ cs).head?, p c := by
  cases blanks with
  | nil => exact first
  | cons a blanks =>
    rintro c ⟨⟩
    rw [List.all_cons, Bool.and_eq_true] at blank
    exact each a blank.1

/-- A comparison is read with all of its characters. -/
theorem takeFilterOp?_symbol {op : FilterOp} {symbol rest : List Char} (h : op.Symbol symbol)
    (ends : ∀ c ∈ rest.head?, c ≠ '=') : takeFilterOp? (symbol ++ rest) = some (op, rest) := by
  cases rest with
  | nil => cases h <;> rfl
  | cons c rest =>
    have other : c ≠ '=' := ends c rfl
    cases h <;> simp [takeFilterOp?, other]

theorem exists_of_symbol {op : FilterOp} {symbol : List Char} (h : op.Symbol symbol) :
    ∃ c cs, symbol = c :: cs ∧ isIdentChar c = false ∧ isBlank c = false := by
  cases h <;> exact ⟨_, _, rfl, by decide, by decide⟩

/-- A field, a comparison and a value between blank characters are read as an item. -/
theorem filterItemOf_field {name : String} {op : FilterOp} {value : FieldValue}
    {symbol shown cs ds : List Char} (identifier : isIdentifier name = true)
    (padded : Padded name.toList cs) (compares : op.Symbol symbol) (solid : Solid shown)
    (unequal : ∀ c ∈ shown.head?, c ≠ '=') (read : filterValueOf shown = .ok value)
    (padded' : Padded shown ds) :
    filterItemOf (trim (cs ++ (symbol ++ ds))) = .ok (.field name op value) := by
  obtain ⟨after, before, blank, blank', padded⟩ := padded.join padded' symbol
  obtain ⟨c, ds, chars, start, all⟩ := exists_of_isIdentifier identifier
  obtain ⟨s, ss, rfl, other, solid'⟩ := exists_of_symbol compares
  have named : Solid name.toList := by
    rw [chars]
    exact solid_of_all (fun _ => isBlank_of_isIdentChar) (List.cons_ne_nil c ds) all
  have whole := named.join solid (after ++ (s :: ss ++ before))
  simp only [List.append_assoc] at whole
  rw [padded.trim_eq whole]
  -- the field ends at a blank character or at the comparison
  have ends : ∀ d ∈ (after ++ (s :: ss ++ (before ++ shown))).head?, isIdentChar d = false := by
    refine forall_head?_append blank (fun a blank => Bool.eq_false_iff.2 fun word => ?_) ?_
    · rw [isBlank_of_isIdentChar word] at blank
      cases blank
    · rintro d ⟨⟩
      exact other
  have begins : ∀ d ∈ (before ++ shown).head?, d ≠ '=' := by
    refine forall_head?_append blank' (fun a blank same => ?_) unequal
    subst same
    exact absurd blank (by decide)
  obtain ⟨word, left⟩ := takeWhile_append_of_head (chars ▸ all) ends
  have compared : trimStart (after ++ (s :: ss ++ (before ++ shown))) =
      s :: ss ++ (before ++ shown) :=
    trimStart_append blank ⟨s, rfl, solid'⟩
  have trimmed : filterValueOf (before ++ shown) = filterValueOf shown := by
    unfold filterValueOf
    rw [((Padded.self shown).blank_append blank').trim_eq solid, (Padded.self shown).trim_eq solid]
  unfold filterItemOf
  rw [word, left, compared, takeFilterOp?_symbol compares begins, chars]
  dsimp only
  rw [start, trimmed, read, ← chars, String.ofList_toList]
  rfl

theorem filterItemOf_eq {condition : Condition} {cs : List Char} (h : FilterItem condition cs) :
    filterItemOf (trim cs) = .ok condition := by
  cases h with
  | field identifier padded compares written padded' =>
    refine filterItemOf_field identifier padded compares written.solid ?_
      (filterValueOf_eq written (.self _)) padded'
    obtain ⟨d, rest, rfl, quote | number⟩ := written.start <;> rintro e ⟨⟩ rfl
    · exact absurd quote (by decide)
    · exact absurd number (by decide)

theorem FilterItem.closed {condition : Condition} {cs : List Char} (h : FilterItem condition cs)
    {mark : Char → Bool} (known : ∀ c, mark c = true → c ∈ marks) (single : mark '\'' = false)
    (double : mark '"' = false) : Closed mark none cs := by
  cases h with
  | @field name op value symbol shown _ _ identifier padded compares written padded' =>
    have named : Unmarked name.toList := by
      obtain ⟨c, ds, chars, -, all⟩ := exists_of_isIdentifier identifier
      rw [chars]
      exact unmarked_of_all (by simp [marks, isIdentChar]) all
    have compared : Unmarked symbol := by cases compares <;> simp [Unmarked, marks]
    have front := (unmarked_of_padded padded named).append compared
    have valued : Closed mark none shown := by
      cases written with
      | text quote free => exact closed_quoted quote (eq_false_of_isQuote single double quote) free
      | yes spelled =>
        refine Unmarked.closed ?_ known
        rcases spelled with rfl | rfl <;> simp [Unmarked, marks]
      | no spelled =>
        refine Unmarked.closed ?_ known
        rcases spelled with rfl | rfl <;> simp [Unmarked, marks]
      | number read =>
        have others : ∀ c ∈ marks, Decimal.isNumeric c = false := by
          simp [marks, Decimal.isNumeric, isIdentChar]
        exact (unmarked_of_all others (Decimal.all_of_ofText? read)).closed known
    obtain ⟨before, after, rfl, blank, blank'⟩ := padded'
    have back := valued.append ((unmarked_of_blank blank').closed known)
    rw [← List.append_assoc]
    exact (front.closed known).append (((unmarked_of_blank blank).closed known).append back)

theorem FilterItem.not_blank {condition : Condition} {cs : List Char}
    (h : FilterItem condition cs) : cs.all isBlank = false := by
  rw [Bool.eq_false_iff]
  intro blank
  have read := filterItemOf_eq h
  rw [List.isEmpty_iff.1 (isEmpty_trim_iff.2 blank)] at read
  cases read

theorem Conditions.closed {filter : Filter} {content : List Char} (h : Conditions filter content) :
    Closed isBracket none content := by
  cases h with
  | blank blank => exact (unmarked_of_blank blank).closed isBracket_mem
  | listed items =>
    exact items.closed (fun _ _ item => item.closed isBracket_mem rfl rfl) (by decide)

/-- An inline filter is read as it is written. -/
theorem inlineFilterOf_eq {filter : Filter} {content : List Char} (h : Conditions filter content) :
    inlineFilterOf content = .ok filter := by
  unfold inlineFilterOf
  cases h with
  | blank blank => rw [if_pos (isEmpty_trim_iff.2 blank)]
  | listed items =>
    have solid := items.not_blank fun _ _ => FilterItem.not_blank
    have cut := items.forall₂_splitItems fun _ _ item => item.closed comma_mem rfl rfl
    rw [if_neg (by rw [isEmpty_trim_iff, solid]; exact Bool.false_ne_true), mapM_eq_ok]
    exact cut.imp fun _ _ => filterItemOf_eq

end AccountToken

end KpiReport
