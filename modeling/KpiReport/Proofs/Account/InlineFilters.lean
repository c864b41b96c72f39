import KpiReport.Proofs.Account.Recognition

/-!
# Which inline filters are accepted

The inside of the brackets of an inline filter is cut at the commas outside quotes, and every item
is read for itself. A value is taken for a text when its first and its last character are one and
the same quote, so a text may hold its own quote (`AccountToken.Reopened`): of `a = 'x' and b = 'y'`
the value is the text `x' and b = 'y`. Apart from such items exactly the filters of the grammar are
accepted, and the brackets with anything else in them make a token malformed
(`AccountToken.inlineFilters_checked`).
-/

namespace KpiReport

open KpiReport.Text

namespace AccountToken

/-- How an item of an inline filter is written whose value is a text in quotes that holds its own
quote. -/
inductive Reopened : Condition → List Char → Prop where
  | field {name : String} {op : FilterOp} {q : Char} {symbol inside cs ds : List Char}
    (identifier : isIdentifier name = true) (padded : Padded name.toList cs)
    (compares : op.Symbol symbol) (quote : isQuote q = true) (again : q ∈ inside)
    (padded' : Padded (q :: (inside ++ [q])) ds) :
    Reopened (.field name op (.text (String.ofList inside))) (cs ++ (symbol ++ ds))

/-! ## Values -/

theorem quoted_of_unquote? {cs inside : List Char} (h : unquote? cs = some inside) :
    ∃ q, isQuote q = true ∧ cs = q :: (inside ++ [q]) := by
  unfold unquote? at h
  split at h
  · rename_i q c cs
    split at h
    · rename_i same
      rw [Bool.and_eq_true, beq_iff_eq] at same
      cases h
      obtain ⟨quote, last⟩ := same
      obtain ⟨inside, whole⟩ := List.getLast?_eq_some_iff.1 last
      exact ⟨q, quote, by rw [whole, List.dropLast_concat]⟩
    · cases h
  · cases h

theorem value_of_filterValueOf {value : FieldValue} {cs : List Char}
    (h : filterValueOf cs = .ok value) : ItemValue value (trim cs) ∨
      ∃ q inside, isQuote q = true ∧ q ∈ inside ∧ value = .text (String.ofList inside) ∧
        trim cs = q :: (inside ++ [q]) := by
  unfold filterValueOf at h
  dsimp only at h
  split at h
  · rename_i inside unquoted
    cases h
    obtain ⟨q, quote, whole⟩ := quoted_of_unquote? unquoted
    rw [whole]
    by_cases again : q ∈ inside
    · exact .inr ⟨q, inside, quote, again, rfl, rfl⟩
    · exact .inl (.text quote again)
  · left
    split at h
    · rename_i spelled
      cases h
      have yes := ItemValue.yes spelled
      rwa [String.toList_ofList] at yes
    · split at h
      · rename_i spelled
        cases h
        have no := ItemValue.no spelled
        rwa [String.toList_ofList] at no
      · split at h
        · rename_i read
          cases h
          exact .number read
        · cases h

theorem symbol_of_takeFilterOp? {op : FilterOp} {cs rest : List Char}
    (h : takeFilterOp? cs = some (op, rest)) :
    ∃ symbol, op.Symbol symbol ∧ cs = symbol ++ rest := by
  unfold takeFilterOp? at h
  split at h <;> cases h
  · exact ⟨_, .same, rfl⟩
  · exact ⟨_, .ne, rfl⟩
  · exact ⟨_, .le, rfl⟩
  · exact ⟨_, .ge, rfl⟩
  · exact ⟨_, .eq, rfl⟩
  · exact ⟨_, .lt, rfl⟩
  · exact ⟨_, .gt, rfl⟩

/-! ## Items -/

theorem Reopened.filterItemOf_eq {condition : Condition} {cs : List Char}
    (h : Reopened condition cs) : filterItemOf (trim cs) = .ok condition := by
  cases h with
  | @field name op q symbol inside cs ds identifier padded compares quote again padded' =>
    have solid : isBlank q = false := eq_false_of_isQuote (by decide) (by decide) quote
    have ends : Solid (q :: (inside ++ [q])) := by
      refine ⟨⟨q, rfl, solid⟩, ⟨q, ?_, solid⟩⟩
      rw [← List.cons_append, List.getLast?_concat]
      rfl
    have unequal : ∀ c ∈ (q :: (inside ++ [q])).head?, c ≠ '=' := by
      rintro c ⟨⟩ rfl
      exact absurd quote (by decide)
    have read : filterValueOf (q :: (inside ++ [q])) = .ok (.text (String.ofList inside)) := by
      unfold filterValueOf
      rw [(Padded.self _).trim_eq ends]
      dsimp only
      rw [unquote?_quoted quote]
    exact filterItemOf_field identifier padded compares ends unequal read padded'

/-- An item that is read has a field, a comparison and a value. -/
theorem parts_of_filterItemOf {condition : Condition} {cs : List Char}
    (h : filterItemOf (trim cs) = .ok condition) : ∃ name op value symbol shown front back,
      condition = .field name op value ∧ isIdentifier name = true ∧ Padded name.toList front ∧
        op.Symbol symbol ∧ filterValueOf shown = .ok value ∧ Padded (trim shown) back ∧
          cs = front ++ (symbol ++ back) := by
  obtain ⟨before, after, whole, blank, blank'⟩ := padded_trim cs
  have word : (trim cs).takeWhile isIdentChar ++ (trim cs).dropWhile isIdentChar = trim cs :=
    List.takeWhile_append_dropWhile
  have all : ((trim cs).takeWhile isIdentChar).all isIdentChar = true := List.all_takeWhile
  unfold filterItemOf at h
  dsimp only at h
  split at h
  · cases h
  · rename_i c field named
    rw [named] at word all h
    split at h
    · cases h
    · rename_i start
      split at h
      · cases h
      · rename_i op shown compared
        obtain ⟨symbol, compares, rest⟩ := symbol_of_takeFilterOp? compared
        obtain ⟨value, read, rfl⟩ := map_eq_ok.1 h
        rw [List.all_cons, Bool.and_eq_true] at all
        have identifier : isIdentifier (String.ofList (c :: field)) = true := by
          rw [isIdentifier, String.toList_ofList]
          exact Bool.and_eq_true_iff.2 ⟨by simpa using start, all.2⟩
        obtain ⟨blanks, between, spaced⟩ : ∃ blanks, blanks.all isBlank = true ∧
            (trim cs).dropWhile isIdentChar = blanks ++ (symbol ++ shown) :=
          ⟨_, List.all_takeWhile, by rw [← rest, trimStart, List.takeWhile_append_dropWhile]⟩
        have padded : Padded (String.ofList (c :: field)).toList
            (before ++ (c :: field ++ blanks)) := by
          rw [String.toList_ofList]
          exact ⟨before, blanks, rfl, blank, between⟩
        refine ⟨_, op, value, symbol, shown, _, shown ++ after, rfl, identifier, padded, compares,
          read, (padded_trim shown).append_blank blank', ?_⟩
        calc cs = before ++ (trim cs ++ after) := whole
          _ = before ++ ((c :: field ++ (blanks ++ (symbol ++ shown))) ++ after) := by
            rw [← word, spaced]
          _ = before ++ (c :: field ++ blanks) ++ (symbol ++ (shown ++ after)) := by
            simp only [List.append_assoc]

/-- An item is read as the grammar says, or its value is a text that holds its own quote. -/
theorem filterItemOf_eq_ok_iff {condition : Condition} {cs : List Char} :
    filterItemOf (trim cs) = .ok condition ↔ FilterItem condition cs ∨ Reopened condition cs := by
  constructor
  · intro h
    obtain ⟨name, op, value, symbol, shown, front, back, rfl, identifier, padded, compares, read,
      padded', rfl⟩ := parts_of_filterItemOf h
    rcases value_of_filterValueOf read with written | ⟨q, inside, quote, again, rfl, quoted⟩
    · exact .inl (.field identifier padded compares written padded')
    · rw [quoted] at padded'
      exact .inr (.field identifier padded compares quote again padded')
  · rintro (h | h)
    · exact filterItemOf_eq h
    · exact h.filterItemOf_eq

/-- The last character of a text that is not blank. -/
def lastSolid? (cs : List Char) : Option Char :=
  cs.reverse.find? fun c => !isBlank c

theorem lastSolid?_append_padded {q : Char} {inside cs : List Char} (solid : isBlank q = false)
    (h : Padded (q :: (inside ++ [q])) cs) (front : List Char) :
    lastSolid? (front ++ cs) = some q := by
  obtain ⟨before, after, rfl, -, blank⟩ := h
  have ends : after.reverse.find? (fun c => !isBlank c) = none := by
    rw [List.find?_eq_none]
    intro c member
    rw [List.all_eq_true.1 blank c (List.mem_reverse.1 member)]
    decide
  simp [lastSolid?, List.find?_append, ends, solid]

theorem isBlank_of_isQuote {q : Char} (quote : isQuote q = true) : isBlank q = false :=
  eq_false_of_isQuote (by decide) (by decide) quote

theorem Reopened.last {condition : Condition} {cs : List Char} (h : Reopened condition cs) :
    ∃ name op q inside, condition = .field name op (.text (String.ofList inside)) ∧ q ∈ inside ∧
      lastSolid? cs = some q := by
  cases h with
  | @field name op q symbol inside cs ds _ _ _ quote again padded' =>
    refine ⟨name, op, q, inside, rfl, again, ?_⟩
    rw [← List.append_assoc]
    exact lastSolid?_append_padded (isBlank_of_isQuote quote) padded' _

theorem FilterItem.last {name : String} {op : FilterOp} {inside cs : List Char}
    (h : FilterItem (.field name op (.text (String.ofList inside))) cs) :
    ∃ q, q ∉ inside ∧ lastSolid? cs = some q := by
  generalize same : FieldValue.text (String.ofList inside) = value at h
  cases h with
  | field _ _ _ written padded' =>
    cases written with
    | @text q _ quote free =>
      rw [FieldValue.text.injEq, String.ofList_inj] at same
      subst same
      refine ⟨q, free, ?_⟩
      rw [← List.append_assoc]
      exact lastSolid?_append_padded (isBlank_of_isQuote quote) padded' _
    | yes _ => cases same
    | no _ => cases same
    | number _ => cases same

/-- An item whose text holds its own quote is none of the grammar. -/
theorem FilterItem.not_reopened {condition other : Condition} {cs : List Char}
    (h : FilterItem condition cs) : ¬ Reopened other cs := by
  intro reopened
  have same : condition = other := by
    have read := AccountToken.filterItemOf_eq h
    rw [reopened.filterItemOf_eq] at read
    cases read
    rfl
  obtain ⟨name, op, q, inside, rfl, again, last⟩ := reopened.last
  subst same
  obtain ⟨q', free, last'⟩ := h.last
  rw [last] at last'
  cases last'
  exact free again

/-! ## Lists of items -/

theorem eq_of_splitItems {quote : Option Char} {cs item : List Char} {items : List (List Char)}
    (h : splitItems quote cs = item :: items) : cs = item ++ items.flatMap (',' :: ·) := by
  induction cs generalizing quote item items with
  | nil =>
    cases h
    rfl
  | cons c cs ih =>
    rw [splitItems.eq_def] at h
    dsimp only at h
    split at h
    · rename_i comma
      cases h
      rw [Bool.and_eq_true, beq_iff_eq] at comma
      obtain ⟨first, more, rest⟩ := List.exists_cons_of_ne_nil (splitItems_ne_nil none cs)
      rw [rest, List.flatMap_cons, List.nil_append, List.cons_append, ← ih rest, comma.2]
    · split at h
      · rename_i none
        exact absurd none (splitItems_ne_nil _ cs)
      · rename_i first more rest
        cases h
        rw [List.cons_append, ← ih rest]

theorem listed_of_splitItems {α : Type} {written : α → List Char → Prop} {as : List α}
    {content : List Char}
    (each : List.Forall₂ (fun cs a => written a cs) (splitItems none content) as) :
    Listed written as content := by
  obtain ⟨item, items, cut⟩ := List.exists_cons_of_ne_nil (splitItems_ne_nil none content)
  rw [eq_of_splitItems cut]
  rw [cut] at each
  exact listed_flatMap each

/-- An inline filter that is not blank is read item by item. -/
theorem inlineFilterOf_eq_ok_iff {filter : Filter} {content : List Char}
    (solid : content.all isBlank = false) : inlineFilterOf content = .ok filter ↔
      List.Forall₂ (fun cs condition => FilterItem condition cs ∨ Reopened condition cs)
        (splitItems none content) filter := by
  have nonempty : ¬ (trim content).isEmpty = true := by
    rw [isEmpty_trim_iff, solid]
    exact Bool.false_ne_true
  rw [inlineFilterOf, if_neg nonempty, mapM_eq_ok]
  simp only [filterItemOf_eq_ok_iff]

/-- Where an item reopens its text, the content is none of the grammar. -/
theorem Conditions.not_reopened {filter : Filter} {content : List Char}
    (h : Conditions filter content) (solid : content.all isBlank = false) :
    ∀ cs ∈ splitItems none content, ∀ condition, ¬ Reopened condition cs := by
  intro cs member condition
  cases h with
  | blank blank =>
    rw [blank] at solid
    cases solid
  | listed items =>
    have cut := items.forall₂_splitItems fun _ _ item => item.closed comma_mem rfl rfl
    obtain ⟨_, -, item⟩ := exists_mem_of_forall₂ cut member
    exact item.not_reopened

/-- **What is no inline filter is rejected.** Inline filters in which no item holds its own quote in
a quoted text are read exactly as the grammar writes them, one condition per item; every other such
text between brackets makes the token malformed, whatever precedes and follows it. -/
theorem inlineFilters_checked {content : List Char}
    (single : ∀ cs ∈ splitItems none content, ∀ condition, ¬ Reopened condition cs) :
    (∀ filter, inlineFilterOf content = .ok filter ↔ Conditions filter content) ∧
      ((∀ filter, ¬ Conditions filter content) → ∀ (head : Head) (selectors : List Selector)
        (text cs rest : List Char), takeBrackets? none cs = some (content, rest) →
          ∃ fault, withFilter head selectors text ('[' :: cs) = .error
            (.malformedToken (String.ofList (text ++ '[' :: (content ++ [']']))) fault)) := by
  have exact (filter : Filter) :
      inlineFilterOf content = .ok filter ↔ Conditions filter content := by
    refine ⟨fun read => ?_, inlineFilterOf_eq⟩
    cases blank : content.all isBlank with
    | true =>
      rw [inlineFilterOf, if_pos (isEmpty_trim_iff.2 blank)] at read
      cases read
      exact .blank blank
    | false =>
      have items := (inlineFilterOf_eq_ok_iff blank).1 read
      refine .listed (listed_of_splitItems (forall₂_imp_of_mem items ?_))
      exact fun cs condition member item => item.resolve_right (single cs member condition)
  refine ⟨exact, fun none head selectors text cs rest taken => ?_⟩
  rw [withFilter]
  simp only [taken]
  cases read : inlineFilterOf content with
  | ok filter => exact absurd ((exact filter).1 read) (none filter)
  | error fault => exact ⟨fault, rfl⟩

/-- The filter of `bal[700][journal ~ 1]` has no comparison. -/
theorem inlineFilters_checked_missing_operator :
    ∃ fault, withFilter ⟨.balance, .variation, none⟩ [.code "700"] "bal[700]".toList
      "[journal ~ 1]".toList = .error (.malformedToken "bal[700][journal ~ 1]" fault) := by
  have failed : inlineFilterOf "journal ~ 1".toList = .error (.missingOperator "journal ~ 1") := by
    rfl
  have single : ∀ cs ∈ splitItems none "journal ~ 1".toList, ∀ condition,
      ¬ Reopened condition cs := by
    have cut : splitItems none "journal ~ 1".toList = ["journal ~ 1".toList] := rfl
    rw [cut, List.forall_mem_singleton]
    intro condition reopened
    have read := reopened.filterItemOf_eq
    have other : filterItemOf (trim "journal ~ 1".toList) =
        .error (.missingOperator "journal ~ 1") := by
      rfl
    rw [other] at read
    cases read
  obtain ⟨same, rejected⟩ := inlineFilters_checked single
  have none : ∀ filter, ¬ Conditions filter "journal ~ 1".toList := by
    intro filter written
    rw [← same, failed] at written
    cases written
  exact rejected none _ _ "bal[700]".toList "journal ~ 1]".toList [] rfl

/-- Two conditions joined by a word are read as one condition. -/
theorem inlineFilterOf_joins_conditions :
    inlineFilterOf "a = 'x' and b = 'y'".toList = .ok [.field "a" .eq (.text "x' and b = 'y")] ∧
      ∀ filter, ¬ Conditions filter "a = 'x' and b = 'y'".toList := by
  refine ⟨by rfl, fun filter written => ?_⟩
  have cut : splitItems none "a = 'x' and b = 'y'".toList = ["a = 'x' and b = 'y'".toList] := rfl
  have single := written.not_reopened (by decide)
  rw [cut, List.forall_mem_singleton] at single
  have reopened : Reopened (.field "a" .eq (.text (String.ofList "x' and b = 'y".toList)))
      ("a ".toList ++ (['='] ++ " 'x' and b = 'y'".toList)) :=
    .field (by decide) ⟨[], [' '], rfl, rfl, rfl⟩ .eq (by decide) (by decide)
      ⟨[' '], [], rfl, rfl, rfl⟩
  exact single _ reopened

end AccountToken

end KpiReport
