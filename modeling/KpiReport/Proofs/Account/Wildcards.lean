import KpiReport.Proofs.Account.TokenSyntax
import Mathlib.Data.List.Induction

/-!
# Patterns as wildcards

A pattern stands for the codes that are made of it by writing some text in the place of each `%`
(`Selector.Fills`). The matcher cuts the pattern into the pieces between its `%`. It takes the first
and the last piece off the ends of the code and looks for the other pieces in what is left, one
after the other, taking each where it occurs first and never going back. The main statement,
`Selector.selects_pattern_iff`, says that no code is missed in this way and none is matched wrongly.

Of all ways to place a piece the first one leaves the longest rest
(`Text.exists_cutAt?_append`), and pieces that can be placed in a text can be placed in every text
that ends with it (`Selector.Spread.append_left`).
-/

namespace KpiReport

open KpiReport.Text

/-! ## First occurrences -/

namespace Text

theorem dropStart?_eq_some_iff {start text rest : List Char} :
    dropStart? start text = some rest ↔ text = start ++ rest := by
  constructor
  · exact eq_of_dropStart?
  · rintro rfl
    exact dropStart?_append start rest

theorem dropEnd?_eq_some_iff {ending text rest : List Char} :
    dropEnd? ending text = some rest ↔ text = rest ++ ending := by
  rw [dropEnd?, Option.map_eq_some_iff]
  constructor
  · rintro ⟨back, found, rfl⟩
    rw [← List.reverse_reverse text, eq_of_dropStart? found, List.reverse_append,
      List.reverse_reverse]
  · rintro rfl
    exact ⟨rest.reverse, by rw [List.reverse_append, dropStart?_append], List.reverse_reverse rest⟩

/-- A text that holds a separator is cut at its first occurrence, after which there is at least as
much as after any other one. -/
theorem exists_cutAt?_append (before separator after : List Char) :
    ∃ first more,
      cutAt? separator (before ++ (separator ++ after)) = some (first, more ++ after) := by
  induction before with
  | nil =>
    have found := dropStart?_append separator after
    rw [List.nil_append]
    cases text : separator ++ after with
    | nil =>
      obtain ⟨rfl, rfl⟩ := List.append_eq_nil_iff.1 text
      exact ⟨[], [], rfl⟩
    | cons c cs =>
      rw [text] at found
      rw [cutAt?, found]
      exact ⟨[], [], rfl⟩
  | cons c before ih =>
    rw [List.cons_append, cutAt?]
    cases found : dropStart? separator (c :: (before ++ (separator ++ after))) with
    | none =>
      obtain ⟨first, more, later⟩ := ih
      rw [later]
      exact ⟨c :: first, more, rfl⟩
    | some rest =>
      -- the separator occurs at once; its length tells where the rest begins
      have whole := eq_of_dropStart? found
      rw [← List.cons_append, ← List.append_assoc] at whole
      have tail : after <:+ separator ++ rest := whole ▸ List.suffix_append _ _
      have short : after.length ≤ rest.length := by
        have lengths := congrArg List.length whole
        simp only [List.length_append, List.length_cons] at lengths
        omega
      obtain ⟨more, rfl⟩ := List.suffix_of_suffix_length_le tail (List.suffix_append _ _) short
      exact ⟨[], more, rfl⟩

end Text

namespace Selector

/-! ## Pieces in order -/

/-- The pieces stand in the text one after the other, with any texts before, between and after
them. -/
def Spread : (pieces : List (List Char)) → (text : List Char) → Prop
  | [], _ => True
  | piece :: pieces, text =>
    ∃ before after, text = before ++ (piece ++ after) ∧ Spread pieces after

theorem Spread.append_left {pieces : List (List Char)} {text : List Char} (h : Spread pieces text)
    (more : List Char) : Spread pieces (more ++ text) := by
  cases pieces with
  | nil => trivial
  | cons piece pieces =>
    obtain ⟨before, after, rfl, rest⟩ := h
    exact ⟨more ++ before, after, (List.append_assoc ..).symm, rest⟩

/-- Taking the first occurrence of each piece finds the pieces wherever they can be found. -/
theorem holdsInOrder_iff {pieces : List (List Char)} {text : List Char} :
    holdsInOrder pieces text = true ↔ Spread pieces text := by
  induction pieces generalizing text with
  | nil => exact iff_of_true rfl trivial
  | cons piece pieces ih =>
    rw [holdsInOrder]
    constructor
    · intro h
      split at h
      · rename_i before rest found
        exact ⟨before, rest, eq_of_cutAt? found, ih.1 h⟩
      · cases h
    · rintro ⟨before, after, rfl, rest⟩
      obtain ⟨first, more, found⟩ := exists_cutAt?_append before piece after
      rw [found]
      exact ih.2 (rest.append_left more)

/-- The text is made of the pieces in order, with any texts between them. -/
inductive Joined : (pieces : List (List Char)) → (text : List Char) → Prop where
  | last (piece : List Char) : Joined [piece] piece
  | next (piece gap : List Char) {pieces : List (List Char)} {text : List Char} :
    Joined pieces text → Joined (piece :: pieces) (piece ++ (gap ++ text))

theorem Joined.ne_nil {pieces : List (List Char)} {text : List Char} (h : Joined pieces text) :
    pieces ≠ [] := by
  cases h <;> nofun

theorem joined_cons_iff {piece text : List Char} {pieces : List (List Char)} (more : pieces ≠ []) :
    Joined (piece :: pieces) text ↔
      ∃ gap rest, text = piece ++ (gap ++ rest) ∧ Joined pieces rest := by
  constructor
  · rintro (_ | ⟨-, gap, rest⟩)
    · exact absurd rfl more
    · exact ⟨gap, _, rfl, rest⟩
  · rintro ⟨gap, rest, rfl, joined⟩
    exact .next piece gap joined

/-- Of at least two pieces the first and the last one stand at the ends and the others between
them. -/
theorem joined_iff_spread {first last text : List Char} {middle : List (List Char)} :
    Joined (first :: (middle ++ [last])) text ↔
      ∃ inner, text = first ++ (inner ++ last) ∧ Spread middle inner := by
  rw [joined_cons_iff (List.append_ne_nil_of_right_ne_nil _ (List.cons_ne_nil _ _))]
  induction middle generalizing first text with
  | nil =>
    constructor
    · rintro ⟨gap, rest, rfl, _ | ⟨-, -, none⟩⟩
      · exact ⟨gap, rfl, trivial⟩
      · exact absurd rfl none.ne_nil
    · rintro ⟨gap, rfl, -⟩
      exact ⟨gap, last, rfl, .last last⟩
  | cons piece middle ih =>
    have nonempty := List.append_ne_nil_of_right_ne_nil middle (List.cons_ne_nil last [])
    constructor
    · rintro ⟨gap, rest, rfl, joined⟩
      obtain ⟨inner, rfl, spread⟩ := ih.1 ((joined_cons_iff nonempty).1 joined)
      refine ⟨gap ++ (piece ++ inner), ?_, gap, inner, rfl, spread⟩
      simp only [List.append_assoc]
    · rintro ⟨-, rfl, gap, inner, rfl, spread⟩
      refine ⟨gap, piece ++ (inner ++ last), ?_,
        (joined_cons_iff nonempty).2 (ih.2 ⟨inner, rfl, spread⟩)⟩
      simp only [List.append_assoc]

theorem matchesPieces_iff {pieces : List (List Char)} (nonempty : pieces ≠ []) {code : List Char} :
    matchesPieces pieces code = true ↔ Joined pieces code := by
  obtain ⟨first, more, rfl⟩ := List.exists_cons_of_ne_nil nonempty
  cases more using List.reverseRecOn with
  | nil =>
    rw [matchesPieces, beq_iff_eq]
    constructor
    · rintro rfl
      exact .last first
    · rintro (_ | ⟨-, -, none⟩)
      · rfl
      · exact absurd rfl none.ne_nil
  | append_singleton middle last =>
    have several : matchesPieces (first :: (middle ++ [last])) code = true ↔
        ∃ rest, dropStart? first code = some rest ∧
          ∃ inner, dropEnd? last rest = some inner ∧ holdsInOrder middle inner = true := by
      rw [matchesPieces]
      · rw [List.getLast?_append_of_ne_nil _ (List.cons_ne_nil _ _), List.dropLast_concat]
        cases dropStart? first code with
        | none => simp
        | some rest =>
          cases found : dropEnd? last rest <;> simp [found]
      · intro none
        exact absurd none (by simp)
    rw [several, joined_iff_spread]
    simp only [dropStart?_eq_some_iff, dropEnd?_eq_some_iff, holdsInOrder_iff]
    constructor
    · rintro ⟨-, rfl, inner, rfl, spread⟩
      exact ⟨inner, rfl, spread⟩
    · rintro ⟨inner, rfl, spread⟩
      exact ⟨inner ++ last, rfl, inner, rfl, spread⟩

/-! ## Filled patterns -/

/-- The code is made of the pattern by writing a text, which may be empty, in the place of each `%`
and keeping all other characters. -/
inductive Fills : (pattern code : List Char) → Prop where
  | nil : Fills [] []
  | keep {c : Char} {pattern code : List Char} (other : c ≠ '%') :
    Fills pattern code → Fills (c :: pattern) (c :: code)
  | fill {pattern code : List Char} (text : List Char) :
    Fills pattern code → Fills ('%' :: pattern) (text ++ code)

/-- A pattern is filled by joining its pieces. -/
theorem joined_splitOn_iff {pattern code : List Char} :
    Joined (splitOn '%' pattern) code ↔ Fills pattern code := by
  induction pattern generalizing code with
  | nil =>
    rw [splitOn]
    constructor
    · rintro (_ | ⟨-, -, none⟩)
      · exact .nil
      · exact absurd rfl none.ne_nil
    · rintro ⟨⟩
      exact .last []
  | cons c pattern ih =>
    rw [splitOn]
    split
    · rename_i same
      subst same
      rw [joined_cons_iff (splitOn_ne_nil '%' pattern)]
      constructor
      · rintro ⟨text, rest, rfl, joined⟩
        exact .fill text (ih.1 joined)
      · rintro (_ | ⟨other, -⟩ | ⟨text, filled⟩)
        · exact absurd rfl other
        · exact ⟨text, _, rfl, ih.2 filled⟩
    · rename_i other
      obtain ⟨piece, pieces, cut⟩ := List.exists_cons_of_ne_nil (splitOn_ne_nil '%' pattern)
      rw [cut] at ih ⊢
      constructor
      · rintro (_ | ⟨-, gap, joined⟩)
        · exact .keep other (ih.1 (.last piece))
        · exact .keep other (ih.1 (.next piece gap joined))
      · rintro (_ | ⟨-, filled⟩ | ⟨text, -⟩)
        · rcases ih.2 filled with _ | ⟨-, gap, joined⟩
          · exact .last (c :: piece)
          · exact .next (c :: piece) gap joined
        · exact absurd rfl other

/-- **Patterns are wildcards.** A pattern selects exactly the codes that are made of it by writing
some text in the place of each `%`. -/
theorem selects_pattern_iff (pattern code : String) :
    (Selector.pattern pattern).selects code = true ↔ Fills pattern.toList code.toList := by
  rw [selects, matchesPattern, matchesPieces_iff (splitOn_ne_nil '%' pattern.toList),
    joined_splitOn_iff]

/-- The first `0` is taken for the piece between the `%`, and the last one for the end. -/
example : (Selector.pattern "7%0%0").selects "7000" = true ∧
    (Selector.pattern "7%0%0").selects "70" = false := by
  decide +kernel

end Selector

end KpiReport
