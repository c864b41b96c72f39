import KpiReport.Account.Balances
import KpiReport.Proofs.Filter.Same

/-!
# The lines that a token counts

Taken alone, a token counts the move lines that its mode, its accounts, its inline filter, the
target move and the period's own filter all accept (`ResolvedToken.counts`). The filters with which
the ledger is asked, for a group of tokens or for the lines behind a cell, are put together from
these conditions.
-/

namespace KpiReport

theorem Value.textOrder_eq_iff {s t : String} : textOrder s t = .eq ↔ s = t := by
  unfold textOrder
  constructor
  · intro h
    split at h
    · cases h
    · split at h
      · assumption
      · cases h
  · rintro rfl
    simp

theorem FieldValue.equals_text (s t : String) :
    (FieldValue.text s).equals (.text t) = (s == t) := by
  rw [Bool.eq_iff_iff, beq_iff_eq, ← Value.textOrder_eq_iff]
  simp [equals, order?]

theorem Filter.matches_append (record : String → FieldValue) (xs ys : Filter) :
    Filter.matches record (xs ++ ys) = (Filter.matches record xs && Filter.matches record ys) := by
  induction xs with
  | nil => rfl
  | cons x xs ih =>
    rw [List.cons_append, Filter.matches, Filter.matches, ih, Bool.and_assoc]

theorem accountCondition_matches (codes : List String) (line : MoveLine) :
    (accountCondition codes).matches line.field = codes.contains line.account := by
  have account : line.field MoveLine.accountField = .text line.account := rfl
  rw [accountCondition, Condition.matches, FilterOp.holds, FilterOp.isMember, account,
    List.any_map, List.contains_eq_any_beq]
  congr 1
  funext code
  exact FieldValue.equals_text line.account code

/-- Whether a line counts for a target move. -/
def TargetMove.accepts (target : TargetMove) (line : MoveLine) : Bool :=
  match target with
  | .posted => line.state == MoveLine.posted
  | .all => true

theorem commonFilter_matches (target : TargetMove) (extra : Filter) (line : MoveLine) :
    Filter.matches line.field (commonFilter target extra) =
      (target.accepts line && Filter.matches line.field extra) := by
  cases target with
  | posted =>
    have state : line.field MoveLine.stateField = .text line.state := rfl
    rw [commonFilter, Filter.matches, Condition.matches, FilterOp.holds, state,
      FieldValue.equals_text]
    rfl
  | all => rfl

namespace ResolvedToken

/-- Whether a token counts a line: its mode, its accounts, its inline filter, the target move and the
period's own filter accept it. -/
def counts (member : ResolvedToken) (bounds : Bounds) (target : TargetMove) (extra : Filter)
    (line : MoveLine) : Bool :=
  Filter.matches line.field (member.token.mode.lineFilter bounds) &&
    member.accounts.contains line.account && Filter.matches line.field member.token.filter &&
    target.accepts line && Filter.matches line.field extra

end ResolvedToken

theorem TokenGroup.lineFilter_matches (group : TokenGroup) (bounds : Bounds) (target : TargetMove)
    (extra : Filter) (line : MoveLine) :
    Filter.matches line.field (group.lineFilter bounds (commonFilter target extra)) =
      (Filter.matches line.field (group.mode.lineFilter bounds) &&
        group.accounts.contains line.account && Filter.matches line.field group.filter &&
        target.accepts line && Filter.matches line.field extra) := by
  rw [lineFilter, Filter.matches_append, Filter.matches, accountCondition_matches,
    Filter.matches_append, commonFilter_matches]
  simp only [Bool.and_assoc]

end KpiReport
