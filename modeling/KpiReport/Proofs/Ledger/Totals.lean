import KpiReport.Ledger.Book
import Mathlib.Data.List.Induction

/-!
# The totals of a book

What a book answers when it is asked for totals, account by account: the debits and the credits of
the matching lines of the account, added in the order of the lines (`Book.get?_totals`).
-/

namespace KpiReport

/-- The sum of some amounts, added from the left. -/
def sumOf (amounts : List Float) : Float :=
  amounts.foldl (· + ·) 0

/-- The totals of an account over some lines, none if there is no line of the account. -/
def totalsOf (lines : List MoveLine) (code : String) : Option AccountTotals :=
  match lines.filter fun line => line.account == code with
  | [] => none
  | own => some ⟨code, sumOf (own.map MoveLine.debit), sumOf (own.map MoveLine.credit)⟩

theorem sumOf_concat (amounts : List Float) (amount : Float) :
    sumOf (amounts ++ [amount]) = sumOf amounts + amount := by
  simp [sumOf]

theorem totalsOf_eq (lines : List MoveLine) (code : String) :
    totalsOf lines code =
      if lines.filter (fun line => line.account == code) = [] then none
      else some ⟨code, sumOf ((lines.filter fun line => line.account == code).map MoveLine.debit),
        sumOf ((lines.filter fun line => line.account == code).map MoveLine.credit)⟩ := by
  unfold totalsOf
  split
  · rename_i none
    rw [if_pos none]
  · rename_i some
    rw [if_neg some]

theorem totalsOf_congr {lines lines' : List MoveLine} {code : String}
    (same : (lines.filter fun line => line.account == code) =
      lines'.filter fun line => line.account == code) :
    totalsOf lines code = totalsOf lines' code := by
  rw [totalsOf_eq, totalsOf_eq, same]

/-- The totals of an account are those of the lines of the account. -/
theorem totalsOf_filter (lines : List MoveLine) (p : MoveLine → Bool) (code : String) :
    totalsOf (lines.filter p) code =
      totalsOf (lines.filter fun line => line.account == code && p line) code := by
  refine totalsOf_congr ?_
  rw [List.filter_filter, List.filter_filter]
  refine List.filter_congr fun line _ => ?_
  rw [← Bool.and_assoc, Bool.and_self]

theorem totalsOf_eq_none_iff {lines : List MoveLine} {code : String} :
    totalsOf lines code = none ↔ ∀ line ∈ lines, line.account ≠ code := by
  rw [totalsOf_eq, ite_eq_left_iff]
  simp

namespace Book

theorem get?_foldl_addToTotals (lines : List MoveLine) (code : String) :
    (lines.foldl addToTotals []).get? code = totalsOf lines code := by
  induction lines using List.reverseRecOn with
  | nil => rfl
  | append_singleton lines line ih =>
    rw [List.foldl_append, List.foldl_cons, List.foldl_nil, addToTotals, Table.get?_insert]
    generalize lines.foldl addToTotals [] = table at ih ⊢
    by_cases own : code = line.account
    · subst own
      have last : (lines ++ [line]).filter (fun other => other.account == line.account) =
          lines.filter (fun other => other.account == line.account) ++ [line] := by
        simp [List.filter_append]
      rw [if_pos rfl, ih, totalsOf_eq, totalsOf_eq (lines ++ [line]), last,
        if_neg (List.append_ne_nil_of_right_ne_nil _ (List.cons_ne_nil _ _)), List.map_append,
        List.map_append, List.map_singleton, List.map_singleton, sumOf_concat, sumOf_concat]
      split
      · rename_i none
        rw [none]
        rfl
      · rfl
    · have other : (lines ++ [line]).filter (fun other => other.account == code) =
          lines.filter fun other => other.account == code := by
        have ne : ¬ line.account = code := Ne.symm own
        simp [List.filter_append, ne]
      rw [if_neg own, ih]
      exact totalsOf_congr other.symm

theorem sorted_foldl_addToTotals (lines : List MoveLine) :
    (lines.foldl addToTotals []).Sorted := by
  induction lines using List.reverseRecOn with
  | nil => exact Table.sorted_nil
  | append_singleton lines line ih =>
    rw [List.foldl_append, List.foldl_cons, List.foldl_nil]
    exact Table.sorted_insert ih _ _

theorem keyed_foldl_addToTotals (lines : List MoveLine) :
    ∀ entry ∈ lines.foldl addToTotals [], entry.2.account = entry.1 := by
  induction lines using List.reverseRecOn with
  | nil => exact fun entry member => nomatch member
  | append_singleton lines line ih =>
    intro entry member
    rw [List.foldl_append, List.foldl_cons, List.foldl_nil] at member
    rcases Table.mem_insert member with rfl | old
    · rfl
    · exact ih entry old

/-- **The totals of an account are those of its own matching lines**, whatever other accounts the
filter admits. -/
theorem get?_totals (book : Book) (filter : Filter) (code : String) :
    (Table.ofEntries ((book.totals filter).map fun total => (total.account, total))).get? code =
      totalsOf (book.lines.filter fun line => Filter.matches line.field filter) code := by
  rw [totals]
  generalize (book.lines.filter fun line => Filter.matches line.field filter) = lines
  have keyed := keyed_foldl_addToTotals lines
  have sorted := sorted_foldl_addToTotals lines
  rw [← get?_foldl_addToTotals]
  generalize lines.foldl addToTotals [] = table at keyed sorted ⊢
  have entries : (Table.values table).map (fun total => (total.account, total)) = table := by
    rw [Table.values, List.map_map]
    conv_rhs => rw [← List.map_id table]
    refine List.map_congr_left fun entry member => ?_
    exact Prod.ext (keyed entry member) rfl
  rw [entries, Table.get?_ofEntries, sorted.lookup_reverse]

end Book

end KpiReport
