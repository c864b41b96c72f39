import KpiReport.Account.Chart
import Mathlib.Data.List.Nodup

/-!
# Charts and descent

The chart below a root holds the accounts that descend from it (`Chart.Descends`), whatever the
accounts are: parents may be missing or make circles, and a code may be given several times. The
main statement, `Chart.ofAccounts_descends`, says so, together with the order of the chart, and that
a chart of accounts with different codes does not depend on the order in which they are given.

A chart is found by visiting accounts from a stack. The codes visited stay within every set of codes
that descent does not lead out of (`Chart.visit_within`); they hold the codes on the stack
(`Chart.mem_visit_of_mem_stack`), and with the code of a parent that of each of its accounts
(`Chart.visit_closed`). So they are the least such set.
-/

namespace KpiReport

namespace Chart

/-! ## Visits -/

theorem mem_without {code : String} {accounts : List Account} {account : Account} :
    account ∈ without code accounts ↔ account ∈ accounts ∧ account.code ≠ code := by
  simp [without]

theorem mem_below {code : String} {accounts : List Account} {account : Account} :
    account ∈ below code accounts ↔ account ∈ accounts ∧ account.parent = some code := by
  simp [below]

/-- The accounts below a visited one, the last one on top, and what was on the stack before. -/
theorem mem_pushed {code : String} {unvisited stack : List Account} {account : Account} :
    account ∈ (below code unvisited).reverse ++ stack ↔
      account ∈ unvisited ∧ account.parent = some code ∨ account ∈ stack := by
  rw [List.mem_append, List.mem_reverse, mem_below]

theorem any_code_iff {accounts : List Account} {code : String} :
    (accounts.any fun other => other.code == code) = true ↔
      code ∈ accounts.map Account.code := by
  simp

theorem visit_subset {remaining stack : List Account} {account : Account}
    (h : account ∈ visit remaining stack) : account ∈ stack ∨ account ∈ remaining := by
  fun_induction visit remaining stack with
  | case1 => cases h
  | case2 remaining top stack _ unvisited ih =>
    rcases List.mem_cons.1 h with rfl | later
    · exact .inl List.mem_cons_self
    · rcases ih later with pushed | kept
      · rcases mem_pushed.1 pushed with ⟨inside, -⟩ | inside
        · exact .inr (mem_without.1 inside).1
        · exact .inl (List.mem_cons_of_mem _ inside)
      · exact .inr (mem_without.1 kept).1
  | case3 remaining top stack _ ih => exact (ih h).imp_left (List.mem_cons_of_mem _)

theorem visit_codes_subset {remaining stack : List Account} {code : String}
    (h : code ∈ (visit remaining stack).map Account.code) : code ∈ remaining.map Account.code := by
  fun_induction visit remaining stack with
  | case1 => cases h
  | case2 remaining top stack known unvisited ih =>
    rw [List.map_cons] at h
    rcases List.mem_cons.1 h with rfl | later
    · exact any_code_iff.1 known
    · obtain ⟨account, inside, rfl⟩ := List.mem_map.1 (ih later)
      exact List.mem_map_of_mem (mem_without.1 inside).1
  | case3 remaining top stack _ ih => exact ih h

/-- No code is visited twice. -/
theorem nodup_visit (remaining stack : List Account) :
    ((visit remaining stack).map Account.code).Nodup := by
  fun_induction visit remaining stack with
  | case1 => exact List.nodup_nil
  | case2 remaining top stack _ unvisited ih =>
    rw [List.map_cons]
    refine List.nodup_cons.2 ⟨fun again => ?_, ih⟩
    obtain ⟨account, inside, same⟩ := List.mem_map.1 (visit_codes_subset again)
    exact (mem_without.1 inside).2 same
  | case3 remaining top stack _ ih => exact ih

/-- The codes visited have every property that the codes on the stack have and that descent
keeps. -/
theorem visit_within {P : String → Prop} {remaining stack : List Account}
    (start : ∀ account ∈ stack, P account.code)
    (step : ∀ account ∈ remaining, ∀ parent, account.parent = some parent → P parent →
      P account.code) :
    ∀ account ∈ visit remaining stack, P account.code := by
  fun_induction visit remaining stack with
  | case1 => exact fun account member => nomatch member
  | case2 remaining top stack _ unvisited ih =>
    obtain ⟨own, rest⟩ := List.forall_mem_cons.1 start
    refine List.forall_mem_cons.2 ⟨own, ih (fun account pushed => ?_) fun account inside => ?_⟩
    · rcases mem_pushed.1 pushed with ⟨inside, parent⟩ | inside
      · exact step account (mem_without.1 inside).1 top.code parent own
      · exact rest account inside
    · exact step account (mem_without.1 inside).1
  | case3 remaining top stack _ ih => exact ih (List.forall_mem_cons.1 start).2 step

/-- The codes on the stack are visited unless they were visited before. -/
theorem mem_visit_of_mem_stack {remaining stack : List Account} {account : Account}
    (member : account ∈ stack) (unvisited : account.code ∈ remaining.map Account.code) :
    account.code ∈ (visit remaining stack).map Account.code := by
  fun_induction visit remaining stack with
  | case1 => cases member
  | case2 remaining top stack _ others ih =>
    rw [List.map_cons]
    by_cases same : account.code = top.code
    · exact List.mem_cons.2 (.inl same)
    · -- another code is as unvisited after the top of the stack as before
      obtain ⟨other, inside, code⟩ := List.mem_map.1 unvisited
      have still : account.code ∈ others.map Account.code :=
        List.mem_map.2 ⟨other, mem_without.2 ⟨inside, code ▸ same⟩, code⟩
      rcases List.mem_cons.1 member with rfl | below
      · exact absurd rfl same
      · exact List.mem_cons_of_mem _ (ih (mem_pushed.2 (.inr below)) still)
  | case3 remaining top stack known ih =>
    rcases List.mem_cons.1 member with rfl | below
    · exact absurd (any_code_iff.2 unvisited) known
    · exact ih below unvisited

/-- With the code of a parent those of all its accounts are visited. -/
theorem visit_closed {remaining stack : List Account} {account : Account} {parent : String}
    (member : account ∈ remaining) (belongs : account.parent = some parent)
    (visited : parent ∈ (visit remaining stack).map Account.code) :
    account.code ∈ (visit remaining stack).map Account.code := by
  fun_induction visit remaining stack with
  | case1 => cases visited
  | case2 remaining top stack _ unvisited ih =>
    rw [List.map_cons] at visited ⊢
    by_cases same : account.code = top.code
    · exact List.mem_cons.2 (.inl same)
    · have still : account ∈ unvisited := mem_without.2 ⟨member, same⟩
      refine List.mem_cons_of_mem _ ?_
      -- a parent visited now has just put the account on the stack
      rcases List.mem_cons.1 visited with rfl | later
      · exact mem_visit_of_mem_stack (mem_pushed.2 (.inl ⟨still, belongs⟩))
          (List.mem_map_of_mem still)
      · exact ih still later
  | case3 remaining top stack _ ih => exact ih member visited

/-! ## Descent -/

/-- The least set of codes that holds the root, if an account has it, and the code of each account
whose parent it holds. -/
inductive Descends (accounts : List Account) (root : String) : String → Prop where
  | root {account : Account} :
    account ∈ accounts → account.code = root → Descends accounts root root
  | child {account : Account} {parent : String} :
    account ∈ accounts → account.parent = some parent → Descends accounts root parent →
      Descends accounts root account.code

theorem Descends.mono {accounts others : List Account} (subset : accounts ⊆ others)
    {root code : String} (h : Descends accounts root code) : Descends others root code := by
  induction h with
  | root member same => exact .root (subset member) same
  | child member parent _ ih => exact .child (subset member) parent ih

variable (root : String) (accounts : List Account)

theorem perm_ofAccounts : (ofAccounts root accounts).accounts.Perm
    (visit accounts (accounts.filter fun account => account.code == root).reverse) :=
  List.mergeSort_perm _ _

theorem mem_root_stack {account : Account} :
    account ∈ (accounts.filter fun account => account.code == root).reverse ↔
      account ∈ accounts ∧ account.code = root := by
  simp

theorem mem_of_mem_ofAccounts {account : Account}
    (member : account ∈ (ofAccounts root accounts).accounts) : account ∈ accounts := by
  rcases visit_subset ((perm_ofAccounts root accounts).mem_iff.1 member) with start | inside
  · exact ((mem_root_stack root accounts).1 start).1
  · exact inside

theorem nodup_ofAccounts : ((ofAccounts root accounts).accounts.map Account.code).Nodup :=
  ((perm_ofAccounts root accounts).map Account.code).nodup_iff.2 (nodup_visit _ _)

theorem mem_codes_ofAccounts_iff {code : String} :
    code ∈ (ofAccounts root accounts).accounts.map Account.code ↔ Descends accounts root code := by
  rw [((perm_ofAccounts root accounts).map Account.code).mem_iff]
  constructor
  · intro visited
    obtain ⟨account, member, rfl⟩ := List.mem_map.1 visited
    refine visit_within (fun account start => ?_) (fun account inside parent => .child inside)
      account member
    obtain ⟨inside, same⟩ := (mem_root_stack root accounts).1 start
    rw [same]
    exact .root inside same
  · intro descends
    induction descends with
    | @root account member same =>
      have visited := mem_visit_of_mem_stack ((mem_root_stack root accounts).2 ⟨member, same⟩)
        (List.mem_map_of_mem member)
      rwa [same] at visited
    | child member parent _ ih => exact visit_closed member parent ih

/-! ## The order of codes -/

/-- A code comes before another one: codes that are whole numbers by their values, then by their
texts, and after them all other codes by their texts. -/
inductive Precedes : (a b : String) → Prop where
  | value {a b : String} {m n : Nat} :
    Selector.codeNumber? a = some m → Selector.codeNumber? b = some n → m < n → Precedes a b
  | spelling {a b : String} {n : Nat} :
    Selector.codeNumber? a = some n → Selector.codeNumber? b = some n → a < b → Precedes a b
  | number {a b : String} {n : Nat} :
    Selector.codeNumber? a = some n → Selector.codeNumber? b = none → Precedes a b
  | text {a b : String} :
    Selector.codeNumber? a = none → Selector.codeNumber? b = none → a < b → Precedes a b

theorem codeLe_trans (a b c : String) (h : codeLe a b = true) (h' : codeLe b c = true) :
    codeLe a c = true := by
  have texts : a ≤ b → b ≤ c → a ≤ c := String.le_trans
  unfold codeLe at h h' ⊢
  generalize Selector.codeNumber? a = x at h ⊢
  generalize Selector.codeNumber? b = y at h h'
  generalize Selector.codeNumber? c = z at h' ⊢
  cases x <;> cases y <;> cases z <;> grind

theorem codeLe_total (a b : String) : (codeLe a b || codeLe b a) = true := by
  have texts := String.le_total a b
  unfold codeLe
  cases Selector.codeNumber? a <;> cases Selector.codeNumber? b <;> grind

theorem precedes_of_codeLe {a b : String} (h : codeLe a b = true) (other : a ≠ b) :
    Precedes a b := by
  have texts (le : a ≤ b) : a < b := Std.lt_of_le_of_ne le other
  unfold codeLe at h
  cases first : Selector.codeNumber? a with
  | none =>
    cases second : Selector.codeNumber? b with
    | none =>
      simp only [first, second, decide_eq_true_eq] at h
      exact .text first second (texts h)
    | some n => simp [first, second] at h
  | some m =>
    cases second : Selector.codeNumber? b with
    | none => exact .number first second
    | some n =>
      simp only [first, second, Bool.or_eq_true, Bool.and_eq_true, decide_eq_true_eq,
        beq_iff_eq] at h
      rcases h with less | ⟨rfl, le⟩
      · exact .value first second less
      · exact .spelling first second (texts le)

theorem Precedes.asymm {a b : String} (h : Precedes a b) : ¬ Precedes b a := by
  have texts : a < b → ¬ b < a := String.lt_asymm
  intro h'
  cases h <;> cases h' <;> grind

theorem pairwise_ofAccounts :
    ((ofAccounts root accounts).accounts.map Account.code).Pairwise Precedes := by
  have sorted := List.pairwise_mergeSort
    (fun a b c : Account => codeLe_trans a.code b.code c.code)
    (fun a b : Account => codeLe_total a.code b.code)
    (visit accounts (accounts.filter fun account => account.code == root).reverse)
  have distinct :=
    List.pairwise_map.1 (List.nodup_iff_pairwise_ne.1 (nodup_ofAccounts root accounts))
  exact List.pairwise_map.2 ((sorted.and distinct).imp fun h => precedes_of_codeLe h.1 h.2)

/-! ## Charts -/

variable {root accounts}

theorem mem_ofAccounts_iff (distinct : (accounts.map Account.code).Nodup) {account : Account} :
    account ∈ (ofAccounts root accounts).accounts ↔
      account ∈ accounts ∧ Descends accounts root account.code := by
  rw [← mem_codes_ofAccounts_iff]
  constructor
  · intro member
    exact ⟨mem_of_mem_ofAccounts root accounts member, List.mem_map_of_mem member⟩
  · rintro ⟨member, visited⟩
    obtain ⟨found, inside, same⟩ := List.mem_map.1 visited
    have own := mem_of_mem_ofAccounts root accounts inside
    rwa [← List.inj_on_of_nodup_map distinct own member same]

/-- Of accounts with different codes the order does not matter. -/
theorem ofAccounts_perm {others : List Account} (same : accounts.Perm others)
    (distinct : (accounts.map Account.code).Nodup) :
    ofAccounts root others = ofAccounts root accounts := by
  have distinct' := (same.map Account.code).nodup_iff.1 distinct
  have members (account : Account) : account ∈ (ofAccounts root others).accounts ↔
      account ∈ (ofAccounts root accounts).accounts := by
    rw [mem_ofAccounts_iff distinct, mem_ofAccounts_iff distinct', same.mem_iff]
    exact and_congr_right fun _ => ⟨.mono same.symm.subset, .mono same.subset⟩
  have perm := (List.perm_ext_iff_of_nodup (nodup_ofAccounts root others).of_map
    (nodup_ofAccounts root accounts).of_map).2 members
  have equal := perm.eq_of_pairwise (fun a b _ _ before after => absurd after before.asymm)
    (List.pairwise_map.1 (pairwise_ofAccounts root others))
    (List.pairwise_map.1 (pairwise_ofAccounts root accounts))
  exact congrArg (Chart.mk root) equal

/-- **A chart holds what descends from its root.** Of any accounts it holds no code twice, and
exactly the codes that descend from the root, in the order of their numbers and texts; and if the
codes of the accounts are different, then it is the same in whatever order they are given. -/
theorem ofAccounts_descends (root : String) (accounts : List Account) :
    (∀ account ∈ (ofAccounts root accounts).accounts, account ∈ accounts) ∧
      ((ofAccounts root accounts).accounts.map Account.code).Nodup ∧
      (∀ code, code ∈ (ofAccounts root accounts).accounts.map Account.code ↔
        Descends accounts root code) ∧
      ((ofAccounts root accounts).accounts.map Account.code).Pairwise Precedes ∧
      ∀ others, accounts.Perm others → (accounts.map Account.code).Nodup →
        ofAccounts root others = ofAccounts root accounts :=
  ⟨fun _ => mem_of_mem_ofAccounts root accounts, nodup_ofAccounts root accounts,
    fun _ => mem_codes_ofAccounts_iff root accounts, pairwise_ofAccounts root accounts,
    fun _ => ofAccounts_perm⟩

/-! ## Accounts in a circle -/

end Chart

namespace Circle

/-- The accounts `7` and `70` belong to each other, and `x` belongs to no account that is there. -/
def accounts : List Account :=
  [⟨"70", "Sales", some "7"⟩, ⟨"7", "Income", some "70"⟩, ⟨"x", "Other", some "y"⟩,
    ⟨"070", "Old sales", some "70"⟩]

/-- The same accounts in another order. -/
def shuffled : List Account :=
  [⟨"x", "Other", some "y"⟩, ⟨"070", "Old sales", some "70"⟩, ⟨"7", "Income", some "70"⟩,
    ⟨"70", "Sales", some "7"⟩]

theorem descends_sales : Chart.Descends accounts "7" "70" := by
  have income : (⟨"7", "Income", some "70"⟩ : Account) ∈ accounts := by decide
  have sales : (⟨"70", "Sales", some "7"⟩ : Account) ∈ accounts := by decide
  exact .child sales rfl (.root income rfl)

end Circle

/-- The chart below one of two accounts that belong to each other holds the other one, and it is the
same in both orders. -/
theorem Chart.ofAccounts_descends_circle :
    Circle.accounts.Perm Circle.shuffled ∧ (Circle.accounts.map Account.code).Nodup ∧
      Chart.ofAccounts "7" Circle.shuffled = Chart.ofAccounts "7" Circle.accounts ∧
      "70" ∈ (Chart.ofAccounts "7" Circle.accounts).accounts.map Account.code := by
  have shuffled : Circle.accounts.Perm Circle.shuffled := by decide
  have distinct : (Circle.accounts.map Account.code).Nodup := by decide
  obtain ⟨-, -, codes, -, same⟩ := Chart.ofAccounts_descends "7" Circle.accounts
  exact ⟨shuffled, distinct, same _ shuffled distinct, (codes "70").2 Circle.descends_sales⟩

/-- The codes `070` and `70` are the same number and are ordered by their texts. -/
example : (Chart.ofAccounts "7" Circle.accounts).accounts.map Account.code =
    ["7", "070", "70"] := by
  have visited : Chart.visit Circle.accounts [⟨"7", "Income", some "70"⟩] =
      [⟨"7", "Income", some "70"⟩, ⟨"70", "Sales", some "7"⟩, ⟨"070", "Old sales", some "70"⟩] := by
    with_unfolding_all rfl
  have income : Chart.codeLe "7" "70" = true := by decide
  have sales : Chart.codeLe "70" "070" = false := by decide
  have old : Chart.codeLe "7" "070" = true := by decide
  rw [Chart.ofAccounts, show (Circle.accounts.filter fun account => account.code == "7").reverse =
    [⟨"7", "Income", some "70"⟩] from rfl, visited]
  simp [List.mergeSort, List.MergeSort.Internal.splitInTwo, income, sales, old]

end KpiReport
