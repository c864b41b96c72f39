import KpiReport.Render
import Mathlib.Data.List.Basic

/-!
# Groups of digits

The digits before the decimal point are cut into groups from the right. `Grouped` says what a cut
into groups is, apart from how it is made; digits have exactly one such cut. The main statement,
`groupDigits_cut`, says that displayed digits are this cut with the separator between its groups.
-/

namespace KpiReport

/-- The digits are cut into groups of `size`, only the first of which may be shorter; none is
empty. -/
structure Grouped (size : Nat) (ds : List Char) (groups : List (List Char)) : Prop where
  flatten : groups.flatten = ds
  first : ∀ group ∈ groups.head?, 1 ≤ group.length ∧ group.length ≤ size
  others : ∀ group ∈ groups.tail, group.length = size

/-! ## Groups of one length -/

theorem flatten_digitGroups (size : Nat) (ds : List Char) : (digitGroups size ds).flatten = ds := by
  fun_induction digitGroups size ds with
  | case1 => rfl
  | case2 d rest ih => rw [List.flatten_cons, ih, List.take_append_drop]

/-- Digits that come out even leave no shorter group at the end. -/
theorem length_of_mem_digitGroups {size : Nat} {ds : List Char} (even : size + 1 ∣ ds.length) :
    ∀ group ∈ digitGroups size ds, group.length = size + 1 := by
  fun_induction digitGroups size ds with
  | case1 => exact fun _ member => nomatch member
  | case2 d rest ih =>
    have enough : size + 1 ≤ (d :: rest).length := Nat.le_of_dvd (Nat.succ_pos _) even
    refine List.forall_mem_cons.2 ⟨List.length_take_of_le enough, ih ?_⟩
    rw [List.length_drop]
    exact Nat.dvd_sub even (Nat.dvd_refl _)

theorem length_flatten_of_lengths {size : Nat} {groups : List (List Char)}
    (lengths : ∀ group ∈ groups, group.length = size) :
    groups.flatten.length = size * groups.length := by
  induction groups with
  | nil => rfl
  | cons group groups ih =>
    obtain ⟨length, lengths⟩ := List.forall_mem_cons.1 lengths
    rw [List.flatten_cons, List.length_append, ih lengths, length, List.length_cons, Nat.mul_succ,
      Nat.add_comm]

/-- Groups of one length are determined by their digits and their number. -/
theorem eq_of_flatten_eq {size : Nat} {groups groups' : List (List Char)}
    (lengths : ∀ group ∈ groups, group.length = size)
    (lengths' : ∀ group ∈ groups', group.length = size)
    (count : groups.length = groups'.length) (same : groups.flatten = groups'.flatten) :
    groups = groups' := by
  induction groups generalizing groups' with
  | nil => exact (List.length_eq_zero_iff.1 count.symm).symm
  | cons group groups ih =>
    obtain ⟨group', groups', rfl⟩ := List.exists_cons_of_length_eq_add_one count.symm
    obtain ⟨length, others⟩ := List.forall_mem_cons.1 lengths
    obtain ⟨length', others'⟩ := List.forall_mem_cons.1 lengths'
    obtain ⟨rfl, rest⟩ := List.append_inj same (length.trans length'.symm)
    rw [ih others others' (Nat.succ.inj count) rest]

/-! ## The cut -/

namespace Grouped

variable {size : Nat} {ds : List Char}

theorem eq_nil {groups : List (List Char)} (h : Grouped size [] groups) : groups = [] := by
  cases groups with
  | nil => rfl
  | cons group groups =>
    have bounds := h.first group rfl
    have empty := List.append_eq_nil_iff.1 h.flatten
    rw [empty.1] at bounds
    exact absurd bounds.1 (by decide)

/-- The number of digits gives the length of the first group and the number of the others. -/
theorem unique {groups groups' : List (List Char)} (h : Grouped size ds groups)
    (h' : Grouped size ds groups') : groups = groups' := by
  cases groups with
  | nil =>
    obtain rfl : [] = ds := h.flatten
    exact h'.eq_nil.symm
  | cons first others =>
    cases groups' with
    | nil =>
      obtain rfl : [] = ds := h'.flatten
      exact h.eq_nil
    | cons first' others' =>
      obtain ⟨low, high⟩ := h.first first rfl
      obtain ⟨low', high'⟩ := h'.first first' rfl
      have lengths : ∀ group ∈ others, group.length = size := h.others
      have lengths' : ∀ group ∈ others', group.length = size := h'.others
      have same : first ++ others.flatten = first' ++ others'.flatten :=
        h.flatten.trans h'.flatten.symm
      have total : first.length + size * others.length = first'.length + size * others'.length := by
        have total := congrArg List.length same
        rwa [List.length_append, List.length_append, length_flatten_of_lengths lengths,
          length_flatten_of_lengths lengths'] at total
      have count : others.length = others'.length := by
        rcases Nat.lt_trichotomy others.length others'.length with less | equal | more
        · have := Nat.mul_le_mul_left size less
          rw [Nat.mul_succ] at this
          omega
        · exact equal
        · have := Nat.mul_le_mul_left size more
          rw [Nat.mul_succ] at this
          omega
      have length : first.length = first'.length := by
        rw [count] at total
        exact Nat.add_right_cancel total
      obtain ⟨rfl, rest⟩ := List.append_inj same length
      rw [eq_of_flatten_eq lengths lengths' count rest]

end Grouped

theorem exists_grouped (separator ds : List Char) (size : Nat) :
    ∃ groups, Grouped (size + 1) ds groups ∧
      groupDigits separator (size + 1) ds = separator.intercalate groups := by
  have shorter : ds.length % (size + 1) < size + 1 := Nat.mod_lt _ (Nat.succ_pos size)
  have even : size + 1 ∣ (ds.drop (ds.length % (size + 1))).length := by
    rw [List.length_drop]
    exact Nat.dvd_sub_mod ds.length
  have lengths := length_of_mem_digitGroups even
  have rest := flatten_digitGroups size (ds.drop (ds.length % (size + 1)))
  unfold groupDigits
  dsimp only
  by_cases none : ds.length % (size + 1) = 0
  · rw [if_pos none]
    rw [none, List.drop_zero] at lengths rest ⊢
    refine ⟨_, ⟨rest, ?_, fun group member => lengths group (List.mem_of_mem_tail member)⟩, rfl⟩
    intro group member
    have length := lengths group (List.mem_of_mem_head? member)
    omega
  · rw [if_neg none]
    have head : (ds.take (ds.length % (size + 1))).length = ds.length % (size + 1) :=
      List.length_take_of_le (Nat.mod_le _ _)
    refine ⟨_ :: _, ⟨?_, ?_, lengths⟩, rfl⟩
    · rw [List.flatten_cons, rest, List.take_append_drop]
    · rintro group ⟨⟩
      omega

/-- **Displayed digits are the cut into groups with the separator between them**; without a grouping
they stay together. -/
theorem groupDigits_cut (separator ds : List Char) :
    groupDigits separator 0 ds = ds ∧
      ∀ size, ∃ groups, (∀ other, Grouped (size + 1) ds other ↔ other = groups) ∧
        groupDigits separator (size + 1) ds = separator.intercalate groups := by
  refine ⟨rfl, fun size => ?_⟩
  obtain ⟨groups, cut, joined⟩ := exists_grouped separator ds size
  refine ⟨groups, fun other => ⟨fun cut' => cut'.unique cut, ?_⟩, joined⟩
  rintro rfl
  exact cut

end KpiReport
