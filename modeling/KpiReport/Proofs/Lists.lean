import Mathlib.Data.List.Forall2

/-!
# Lists with keys

Lists are sorted by whole numbers, divided into groups of members with one key, and their members
are looked up by names.
-/

namespace KpiReport

variable {α β γ : Type}

/-- A list that is sorted by a key is in the order of the key. -/
theorem pairwise_mergeSort_key (key : α → Int) (xs : List α) :
    (xs.mergeSort fun a b => decide (key a ≤ key b)).Pairwise fun a b => key a ≤ key b := by
  let le (a b : α) : Bool := decide (key a ≤ key b)
  have trans (a b c : α) (earlier : le a b = true) (later : le b c = true) : le a c = true := by
    simp only [le, decide_eq_true_eq] at earlier later ⊢
    omega
  have total (a b : α) : (le a b || le b a) = true := by
    simp only [le, Bool.or_eq_true, decide_eq_true_eq]
    omega
  exact (List.pairwise_mergeSort trans total xs).imp of_decide_eq_true

/-! ## Groups -/

/-- The members of a list with the same key, for each key in the order of their first members. -/
def groupsBy (key : α → Nat) (xs : List α) : List (List α) :=
  (xs.map key).eraseDups.map fun k => xs.filter fun x => key x == k

theorem eraseDups_append_of_key {key : α → Nat} {k : Nat} {block later : List α}
    (nonempty : block ≠ []) (same : ∀ x ∈ block, key x = k) (other : ∀ x ∈ later, key x ≠ k) :
    ((block ++ later).map key).eraseDups = k :: (later.map key).eraseDups := by
  obtain ⟨x, rest, rfl⟩ := List.exists_cons_of_ne_nil nonempty
  obtain ⟨own, same⟩ := List.forall_mem_cons.1 same
  have gone : (rest.map key).filter (fun b => !b == k) = [] := by
    simpa using same
  have kept : (later.map key).filter (fun b => !b == k) = later.map key := by
    simpa using other
  rw [List.cons_append, List.map_cons, List.eraseDups_cons, own, List.map_append,
    List.filter_append, gone, kept, List.nil_append]

/-- Members with one key make a group of their own if no later member has it. -/
theorem groupsBy_append {key : α → Nat} {k : Nat} {block later : List α} (nonempty : block ≠ [])
    (same : ∀ x ∈ block, key x = k) (other : ∀ x ∈ later, key x ≠ k) :
    groupsBy key (block ++ later) = block :: groupsBy key later := by
  have own : (block ++ later).filter (fun x => key x == k) = block := by
    have all : block.filter (fun x => key x == k) = block := by simpa using same
    have none : later.filter (fun x => key x == k) = [] := by simpa using other
    rw [List.filter_append, all, none, List.append_nil]
  rw [groupsBy, eraseDups_append_of_key nonempty same other, List.map_cons, own, groupsBy]
  congr 1
  apply List.map_congr_left
  intro c listed
  obtain ⟨x, member, rfl⟩ := List.mem_map.1 (List.mem_eraseDups.1 listed)
  have none : block.filter (fun y => key y == key x) = [] := by
    apply List.filter_eq_nil_iff.2
    intro y inside equal
    exact other x member ((eq_of_beq equal).symm.trans (same y inside))
  rw [List.filter_append, none, List.nil_append]

/-! ## Pairs -/

theorem exists_of_mem_forall₂ {R : α → β → Prop} {xs : List α} {ys : List β}
    (h : List.Forall₂ R xs ys) {y : β} (member : y ∈ ys) : ∃ x ∈ xs, R x y := by
  induction h with
  | nil => cases member
  | cons first _ ih =>
    rcases List.mem_cons.1 member with rfl | member
    · exact ⟨_, List.mem_cons_self, first⟩
    · obtain ⟨x, inside, related⟩ := ih member
      exact ⟨x, List.mem_cons_of_mem _ inside, related⟩

theorem exists_mem_of_forall₂ {R : α → β → Prop} {xs : List α} {ys : List β}
    (h : List.Forall₂ R xs ys) {x : α} (member : x ∈ xs) : ∃ y ∈ ys, R x y :=
  exists_of_mem_forall₂ h.flip member

theorem map_eq_map_of_forall₂ {R : α → β → Prop} {f : α → γ} {g : β → γ} {xs : List α}
    {ys : List β} (h : List.Forall₂ R xs ys) (same : ∀ x y, R x y → f x = g y) :
    xs.map f = ys.map g := by
  rw [← List.forall₂_eq_eq_eq, List.forall₂_map_left_iff, List.forall₂_map_right_iff]
  exact h.imp same

theorem forall₂_imp_of_mem {R S : α → β → Prop} {xs : List α} {ys : List β}
    (h : List.Forall₂ R xs ys) (each : ∀ x y, x ∈ xs → R x y → S x y) : List.Forall₂ S xs ys := by
  induction h with
  | nil => exact .nil
  | cons first _ ih =>
    refine .cons (each _ _ List.mem_cons_self first) (ih fun x y member => ?_)
    exact each x y (List.mem_cons_of_mem _ member)

/-! ## Positions and keys -/

theorem getElem?_concat_eq_some_iff {xs : List α} {x y : α} {index : Nat} :
    (xs ++ [x])[index]? = some y ↔ xs[index]? = some y ∨ index = xs.length ∧ x = y := by
  rcases Nat.lt_trichotomy index xs.length with inside | rfl | outside
  · rw [List.getElem?_append_left inside, or_iff_left (by omega)]
  · simp
  · rw [List.getElem?_eq_none (by simp; omega), List.getElem?_eq_none (by omega)]
    simp
    omega

theorem lookup_eq_some_of_mem [BEq α] [LawfulBEq α] {entries : List (α × β)} {a : α}
    {b : β} (distinct : (entries.map Prod.fst).Nodup) (member : (a, b) ∈ entries) :
    List.lookup a entries = some b := by
  induction entries with
  | nil => cases member
  | cons entry entries ih =>
    obtain ⟨fresh, distinct⟩ := List.nodup_cons.1 distinct
    rw [List.lookup_cons]
    rcases List.mem_cons.1 member with rfl | member
    · simp
    · have ne : (a == entry.1) = false := by
        rw [beq_eq_false_iff_ne]
        rintro rfl
        exact fresh (List.mem_map.2 ⟨_, member, rfl⟩)
      rw [ne]
      exact ih distinct member

/-! ## Last members -/

/-- A member of a list has a property that no later member has. -/
def IsLast (P : α → Prop) (xs : List α) (x : α) : Prop :=
  ∃ before after, xs = before ++ x :: after ∧ P x ∧ ∀ y ∈ after, ¬ P y

theorem IsLast.mem {P : α → Prop} {xs : List α} {x : α} (h : IsLast P xs x) : x ∈ xs := by
  obtain ⟨before, after, rfl, -⟩ := h
  simp

theorem IsLast.congr {P Q : α → Prop} {xs : List α} {x : α} (h : IsLast P xs x)
    (same : ∀ y ∈ xs, P y ↔ Q y) : IsLast Q xs x := by
  obtain ⟨before, after, rfl, own, later⟩ := h
  refine ⟨before, after, rfl, (same x (by simp)).1 own, fun y member => ?_⟩
  rw [← same y (by simp [member])]
  exact later y member

/-- The first value that a function gives on the reversed list is that of the last member on which
it gives one. -/
theorem isLast_of_findSome?_reverse {f : α → Option β} {xs : List α} {b : β}
    (h : xs.reverse.findSome? f = some b) :
    ∃ x, IsLast (fun y => (f y).isSome = true) xs x ∧ f x = some b := by
  obtain ⟨after, x, before, parts, given, none⟩ := List.findSome?_eq_some_iff.1 h
  refine ⟨x, ⟨before.reverse, after.reverse, ?_, ?_, fun y member => ?_⟩, given⟩
  · rw [← List.reverse_reverse xs, parts]
    simp
  · simp [given]
  · simp [none y (List.mem_reverse.1 member)]

/-- The first member with a property on the reversed list is the last one. -/
theorem isLast_of_find?_reverse {p : α → Bool} {xs : List α} {x : α}
    (h : xs.reverse.find? p = some x) : IsLast (fun y => p y = true) xs x := by
  obtain ⟨own, after, before, parts, none⟩ := List.find?_eq_some_iff_append.1 h
  refine ⟨before.reverse, after.reverse, ?_, own, fun y member => ?_⟩
  · rw [← List.reverse_reverse xs, parts]
    simp
  · have other := none y (List.mem_reverse.1 member)
    simpa using other

theorem findSome?_filter (p : α → Bool) (f : α → Option β) (xs : List α) :
    (xs.filter p).findSome? f = xs.findSome? fun x => if p x then f x else none := by
  induction xs with
  | nil => rfl
  | cons x xs ih =>
    rw [List.findSome?_cons]
    by_cases kept : p x = true
    · rw [List.filter_cons_of_pos kept, List.findSome?_cons, ih, if_pos kept]
    · rw [List.filter_cons_of_neg kept, ih, if_neg kept]

/-! ## Greatest members -/

/-- A natural number is the greatest of some numbers, or zero where none is positive. -/
structure IsExtent (numbers : List Int) (extent : Nat) : Prop where
  upper : ∀ k ∈ numbers, k ≤ extent
  attained : extent = 0 ∨ (extent : Int) ∈ numbers

theorem foldl_max_spec (numbers : List Int) (start : Int) :
    start ≤ numbers.foldl max start ∧ (∀ k ∈ numbers, k ≤ numbers.foldl max start) ∧
      (numbers.foldl max start = start ∨ numbers.foldl max start ∈ numbers) := by
  induction numbers generalizing start with
  | nil => simp
  | cons k numbers ih =>
    obtain ⟨above, upper, attained⟩ := ih (max start k)
    rw [List.foldl_cons]
    refine ⟨by omega, List.forall_mem_cons.2 ⟨by omega, upper⟩, ?_⟩
    rcases attained with same | inside
    · have choice : max start k = start ∨ max start k = k := by omega
      rw [same]
      exact choice.imp_right fun second => by simp [second]
    · exact Or.inr (List.mem_cons_of_mem k inside)

theorem isExtent_foldl_max (numbers : List Int) :
    IsExtent numbers (numbers.foldl max 0).toNat := by
  obtain ⟨above, upper, attained⟩ := foldl_max_spec numbers 0
  refine ⟨fun k member => ?_, ?_⟩
  · have bound := upper k member
    omega
  · rcases attained with zero | inside
    · exact Or.inl (by omega)
    · refine Or.inr ?_
      rw [Int.toNat_of_nonneg above]
      exact inside

end KpiReport
