/-!
# Tables

A table holds one value per name, its entries in ascending order of the names. Names are ordered
by their characters' code points.
-/

namespace KpiReport

/-- Entries in ascending order of their names. -/
abbrev Table (α : Type) := List (String × α)

namespace Table

variable {α β : Type}

/-- The value stored under a name. -/
def get? (table : Table α) (name : String) : Option α :=
  List.lookup name table

/-- Whether a value is stored under a name. -/
def contains (table : Table α) (name : String) : Bool :=
  (table.get? name).isSome

/-- Stores a value under a name, in place of the one stored there before. -/
def insert (table : Table α) (name : String) (value : α) : Table α :=
  match table with
  | [] => [(name, value)]
  | (other, stored) :: rest =>
    if name < other then (name, value) :: (other, stored) :: rest
    else if name = other then (name, value) :: rest
    else (other, stored) :: insert rest name value

/-- The table of some entries; of two entries with one name the later one counts. -/
def ofEntries (entries : List (String × α)) : Table α :=
  entries.foldl (fun table entry => table.insert entry.1 entry.2) []

/-- The values in the order of their names. -/
def values (table : Table α) : List α :=
  table.map Prod.snd

/-- Applies a function to every value. -/
def mapValues (f : α → β) (table : Table α) : Table β :=
  table.map fun entry => (entry.1, f entry.2)

theorem lookup_cons_eq {name other : String} {value : α} {rest : List (String × α)} :
    List.lookup name ((other, value) :: rest) =
      if name = other then some value else List.lookup name rest := by
  rw [List.lookup_cons]
  by_cases h : name = other
  · simp [h]
  · simp [h, beq_eq_false_iff_ne.2 h]

theorem get?_insert (table : Table α) (name : String) (value : α) (x : String) :
    (table.insert name value).get? x = if x = name then some value else table.get? x := by
  unfold get?
  induction table with
  | nil => simp [insert, lookup_cons_eq]
  | cons entry rest ih =>
    obtain ⟨other, stored⟩ := entry
    rw [insert]
    split
    · simp only [lookup_cons_eq]
    · split
      · rename_i h
        subst h
        simp only [lookup_cons_eq]
        split <;> rfl
      · simp only [lookup_cons_eq, ih]
        grind

theorem get?_mapValues (f : α → β) (table : Table α) (name : String) :
    (table.mapValues f).get? name = (table.get? name).map f := by
  unfold get?
  induction table with
  | nil => rfl
  | cons entry rest ih =>
    obtain ⟨other, stored⟩ := entry
    rw [mapValues, List.map_cons, lookup_cons_eq, lookup_cons_eq]
    rw [mapValues] at ih
    rw [ih]
    split <;> rfl

theorem get?_ofEntries (entries : List (String × α)) (name : String) :
    (ofEntries entries).get? name = List.lookup name entries.reverse := by
  have all (table : Table α) :
      (entries.foldl (fun table entry => table.insert entry.1 entry.2) table).get? name =
        (List.lookup name entries.reverse).or (table.get? name) := by
    induction entries generalizing table with
    | nil => rfl
    | cons entry entries ih =>
      rw [List.foldl_cons, ih, get?_insert, List.reverse_cons, List.lookup_append, Option.or_assoc,
        lookup_cons_eq]
      split <;> rfl
  exact (all []).trans Option.or_none

theorem mem_of_get? {table : Table α} {name : String} {value : α}
    (h : table.get? name = some value) : (name, value) ∈ table := by
  obtain ⟨before, after, rfl, -⟩ := List.lookup_eq_some_iff.1 h
  simp

theorem mem_names_iff {table : Table α} {name : String} :
    name ∈ table.map Prod.fst ↔ table.get? name ≠ none := by
  rw [get?, ne_eq, List.lookup_eq_none_iff]
  simp

theorem mem_insert {table : Table α} {name : String} {value : α} {entry : String × α}
    (h : entry ∈ table.insert name value) : entry = (name, value) ∨ entry ∈ table := by
  induction table with
  | nil => simpa [insert] using h
  | cons head rest ih =>
    obtain ⟨other, stored⟩ := head
    rw [insert] at h
    split at h
    · simpa using h
    · split at h
      · rcases List.mem_cons.1 h with rfl | h
        · exact Or.inl rfl
        · exact Or.inr (List.mem_cons_of_mem _ h)
      · rcases List.mem_cons.1 h with rfl | h
        · exact Or.inr List.mem_cons_self
        · exact (ih h).imp_right (List.mem_cons_of_mem _)

theorem mem_ofEntries {entries : List (String × α)} {entry : String × α}
    (h : entry ∈ ofEntries entries) : entry ∈ entries := by
  have all (table : Table α) :
      entry ∈ entries.foldl (fun table entry => table.insert entry.1 entry.2) table →
        entry ∈ entries ∨ entry ∈ table := by
    clear h
    induction entries generalizing table with
    | nil => exact Or.inr
    | cons first entries ih =>
      intro stored
      rcases ih (table.insert first.1 first.2) stored with later | stored
      · exact Or.inl (List.mem_cons_of_mem _ later)
      · rcases mem_insert stored with rfl | before
        · exact Or.inl List.mem_cons_self
        · exact Or.inr before
  rcases all [] h with given | none
  · exact given
  · cases none

/-- Whether the names stand in strictly ascending order; then none of them is stored twice. -/
def Sorted (table : Table α) : Prop :=
  (table.map Prod.fst).Pairwise (· < ·)

theorem sorted_nil : Sorted ([] : Table α) := List.Pairwise.nil

theorem sorted_insert {table : Table α} (h : table.Sorted) (name : String) (value : α) :
    (table.insert name value).Sorted := by
  induction table with
  | nil => simp [insert, Sorted]
  | cons entry rest ih =>
    obtain ⟨other, stored⟩ := entry
    obtain ⟨least, tail⟩ := List.pairwise_cons.1 h
    rw [insert]
    split
    · rename_i first
      refine List.pairwise_cons.2 ⟨fun x mem => ?_, h⟩
      rcases List.mem_cons.1 mem with rfl | mem
      · exact first
      · exact String.lt_trans first (least x mem)
    · split
      · rename_i same
        subst same
        exact List.pairwise_cons.2 ⟨least, tail⟩
      · rename_i notFirst notSame
        refine List.pairwise_cons.2 ⟨fun x mem => ?_, ih tail⟩
        obtain ⟨found, inside, rfl⟩ := List.mem_map.1 mem
        rcases mem_insert inside with rfl | inside
        · exact Std.lt_of_le_of_ne (String.not_lt.1 notFirst) (Ne.symm notSame)
        · exact least _ (List.mem_map_of_mem inside)

theorem Sorted.nodup {table : Table α} (h : table.Sorted) : (table.map Prod.fst).Nodup :=
  h.imp String.ne_of_lt

theorem Sorted.get?_of_mem {table : Table α} (h : table.Sorted) {name : String} {value : α}
    (member : (name, value) ∈ table) : table.get? name = some value := by
  have nodup := h.nodup
  unfold get?
  clear h
  induction table with
  | nil => cases member
  | cons entry rest ih =>
    obtain ⟨other, stored⟩ := entry
    obtain ⟨fresh, nodup⟩ := List.nodup_cons.1 nodup
    rw [lookup_cons_eq]
    rcases List.mem_cons.1 member with same | later
    · cases same
      exact if_pos rfl
    · rw [if_neg, ih later nodup]
      rintro rfl
      exact fresh (List.mem_map.2 ⟨_, later, rfl⟩)

theorem Sorted.mapValues {table : Table α} (h : table.Sorted) (f : α → β) :
    (table.mapValues f).Sorted := by
  unfold Sorted Table.mapValues
  rw [List.map_map]
  exact h

/-- Of distinct names it does not matter which entry counts. -/
theorem Sorted.lookup_reverse {table : Table α} (h : table.Sorted) (name : String) :
    List.lookup name table.reverse = table.get? name := by
  have nodup := h.nodup
  clear h
  unfold get?
  induction table with
  | nil => rfl
  | cons entry rest ih =>
    obtain ⟨other, stored⟩ := entry
    obtain ⟨fresh, nodup⟩ := List.nodup_cons.1 nodup
    rw [List.reverse_cons, List.lookup_append, ih nodup, lookup_cons_eq, lookup_cons_eq,
      List.lookup_nil]
    split
    · rename_i same
      rw [mem_names_iff, ne_eq, Decidable.not_not] at fresh
      rw [same]
      rw [get?] at fresh
      rw [fresh, Option.none_or]
    · exact Option.or_none

end Table

/-- Adds a name to an ascending list of distinct names. -/
def insertName (names : List String) (name : String) : List String :=
  match names with
  | [] => [name]
  | other :: rest =>
    if name < other then name :: other :: rest
    else if name = other then other :: rest
    else other :: insertName rest name

theorem mem_insertName {names : List String} {name x : String} :
    x ∈ insertName names name ↔ x = name ∨ x ∈ names := by
  induction names with
  | nil => simp [insertName]
  | cons other rest ih =>
    rw [insertName]
    split
    · simp
    · split
      · rename_i same
        simp [same]
      · rw [List.mem_cons, ih, List.mem_cons]
        exact or_left_comm

theorem sorted_insertName {names : List String} (h : names.Pairwise (· < ·)) (name : String) :
    (insertName names name).Pairwise (· < ·) := by
  induction names with
  | nil => simp [insertName]
  | cons other rest ih =>
    obtain ⟨least, tail⟩ := List.pairwise_cons.1 h
    rw [insertName]
    split
    · rename_i first
      refine List.pairwise_cons.2 ⟨fun x member => ?_, h⟩
      rcases List.mem_cons.1 member with rfl | member
      · exact first
      · exact String.lt_trans first (least x member)
    · split
      · exact h
      · rename_i notFirst notSame
        refine List.pairwise_cons.2 ⟨fun x member => ?_, ih tail⟩
        rcases mem_insertName.1 member with rfl | member
        · exact Std.lt_of_le_of_ne (String.not_lt.1 notFirst) (Ne.symm notSame)
        · exact least x member

/-- The distinct names among `names`, in ascending order. -/
def distinctNames (names : List String) : List String :=
  names.foldl insertName []

theorem mem_distinctNames {names : List String} {x : String} :
    x ∈ distinctNames names ↔ x ∈ names := by
  have all (known : List String) : x ∈ names.foldl insertName known ↔ x ∈ names ∨ x ∈ known := by
    induction names generalizing known with
    | nil => simp
    | cons name names ih =>
      rw [List.foldl_cons, ih, mem_insertName, List.mem_cons, or_assoc]
      exact or_left_comm
  rw [distinctNames, all, or_iff_left List.not_mem_nil]

theorem sorted_distinctNames (names : List String) : (distinctNames names).Pairwise (· < ·) := by
  have all (known : List String) (h : known.Pairwise (· < ·)) :
      (names.foldl insertName known).Pairwise (· < ·) := by
    induction names generalizing known with
    | nil => exact h
    | cons name names ih => exact ih _ (sorted_insertName h name)
  exact all [] List.Pairwise.nil

end KpiReport
