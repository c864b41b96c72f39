import KpiReport.Table
import KpiReport.Value.Basic

/-!
# Scopes

A scope binds names to values while formulas are evaluated. It keeps every binding that was ever
made, the latest first, so that a second binding of a name can be told from the first.
-/

namespace KpiReport

/-- Bindings of names, the latest first; of several bindings of a name the latest counts. -/
structure Scope where
  bindings : List (String × Value) := []

namespace Scope

/-- The scope without bindings. -/
def empty : Scope := {}

/-- The value of a name. -/
def get? (scope : Scope) (name : String) : Option Value :=
  List.lookup name scope.bindings

/-- Whether a name is bound. -/
def contains (scope : Scope) (name : String) : Bool :=
  (scope.get? name).isSome

/-- Binds a name. -/
def insert (scope : Scope) (name : String) (value : Value) : Scope :=
  { bindings := (name, value) :: scope.bindings }

/-- Binds some names in order. -/
def insertAll (scope : Scope) (entries : List (String × Value)) : Scope :=
  entries.foldl (fun scope entry => scope.insert entry.1 entry.2) scope

theorem get?_insert (scope : Scope) (name : String) (value : Value) (x : String) :
    (scope.insert name value).get? x = if x = name then some value else scope.get? x :=
  Table.lookup_cons_eq

theorem get?_insertAll (scope : Scope) (entries : List (String × Value)) (x : String) :
    (scope.insertAll entries).get? x = (List.lookup x entries.reverse).or (scope.get? x) := by
  induction entries generalizing scope with
  | nil => rfl
  | cons entry entries ih =>
    obtain ⟨name, value⟩ := entry
    refine (ih (scope.insert name value)).trans ?_
    rw [get?_insert, List.reverse_cons, List.lookup_append, Option.or_assoc,
      Table.lookup_cons_eq]
    split <;> rfl

/-- A scope is below another one that keeps all its bindings. -/
instance : LE Scope where
  le S F := ∀ x value, S.get? x = some value → F.get? x = some value

theorem le_refl (S : Scope) : S ≤ S := fun _ _ bound => bound

theorem le_trans {S F G : Scope} (h : S ≤ F) (h' : F ≤ G) : S ≤ G :=
  fun x value bound => h' x value (h x value bound)

theorem get?_eq_none_of_le {S F : Scope} (h : S ≤ F) {x : String} (unbound : F.get? x = none) :
    S.get? x = none := by
  cases bound : S.get? x with
  | none => rfl
  | some value =>
    have := h x value bound
    rw [unbound] at this
    cases this

theorem le_antisymm {S F : Scope} (h : S ≤ F) (h' : F ≤ S) (x : String) : S.get? x = F.get? x := by
  cases bound : F.get? x with
  | none => exact get?_eq_none_of_le h bound
  | some value => exact h' x value bound

/-- The number of bound names. -/
def size (scope : Scope) : Nat :=
  (distinctNames (scope.bindings.map Prod.fst)).length

/-- Whether no name is bound. -/
def isEmpty (scope : Scope) : Bool :=
  scope.bindings.isEmpty

end Scope

end KpiReport
