import KpiReport.Definition.Template
import KpiReport.Filter.FieldValue
import KpiReport.Proofs.Formula.Names
import KpiReport.Proofs.Formula.Renaming

/-!
# Other private names

Private names stand for account tokens, and which name stands for which token is of no concern to a
formula: under other private names it gives the same value, or fails alike (`Expr.eval_extends`).
Records could tell private names apart if their fields had such names; the values that formulas work
with have none, and evaluation makes none (`Expr.eval_public`).
-/

namespace KpiReport

/-! ## Values without private fields -/

namespace Value

mutual

/-- No record in the value has a field with a private name. -/
def Public : Value → Prop
  | list items => AllPublic items
  | record fields => FieldsPublic fields
  | _ => True

/-- The items of a list have no private fields. -/
def AllPublic : List Value → Prop
  | [] => True
  | item :: items => item.Public ∧ AllPublic items

/-- The fields of a record have no private names, and their values no private fields. -/
def FieldsPublic : List (String × Value) → Prop
  | [] => True
  | (name, value) :: fields =>
    Template.isPrivate name = false ∧ value.Public ∧ FieldsPublic fields

end

theorem allPublic_iff {items : List Value} : AllPublic items ↔ ∀ item ∈ items, item.Public := by
  induction items with
  | nil => simp [AllPublic]
  | cons item items ih => simp [AllPublic, ih]

theorem fieldsPublic_iff {fields : List (String × Value)} : FieldsPublic fields ↔
    ∀ entry ∈ fields, Template.isPrivate entry.1 = false ∧ entry.2.Public := by
  induction fields with
  | nil => simp [FieldsPublic]
  | cons entry fields ih => simp [FieldsPublic, ih, and_assoc]

mutual

/-- An attribute of a value without private fields has none. -/
theorem member_public (attr : String) :
    ∀ v : Value, v.Public → ∀ {w}, v.member attr = .ok w → w.Public
  | noData, _, w, h => by
    cases h
    exact trivial
  | bool _, _, _, h => nomatch h
  | number _, _, _, h => nomatch h
  | text _, _, _, h => nomatch h
  | list items, clean, w, h => by
    obtain ⟨found, read, rfl⟩ := map_eq_ok.1 h
    exact itemMembers_public attr items clean read
  | record fields, clean, w, h => by
    unfold member at h
    split at h
    · rename_i value found
      cases h
      obtain ⟨before, after, rfl, -⟩ := List.lookup_eq_some_iff.1 found
      exact (fieldsPublic_iff.1 clean (attr, w) (by simp)).2
    · cases h

theorem itemMembers_public (attr : String) : ∀ (items : List Value), AllPublic items →
    ∀ {ws}, itemMembers attr items = .ok ws → AllPublic ws
  | [], _, ws, h => by
    cases h
    exact trivial
  | item :: items, clean, ws, h => by
    unfold itemMembers at h
    split at h
    · cases h
    · rename_i value found
      obtain ⟨rest, read, rfl⟩ := map_eq_ok.1 h
      exact ⟨member_public attr item clean.1 found, itemMembers_public attr items clean.2 read⟩

end

theorem public_ofFloat? (x : Option Float) : (ofFloat? x).Public := by
  cases x <;> exact trivial

theorem public_of_combine? {op : BinaryOp} {a b : Option Float} {v : Value}
    (h : combine? op a b = .ok v) : v.Public := by
  unfold combine? at h
  split at h
  · cases h
  · cases h
  · split at h <;> cases h
    exact public_ofFloat? _
  · split at h <;> cases h
    exact public_ofFloat? _
  · cases h
    exact trivial
  · cases h
    exact trivial

theorem public_of_arithmetic {op : BinaryOp} {a b v : Value} (h : arithmetic op a b = .ok v) :
    v.Public := by
  unfold arithmetic at h
  split at h
  · cases h
    exact trivial
  · split at h
    · cases h
    · split at h
      · cases h
      · exact public_of_combine? h

theorem public_of_negate {a v : Value} (h : a.negate = .ok v) : v.Public := by
  unfold negate at h
  split at h
  · cases h
    exact trivial
  · split at h <;> cases h
    exact trivial

theorem public_of_compare {op : CompareOp} {a b v : Value} (h : compare op a b = .ok v) :
    v.Public := by
  unfold compare at h
  repeat' split at h
  all_goals cases h
  all_goals exact trivial

end Value

theorem Aggregate.public_of_apply {aggregate : Aggregate} {values : List Value} {v : Value}
    (h : aggregate.apply values = .ok v) : v.Public := by
  unfold apply at h
  split at h
  · cases h
  · cases h
    exact trivial
  · cases h
    exact trivial

theorem Builtin.public_of_call {builtin : Builtin} {values : List Value} {v : Value}
    (h : builtin.call values = .ok v) : v.Public := by
  unfold call at h
  split at h
  · exact Aggregate.public_of_apply h
  · exact Aggregate.public_of_apply h
  · split at h
    · cases h
    · unfold lengthOf at h
      split at h <;> cases h <;> exact trivial
  · split at h
    · cases h
    · unfold absoluteOf at h
      split at h
      · cases h
        exact trivial
      · split at h <;> cases h
        exact trivial

namespace Expr

variable {S F : Scope}

mutual

/-- A formula over values without private fields gives such a value. -/
theorem eval_public (clean : ∀ x value, S.get? x = some value → value.Public) :
    ∀ e : Expr, ∀ {v}, e.eval S = .ok v → v.Public
  | number _, v, h | text _, v, h | bool _, v, h | noData, v, h => by
    cases h
    exact trivial
  | name s, v, h => by
    unfold eval at h
    split at h
    · rename_i value bound
      cases h
      exact clean s v bound
    · cases h
  | member base attr, v, h => by
    rw [eval_member] at h
    obtain ⟨value, read, h⟩ := bind_eq_ok.1 h
    exact Value.member_public attr value (eval_public clean base read) h
  | call function args, v, h => by
    unfold eval at h
    split at h
    · cases h
    · split at h
      · cases h
      · exact Builtin.public_of_call h
  | list items, v, h => by
    obtain ⟨values, read, rfl⟩ := map_eq_ok.1 h
    exact evalAll_public clean items read
  | negate operand, v, h => by
    rw [eval_negate] at h
    obtain ⟨value, read, h⟩ := bind_eq_ok.1 h
    exact Value.public_of_negate h
  | not operand, v, h => by
    obtain ⟨value, read, rfl⟩ := map_eq_ok.1 h
    exact trivial
  | binary op left right, v, h => by
    rw [eval_binary] at h
    obtain ⟨a, -, h⟩ := bind_eq_ok.1 h
    obtain ⟨b, -, h⟩ := bind_eq_ok.1 h
    exact Value.public_of_arithmetic h
  | compare op left right, v, h => by
    rw [eval_compare] at h
    obtain ⟨a, -, h⟩ := bind_eq_ok.1 h
    obtain ⟨b, -, h⟩ := bind_eq_ok.1 h
    exact Value.public_of_compare h
  | and left right, v, h => by
    rw [eval_and] at h
    obtain ⟨a, read, h⟩ := bind_eq_ok.1 h
    split at h
    · exact eval_public clean right h
    · cases h
      exact eval_public clean left read
  | or left right, v, h => by
    rw [eval_or] at h
    obtain ⟨a, read, h⟩ := bind_eq_ok.1 h
    split at h
    · cases h
      exact eval_public clean left read
    · exact eval_public clean right h
  | conditional condition body otherwise, v, h => by
    rw [eval_conditional] at h
    obtain ⟨c, -, h⟩ := bind_eq_ok.1 h
    split at h
    · exact eval_public clean body h
    · exact eval_public clean otherwise h

theorem evalAll_public (clean : ∀ x value, S.get? x = some value → value.Public) :
    ∀ es : List Expr, ∀ {vs}, evalAll S es = .ok vs → Value.AllPublic vs
  | [], vs, h => by
    cases h
    exact trivial
  | e :: es, vs, h => by
    rw [evalAll_cons] at h
    obtain ⟨value, read, h⟩ := bind_eq_ok.1 h
    obtain ⟨rest, more, rfl⟩ := map_eq_ok.1 h
    exact ⟨eval_public clean e read, evalAll_public clean es more⟩

end

end Expr

/-! ## Outcomes under other names -/

/-- The new outcome is the old one but for the wording of a failure, unless the old one is a failure
for want of a name. -/
inductive Extends {α : Type} : Except EvalError α → Except EvalError α → Prop where
  | refl (outcome : Except EvalError α) : Extends outcome outcome
  | fault {e e' : EvalError} (old : e ≠ .divisionByZero) (new : e' ≠ .divisionByZero) :
    Extends (.error e) (.error e')
  | wants (x : String) (new : Except EvalError α) : Extends (.error (.undefinedName x)) new

namespace Extends

variable {α β : Type} {old new : Except EvalError α}

theorem bind (first : Extends old new) {f g : α → Except EvalError β}
    (rest : ∀ a, old = .ok a → Extends (f a) (g a)) : Extends (old.bind f) (new.bind g) := by
  cases first with
  | refl =>
    cases old with
    | error e => exact .refl _
    | ok a => exact rest a rfl
  | fault old new => exact .fault old new
  | wants x new => exact .wants x _

theorem map (first : Extends old new) (f : α → β) : Extends (old.map f) (new.map f) := by
  cases first with
  | refl => exact .refl _
  | fault old new => exact .fault old new
  | wants x new => exact .wants x _

end Extends

theorem lookup_of_isPrivate {fields : List (String × Value)} (clean : Value.FieldsPublic fields)
    {a : String} (hidden : Template.isPrivate a = true) : List.lookup a fields = none := by
  rw [List.lookup_eq_none_iff]
  intro entry member
  rw [bne_iff_ne]
  rintro rfl
  rw [(Value.fieldsPublic_iff.1 clean entry member).1] at hidden
  cases hidden

namespace Value

variable {a b : String}

theorem itemMembers_cons (attr : String) (item : Value) (items : List Value) :
    itemMembers attr (item :: items) =
      (item.member attr).bind fun value => (itemMembers attr items).map (value :: ·) := by
  rw [itemMembers]
  cases item.member attr <;> rfl

mutual

/-- Values without private fields cannot tell private names apart. -/
theorem member_extends (first : Template.isPrivate a = true)
    (second : Template.isPrivate b = true) :
    ∀ v : Value, v.Public → Extends (v.member a) (v.member b)
  | noData, _ => .refl _
  | bool _, _ | number _, _ | text _, _ => .fault nofun nofun
  | list items, clean => (itemMembers_extends first second items clean).map _
  | record fields, clean => by
    rw [member, member, lookup_of_isPrivate clean first, lookup_of_isPrivate clean second]
    exact .fault nofun nofun

theorem itemMembers_extends (first : Template.isPrivate a = true)
    (second : Template.isPrivate b = true) :
    ∀ items : List Value, AllPublic items → Extends (itemMembers a items) (itemMembers b items)
  | [], _ => .refl _
  | item :: items, clean => by
    rw [itemMembers_cons, itemMembers_cons]
    exact (member_extends first second item clean.1).bind fun value _ =>
      (itemMembers_extends first second items clean.2).map _

end

end Value

/-- Names change only from private ones to private ones. -/
def ChangesPrivate (f : String → String) : Prop :=
  ∀ s, f s = s ∨ Template.isPrivate s = true ∧ Template.isPrivate (f s) = true

namespace ChangesPrivate

variable {f : String → String} (h : ChangesPrivate f)

include h

theorem eq_of_not_isPrivate {s : String} (shown : Template.isPrivate s = false) : f s = s := by
  rcases h s with same | ⟨hidden, -⟩
  · exact same
  · rw [shown] at hidden
    cases hidden

theorem eq_of_not_isPrivate_apply {s : String} (shown : Template.isPrivate (f s) = false) :
    f s = s := by
  rcases h s with same | ⟨-, hidden⟩
  · exact same
  · rw [shown] at hidden
    cases hidden

theorem keepsKeywords : Expr.KeepsKeywords f where
  keyword := fun word member => by
    have shown : ∀ word ∈ keywords, Template.isPrivate word = false := by decide
    exact h.eq_of_not_isPrivate (shown word member)
  other := fun word free member => by
    have shown : ∀ word ∈ keywords, Template.isPrivate word = false := by decide
    rcases h word with same | ⟨-, hidden⟩
    · rw [same] at member
      exact free member
    · rw [shown _ member] at hidden
      cases hidden

theorem ofName? (name : String) : Builtin.ofName? (f name) = Builtin.ofName? name := by
  have none {s : String} (hidden : Template.isPrivate s = true) : Builtin.ofName? s = none := by
    rw [Builtin.ofName?, List.lookup_eq_none_iff]
    intro entry member
    have shown : ∀ entry ∈ Builtin.names, Template.isPrivate entry.1 = false := by decide
    rw [bne_iff_ne]
    rintro rfl
    rw [shown entry member] at hidden
    cases hidden
  rcases h name with same | ⟨hidden, hidden'⟩
  · rw [same]
  · rw [none hidden, none hidden']

theorem member_extends (attr : String) {v : Value} (clean : v.Public) :
    Extends (v.member attr) (v.member (f attr)) := by
  rcases h attr with same | ⟨hidden, hidden'⟩
  · rw [same]
    exact .refl _
  · exact Value.member_extends hidden hidden' v clean

end ChangesPrivate

namespace Expr

theorem eval_call (scope : Scope) (function : String) (args : List Expr) :
    (call function args).eval scope =
      match Builtin.ofName? function with
      | none => .error (.unknownFunction function)
      | some builtin => (evalAll scope args).bind builtin.call := by
  rw [eval]
  cases Builtin.ofName? function with
  | none => rfl
  | some builtin => cases evalAll scope args <;> rfl

variable {f : String → String} {S F : Scope} {P : String → Prop}

mutual

/-- A formula over values without private fields gives the same under other private names, as far as
these are bound to the same values, unless it wants a name that had none. -/
theorem eval_extends (changes : ChangesPrivate f)
    (clean : ∀ x value, S.get? x = some value → value.Public)
    (keeps : ∀ x, P x → ∀ value, S.get? x = some value → F.get? (f x) = some value) :
    ∀ e : Expr, (∀ x ∈ e.names, P x) → Extends (e.eval S) ((e.rename f).eval F)
  | number _, _ | text _, _ | bool _, _ | noData, _ => .refl _
  | name s, within => by
    have read : P s := within s (by simp [names])
    simp only [rename, eval]
    cases bound : S.get? s with
    | some value =>
      rw [keeps s read value bound]
      exact .refl _
    | none => exact .wants s _
  | member base attr, within => by
    rw [rename, eval_member, eval_member]
    exact (eval_extends changes clean keeps base within).bind fun value given =>
      changes.member_extends attr (eval_public clean base given)
  | call function args, within => by
    rw [rename, eval_call, eval_call, changes.ofName? function]
    cases Builtin.ofName? function with
    | none => exact .fault nofun nofun
    | some builtin =>
      exact (evalAll_extends changes clean keeps args within).bind fun values _ => .refl _
  | list items, within => by
    simp only [rename, eval]
    exact (evalAll_extends changes clean keeps items within).map _
  | negate operand, within => by
    rw [rename, eval_negate, eval_negate]
    exact (eval_extends changes clean keeps operand within).bind fun value _ => .refl _
  | not operand, within => by
    simp only [rename, eval]
    exact (eval_extends changes clean keeps operand within).map _
  | binary op left right, within => by
    rw [names, List.forall_mem_append] at within
    rw [rename, eval_binary, eval_binary]
    exact (eval_extends changes clean keeps left within.1).bind fun a _ =>
      (eval_extends changes clean keeps right within.2).bind fun b _ => .refl _
  | compare op left right, within => by
    rw [names, List.forall_mem_append] at within
    rw [rename, eval_compare, eval_compare]
    exact (eval_extends changes clean keeps left within.1).bind fun a _ =>
      (eval_extends changes clean keeps right within.2).bind fun b _ => .refl _
  | and left right, within => by
    rw [names, List.forall_mem_append] at within
    rw [rename, eval_and, eval_and]
    refine (eval_extends changes clean keeps left within.1).bind fun a _ => ?_
    split
    · exact eval_extends changes clean keeps right within.2
    · exact .refl _
  | or left right, within => by
    rw [names, List.forall_mem_append] at within
    rw [rename, eval_or, eval_or]
    refine (eval_extends changes clean keeps left within.1).bind fun a _ => ?_
    split
    · exact .refl _
    · exact eval_extends changes clean keeps right within.2
  | conditional condition body otherwise, within => by
    rw [names, List.forall_mem_append, List.forall_mem_append] at within
    rw [rename, eval_conditional, eval_conditional]
    refine (eval_extends changes clean keeps condition within.1).bind fun c _ => ?_
    split
    · exact eval_extends changes clean keeps body within.2.1
    · exact eval_extends changes clean keeps otherwise within.2.2

theorem evalAll_extends (changes : ChangesPrivate f)
    (clean : ∀ x value, S.get? x = some value → value.Public)
    (keeps : ∀ x, P x → ∀ value, S.get? x = some value → F.get? (f x) = some value) :
    ∀ es : List Expr, (∀ x ∈ namesAll es, P x) →
      Extends (evalAll S es) (evalAll F (renameEach f es))
  | [], _ => .refl _
  | e :: es, within => by
    rw [namesAll, List.forall_mem_append] at within
    rw [renameEach, evalAll_cons, evalAll_cons]
    exact (eval_extends changes clean keeps e within.1).bind fun value _ =>
      (evalAll_extends changes clean keeps es within.2).map _

end

end Expr

end KpiReport
