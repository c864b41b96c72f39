import KpiReport.Proofs.Formula.Names

/-!
# The nodes of an expression

An expression is a node with parts, which are expressions again. `Expr.at?` follows a path of
positions down to the expression that stands there, and `Expr.HasNode` says that there is such a
path. What passes from the parts of an expression to the expression itself holds of every expression
(`Expr.induction_on_parts`), whatever the fifteen kinds of nodes are.
-/

namespace KpiReport.Expr

/-- The expressions that an expression is made of, in the order of its fields. -/
def parts : Expr → List Expr
  | number _ | text _ | bool _ | noData | name _ => []
  | member operand _ | negate operand | not operand => [operand]
  | call _ items | list items => items
  | binary _ left right | compare _ left right | and left right | or left right => [left, right]
  | conditional condition body otherwise => [condition, body, otherwise]

/-- What an expression is apart from its parts, all of which are left blank: its kind, its names,
values and operators, and the number of its parts. -/
def node : Expr → Expr
  | number x => number x
  | text s => text s
  | bool b => bool b
  | noData => noData
  | name s => name s
  | member _ attr => member noData attr
  | call function args => call function (args.map fun _ => noData)
  | list items => list (items.map fun _ => noData)
  | negate _ => negate noData
  | not _ => not noData
  | binary op _ _ => binary op noData noData
  | compare op _ _ => compare op noData noData
  | and _ _ => and noData noData
  | or _ _ => or noData noData
  | conditional _ _ _ => conditional noData noData noData

theorem sizeOf_lt_of_mem_parts {e part : Expr} (h : part ∈ e.parts) : sizeOf part < sizeOf e := by
  cases e with
  | number _ | text _ | bool _ | noData | name _ => cases h
  | call _ items | list items =>
    have inside : sizeOf part < sizeOf items := List.sizeOf_lt_of_mem h
    simp only [call.sizeOf_spec, list.sizeOf_spec]
    omega
  | _ =>
    simp only [parts, List.mem_cons, List.not_mem_nil, or_false] at h
    grind

/-- What holds of an expression as soon as it holds of its parts holds of every expression. -/
@[elab_as_elim]
theorem induction_on_parts {motive : Expr → Prop}
    (step : ∀ e : Expr, (∀ part ∈ e.parts, motive part) → motive e) (e : Expr) : motive e :=
  step e fun part _ => induction_on_parts step part
termination_by sizeOf e
decreasing_by exact sizeOf_lt_of_mem_parts ‹_›

/-! ## Paths -/

/-- The expression at the end of a path, each number of which is the position of a part. -/
def at? : Expr → List Nat → Option Expr
  | e, [] => some e
  | e, i :: path => e.parts[i]?.bind fun part => at? part path

/-- The expression stands somewhere in `e`. -/
def HasNode (e sub : Expr) : Prop :=
  ∃ path, e.at? path = some sub

theorem at?_cons {e sub : Expr} {i : Nat} {path : List Nat} :
    e.at? (i :: path) = some sub ↔ ∃ part, e.parts[i]? = some part ∧ part.at? path = some sub :=
  Option.bind_eq_some_iff

theorem HasNode.of_part {e part sub : Expr} (member : part ∈ e.parts) (h : part.HasNode sub) :
    e.HasNode sub := by
  obtain ⟨i, found⟩ := List.mem_iff_getElem?.1 member
  obtain ⟨path, ends⟩ := h
  exact ⟨i :: path, at?_cons.2 ⟨part, found, ends⟩⟩

theorem hasNode_iff {e sub : Expr} :
    e.HasNode sub ↔ sub = e ∨ ∃ part ∈ e.parts, part.HasNode sub := by
  constructor
  · rintro ⟨_ | ⟨i, path⟩, ends⟩
    · exact .inl (Option.some.inj ends).symm
    · obtain ⟨part, found, ends⟩ := at?_cons.1 ends
      exact .inr ⟨part, List.mem_of_getElem? found, path, ends⟩
  · rintro (rfl | ⟨part, member, h⟩)
    · exact ⟨[], rfl⟩
    · exact h.of_part member

end KpiReport.Expr
