import KpiReport.Proofs.Formula.Nodes
import KpiReport.Proofs.Formula.Renaming

/-!
# Replacing references by names

A reference `base.attr` to a KPI of another report is replaced by the name under which the value of
the KPI is bound. The main statement, `Expr.replacement_preserves`, says that this is all that
happens: the value stays the same wherever the base is bound to a record with the attribute, every
other node of the tree stays in its place, and nothing is left to replace.

One step says what becomes of an expression that is not replaced itself, given what becomes of its
parts; the statements follow by induction over the parts.
-/

namespace KpiReport

/-- The scope binds the base of every pair to a record that holds the attribute, and the dotted name
of the pair to the same value. -/
def Scope.Resolves (scope : Scope) (pairs : List (String × String)) : Prop :=
  ∀ base attr, (base, attr) ∈ pairs → ∃ fields value, scope.get? base = some (.record fields) ∧
    List.lookup attr fields = some value ∧ scope.get? (base ++ "." ++ attr) = some value

namespace Expr

variable {r : String → String → Option String}

/-- The expression is no reference that is replaced, though its parts may hold some. -/
def Stays (r : String → String → Option String) (e : Expr) : Prop :=
  ∀ base attr, e = member (name base) attr → r base attr = none

/-- No expression on the path is replaced before the path has ended. -/
def StaysAbove (r : String → String → Option String) (e : Expr) (path : List Nat) : Prop :=
  ∀ n < path.length, ∀ above, e.at? (path.take n) = some above → above.Stays r

/-! ## One step -/

theorem renameReferences_of_not_stays {e : Expr} (h : ¬ e.Stays r) :
    ∃ base attr replacement, e = member (name base) attr ∧ r base attr = some replacement ∧
      e.renameReferences r = name replacement := by
  simp only [Stays, not_forall] at h
  obtain ⟨base, attr, rfl, replaced⟩ := h
  obtain ⟨replacement, found⟩ := Option.ne_none_iff_exists'.1 replaced
  exact ⟨base, attr, replacement, rfl, found, by rw [renameReferences, found]⟩

theorem renameReferences_member_of_stays {base : Expr} {attr : String}
    (h : (member base attr).Stays r) :
    (member base attr).renameReferences r = member (base.renameReferences r) attr := by
  by_cases bare : ∃ s, base = name s
  · obtain ⟨s, rfl⟩ := bare
    simp only [renameReferences, h s attr rfl]
  · exact renameReferences_member (fun s same => bare ⟨s, same⟩) attr

theorem renameAll_eq_map (es : List Expr) : renameAll r es = es.map (renameReferences r) := by
  induction es with
  | nil => rfl
  | cons e es ih => rw [renameAll, ih, List.map_cons]

theorem parts_renameReferences {e : Expr} (h : e.Stays r) :
    (e.renameReferences r).parts = e.parts.map (renameReferences r) := by
  cases e with
  | member base attr =>
    rw [renameReferences_member_of_stays h]
    rfl
  | call function args => exact renameAll_eq_map args
  | list items => exact renameAll_eq_map items
  | _ => rfl

theorem node_renameReferences {e : Expr} (h : e.Stays r) :
    (e.renameReferences r).node = e.node := by
  cases e with
  | member base attr =>
    rw [renameReferences_member_of_stays h]
    rfl
  | call function args | list args =>
    simp only [renameReferences, node, renameAll_eq_map, List.map_map, Function.comp_def]
  | _ => rfl

theorem evalAll_renameAll {S : Scope} {es : List Expr}
    (same : ∀ e ∈ es, (e.renameReferences r).eval S = e.eval S) :
    evalAll S (renameAll r es) = evalAll S es := by
  induction es with
  | nil => rfl
  | cons e es ih =>
    rw [List.forall_mem_cons] at same
    rw [renameAll, evalAll, evalAll, same.1, ih same.2]

/-- An expression that is kept has the outcome that it had, if its parts have. -/
theorem eval_renameReferences {S : Scope} {e : Expr} (h : e.Stays r)
    (same : ∀ part ∈ e.parts, (part.renameReferences r).eval S = part.eval S) :
    (e.renameReferences r).eval S = e.eval S := by
  cases e with
  | number _ | text _ | bool _ | noData | name _ => rfl
  | member base attr =>
    rw [renameReferences_member_of_stays h, eval, eval, same base List.mem_cons_self]
  | call function args =>
    have values : evalAll S (renameAll r args) = evalAll S args := evalAll_renameAll same
    rw [renameReferences, eval, eval, values]
  | list items =>
    have values : evalAll S (renameAll r items) = evalAll S items := evalAll_renameAll same
    rw [renameReferences, eval, eval, values]
  | negate operand => rw [renameReferences, eval, eval, same operand List.mem_cons_self]
  | not operand => rw [renameReferences, eval, eval, same operand List.mem_cons_self]
  | binary _ left right | compare _ left right | and left right | or left right =>
    simp only [parts, List.forall_mem_cons, List.not_mem_nil, false_implies, implies_true,
      and_true] at same
    rw [renameReferences, eval, eval, same.1, same.2]
  | conditional condition body otherwise =>
    simp only [parts, List.forall_mem_cons, List.not_mem_nil, false_implies, implies_true,
      and_true] at same
    rw [renameReferences, eval, eval, same.1, same.2.1, same.2.2]

/-- An expression that is kept stays as it is, if its parts do. -/
theorem renameReferences_eq_self {e : Expr} (h : e.Stays r)
    (same : ∀ part ∈ e.parts, part.renameReferences r = part) : e.renameReferences r = e := by
  have all (es : List Expr) (same : ∀ e ∈ es, e.renameReferences r = e) : renameAll r es = es := by
    rw [renameAll_eq_map, List.map_congr_left same, List.map_id']
  cases e with
  | number _ | text _ | bool _ | noData | name _ => rfl
  | member base attr => rw [renameReferences_member_of_stays h, same base List.mem_cons_self]
  | call function args => rw [renameReferences, all args same]
  | list items => rw [renameReferences, all items same]
  | negate operand => rw [renameReferences, same operand List.mem_cons_self]
  | not operand => rw [renameReferences, same operand List.mem_cons_self]
  | binary _ left right | compare _ left right | and left right | or left right =>
    simp only [parts, List.forall_mem_cons, List.not_mem_nil, false_implies, implies_true,
      and_true] at same
    rw [renameReferences, same.1, same.2]
  | conditional condition body otherwise =>
    simp only [parts, List.forall_mem_cons, List.not_mem_nil, false_implies, implies_true,
      and_true] at same
    rw [renameReferences, same.1, same.2.1, same.2.2]

/-! ## The whole tree -/

theorem staysAbove_cons {e part : Expr} {i : Nat} {path : List Nat} (h : e.parts[i]? = some part) :
    e.StaysAbove r (i :: path) ↔ e.Stays r ∧ part.StaysAbove r path := by
  constructor
  · intro kept
    refine ⟨kept 0 (Nat.succ_pos _) e rfl, fun n low above ends => ?_⟩
    exact kept (n + 1) (Nat.succ_lt_succ low) above (at?_cons.2 ⟨part, h, ends⟩)
  · rintro ⟨own, kept⟩ n low above ends
    cases n with
    | zero =>
      cases ends
      exact own
    | succ n =>
      obtain ⟨part', found, ends⟩ := at?_cons.1 ends
      rw [h] at found
      cases found
      exact kept n (Nat.lt_of_succ_lt_succ low) above ends

/-- A path leads somewhere in the new tree exactly if it led somewhere and nothing on it has been
replaced; and then it leads to what the expression there has become. -/
theorem at?_renameReferences {e new : Expr} {path : List Nat} :
    (e.renameReferences r).at? path = some new ↔
      ∃ old, e.at? path = some old ∧ e.StaysAbove r path ∧ new = old.renameReferences r := by
  induction path generalizing e with
  | nil =>
    have nothing : e.StaysAbove r [] := fun n low => absurd low (Nat.not_lt_zero n)
    simp [at?, nothing, eq_comm]
  | cons i path ih =>
    by_cases kept : e.Stays r
    · rw [at?_cons, parts_renameReferences kept, List.getElem?_map]
      constructor
      · rintro ⟨new, renamed, ends⟩
        obtain ⟨part, found, rfl⟩ := Option.map_eq_some_iff.1 renamed
        obtain ⟨old, before, above, rfl⟩ := ih.1 ends
        exact ⟨old, at?_cons.2 ⟨part, found, before⟩, (staysAbove_cons found).2 ⟨kept, above⟩, rfl⟩
      · rintro ⟨old, before, above, rfl⟩
        obtain ⟨part, found, before⟩ := at?_cons.1 before
        refine ⟨part.renameReferences r, by rw [found]; rfl, ih.2 ?_⟩
        exact ⟨old, before, ((staysAbove_cons found).1 above).2, rfl⟩
    · obtain ⟨base, attr, replacement, -, -, replaced⟩ := renameReferences_of_not_stays kept
      constructor
      · intro ends
        rw [replaced] at ends
        cases ends
      · rintro ⟨old, -, above, -⟩
        exact absurd (above 0 (Nat.succ_pos _) e rfl) kept

/-! ## References to other reports -/

section Dotted

variable {pairs : List (String × String)}

/-- The expression is a reference `base.attr` of one of the pairs. -/
def IsReference (pairs : List (String × String)) (e : Expr) : Prop :=
  ∃ base attr, (base, attr) ∈ pairs ∧ e = member (name base) attr

theorem stays_dottedName_iff {e : Expr} :
    e.Stays (dottedName pairs) ↔ ¬ e.IsReference pairs := by
  simp only [Stays, IsReference, dottedName, List.contains_iff_mem]
  constructor
  · rintro stays ⟨base, attr, member, same⟩
    have := stays base attr same
    rw [if_pos member] at this
    cases this
  · exact fun other base attr same => if_neg fun member => other ⟨base, attr, member, same⟩

theorem renameReferences_dottedName {base attr : String} (h : (base, attr) ∈ pairs) :
    (member (name base) attr).renameReferences (dottedName pairs) =
      name (base ++ "." ++ attr) := by
  simp only [renameReferences, dottedName, List.contains_iff_mem, if_pos h]

/-- What a part of a replaced tree has become is no reference of the pairs, as no base holds a
dot. -/
theorem not_isReference_renameReferences (dotless : ∀ pair ∈ pairs, Dotless pair.1) (e : Expr) :
    ¬ (e.renameReferences (dottedName pairs)).IsReference pairs := by
  by_cases own : e.IsReference pairs
  · obtain ⟨base, attr, inside, rfl⟩ := own
    rw [renameReferences_dottedName inside]
    rintro ⟨_, _, -, same⟩
    cases same
  · have stays := stays_dottedName_iff.2 own
    rintro ⟨base, attr, inside, same⟩
    cases e with
    | member operand attr' =>
      rw [renameReferences_member_of_stays stays] at same
      obtain ⟨become, rfl⟩ := Expr.member.inj same
      by_cases inner : operand.IsReference pairs
      · obtain ⟨base', attr'', inside', rfl⟩ := inner
        rw [renameReferences_dottedName inside'] at become
        cases become
        exact Library.not_dotless_dotted base' attr'' (dotless _ inside)
      · have kind := node_renameReferences (stays_dottedName_iff.2 inner)
        rw [become] at kind
        cases operand with
        | name s =>
          cases kind
          exact own ⟨_, _, inside, rfl⟩
        | _ => cases kind
    | _ => cases same

/-- A resolved reference has the value of its dotted name, so nothing is evaluated differently. -/
theorem eval_renameReferences_dottedName {scope : Scope} (h : scope.Resolves pairs) (e : Expr) :
    (e.renameReferences (dottedName pairs)).eval scope = e.eval scope := by
  induction e using induction_on_parts with
  | step e ih =>
    by_cases own : e.IsReference pairs
    · obtain ⟨base, attr, inside, rfl⟩ := own
      obtain ⟨fields, value, bound, held, dotted⟩ := h base attr inside
      rw [renameReferences_dottedName inside]
      simp only [eval, bound, dotted, Value.member, held]
    · exact eval_renameReferences (stays_dottedName_iff.2 own) ih

theorem renameReferences_twice (dotless : ∀ pair ∈ pairs, Dotless pair.1) (e : Expr) :
    (e.renameReferences (dottedName pairs)).renameReferences (dottedName pairs) =
      e.renameReferences (dottedName pairs) := by
  induction e using induction_on_parts with
  | step e ih =>
    by_cases own : e.IsReference pairs
    · obtain ⟨base, attr, inside, rfl⟩ := own
      rw [renameReferences_dottedName inside]
      rfl
    · have settled := not_isReference_renameReferences dotless e
      refine renameReferences_eq_self (stays_dottedName_iff.2 settled) ?_
      rw [parts_renameReferences (stays_dottedName_iff.2 own), List.forall_mem_map]
      exact ih

/-- **Replacing references preserves meaning.** Let the references `base.attr` of some pairs be
replaced by the names written so. In every scope that resolves the pairs the expression keeps its
outcome, value or failure. What stood at the end of a path that passes no replaced reference still
stands there: the name if it was a reference of a pair, else the same node; and nothing stands
where nothing stood. If no base holds a dot, no reference of a pair is left anywhere in the tree,
and replacing again changes nothing. -/
theorem replacement_preserves (e : Expr) (pairs : List (String × String)) :
    (∀ scope : Scope, scope.Resolves pairs →
      (e.renameReferences (dottedName pairs)).eval scope = e.eval scope) ∧
    (∀ path old, e.at? path = some old →
      (∀ n < path.length, ∀ above, e.at? (path.take n) = some above → ¬ above.IsReference pairs) →
      ∃ new, (e.renameReferences (dottedName pairs)).at? path = some new ∧
        (∀ base attr, (base, attr) ∈ pairs → old = member (name base) attr →
          new = name (base ++ "." ++ attr)) ∧
        (¬ old.IsReference pairs → new.node = old.node)) ∧
    (∀ path, (e.renameReferences (dottedName pairs)).at? path ≠ none → e.at? path ≠ none) ∧
    ((∀ pair ∈ pairs, Dotless pair.1) →
      (∀ node, (e.renameReferences (dottedName pairs)).HasNode node → ¬ node.IsReference pairs) ∧
      (e.renameReferences (dottedName pairs)).renameReferences (dottedName pairs) =
        e.renameReferences (dottedName pairs)) := by
  refine ⟨fun scope resolves => eval_renameReferences_dottedName resolves e, ?_, ?_, ?_⟩
  · intro path old ends above
    have stays : e.StaysAbove (dottedName pairs) path := fun n low sub there =>
      stays_dottedName_iff.2 (above n low sub there)
    refine ⟨_, at?_renameReferences.2 ⟨old, ends, stays, rfl⟩, ?_, fun own => ?_⟩
    · rintro base attr inside rfl
      exact renameReferences_dottedName inside
    · exact node_renameReferences (stays_dottedName_iff.2 own)
  · intro path ends
    obtain ⟨new, ends⟩ := Option.ne_none_iff_exists'.1 ends
    obtain ⟨old, before, -⟩ := at?_renameReferences.1 ends
    rw [before]
    exact Option.some_ne_none old
  · refine fun dotless => ⟨?_, renameReferences_twice dotless e⟩
    rintro node ⟨path, ends⟩
    obtain ⟨old, -, -, rfl⟩ := at?_renameReferences.1 ends
    exact not_isReference_renameReferences dotless old

end Dotted

/-! ### A chained reference -/

namespace Chained

/-- The formula `s.k.m * t.k`. -/
def product : Expr :=
  binary .mul (member (member (name "s") "k") "m") (member (name "t") "k")

/-- A scope with a record under `s` and `t`, and with the value of `s.k`. -/
def scope : Scope :=
  ⟨[("s.k", .record [("m", .number 2)]), ("s", .record [("k", .record [("m", .number 2)])]),
    ("t", .record [("k", .number 3)])]⟩

theorem resolves : scope.Resolves [("s", "k")] := by
  intro base attr member
  cases List.mem_singleton.1 member
  exact ⟨[("k", .record [("m", .number 2)])], .record [("m", .number 2)], rfl, rfl, rfl⟩

end Chained

/-- With the pair of `s` and `k` alone, `s.k` becomes a name below the attribute `m`, the attribute
stays, `t.k` is left, and the product keeps its value. -/
theorem replacement_preserves_chained :
    ((Chained.product.renameReferences (dottedName [("s", "k")])).eval Chained.scope =
        Chained.product.eval Chained.scope) ∧
      (∃ new, (Chained.product.renameReferences (dottedName [("s", "k")])).at? [0, 0] = some new ∧
        new = name "s.k") ∧
      (∃ new, (Chained.product.renameReferences (dottedName [("s", "k")])).at? [1] = some new ∧
        new.node = member noData "k") ∧
      (∀ node, (Chained.product.renameReferences (dottedName [("s", "k")])).HasNode node →
        ¬ node.IsReference [("s", "k")]) := by
  obtain ⟨same, stands, -, settled⟩ := replacement_preserves Chained.product [("s", "k")]
  have other {base : Expr} {attr : String} (bare : base ≠ name "s") :
      ¬ (member base attr).IsReference [("s", "k")] := by
    rintro ⟨_, _, inside, same⟩
    cases List.mem_singleton.1 inside
    cases same
    exact bare rfl
  have top : ¬ Chained.product.IsReference [("s", "k")] := by
    rintro ⟨_, _, -, same⟩
    cases same
  refine ⟨same _ Chained.resolves, ?_, ?_, (settled ?_).1⟩
  · have above : ∀ n < 2, ∀ e, Chained.product.at? ([0, 0].take n) = some e →
        ¬ e.IsReference [("s", "k")] := by
      rintro (_ | _ | n) low e there
      · cases there
        exact top
      · cases there
        exact other nofun
      · omega
    obtain ⟨new, ends, becomes, -⟩ := stands [0, 0] (member (name "s") "k") rfl above
    exact ⟨new, ends, becomes "s" "k" (List.mem_singleton.2 rfl) rfl⟩
  · have above : ∀ n < 1, ∀ e, Chained.product.at? ([1].take n) = some e →
        ¬ e.IsReference [("s", "k")] := by
      rintro (_ | n) low e there
      · cases there
        exact top
      · omega
    obtain ⟨new, ends, -, stays⟩ := stands [1] (member (name "t") "k") rfl above
    exact ⟨new, ends, stays (other (by simp))⟩
  · intro pair inside
    cases List.mem_singleton.1 inside
    change '.' ∉ "s".toList
    decide

end Expr

end KpiReport
