import KpiReport.Proofs.Formula.Acceptance
import KpiReport.Proofs.Formula.Written

/-!
# Renaming the names of a formula

Other names for the words of a formula, keywords apart, change nothing in how it is read: the tree
is the same up to the names (`Expr.ofTokens_rename`), and so are its references to other reports
(`Token.references_rename`, `Expr.renameReferences_rename`).
-/

namespace KpiReport

/-- The token with another name. -/
def Token.rename (f : String → String) : Token → Token
  | name s => name (f s)
  | t => t

namespace Expr

mutual

/-- The expression with other names, those of attributes and functions included. -/
def rename (f : String → String) : Expr → Expr
  | number x => number x
  | text s => text s
  | bool b => bool b
  | noData => noData
  | name s => name (f s)
  | member base attr => member (rename f base) (f attr)
  | call function args => call (f function) (renameEach f args)
  | list items => list (renameEach f items)
  | negate operand => negate (rename f operand)
  | not operand => not (rename f operand)
  | binary op left right => binary op (rename f left) (rename f right)
  | compare op left right => compare op (rename f left) (rename f right)
  | and left right => and (rename f left) (rename f right)
  | or left right => or (rename f left) (rename f right)
  | conditional condition body otherwise =>
    conditional (rename f condition) (rename f body) (rename f otherwise)

/-- The expressions with other names. -/
def renameEach (f : String → String) : List Expr → List Expr
  | [] => []
  | e :: es => rename f e :: renameEach f es

end

mutual

/-- The expression reads its names under the other names. -/
theorem names_rename (f : String → String) : ∀ e : Expr, (e.rename f).names = e.names.map f
  | number _ | text _ | bool _ | noData | name _ => rfl
  | member base _ | negate base | not base => names_rename f base
  | call _ args | list args => namesAll_renameEach f args
  | binary _ left right | compare _ left right | and left right | or left right => by
    simp only [rename, names, List.map_append, names_rename f left, names_rename f right]
  | conditional condition body otherwise => by
    simp only [rename, names, List.map_append, names_rename f condition, names_rename f body,
      names_rename f otherwise]

theorem namesAll_renameEach (f : String → String) :
    ∀ es : List Expr, namesAll (renameEach f es) = (namesAll es).map f
  | [] => rfl
  | e :: es => by
    simp only [renameEach, namesAll, List.map_append, names_rename f e, namesAll_renameEach f es]

end

/-! ## Grammar -/

/-- The keywords keep their names, and nothing else becomes one. -/
structure KeepsKeywords (f : String → String) : Prop where
  keyword : ∀ word ∈ keywords, f word = word
  other : ∀ word, word ∉ keywords → f word ∉ keywords

section Grammar

variable {f : String → String}

theorem map_append_cons (ts us : List Token) (t : Token) :
    (ts ++ t :: us).map (Token.rename f) =
      ts.map (Token.rename f) ++ t.rename f :: us.map (Token.rename f) := by
  rw [List.map_append, List.map_cons]

theorem KeepsKeywords.rename_word (keeps : KeepsKeywords f) {word : String} (h : word ∈ keywords) :
    (Token.name word).rename f = .name word :=
  congrArg Token.name (keeps.keyword word h)

mutual

/-- What is derived is derived under other names. -/
theorem Derives.rename (keeps : KeepsKeywords f) {level : Level} {ts : List Token} {e : Expr} :
    Derives level ts e → Derives level (ts.map (Token.rename f)) (e.rename f)
  | .tighten h => .tighten (h.rename keeps)
  | .conditional hb hc ho => by
    rw [map_append_cons, map_append_cons, keeps.rename_word (by decide),
      keeps.rename_word (by decide)]
    exact .conditional (hb.rename keeps) (hc.rename keeps) (ho.rename keeps)
  | .or hl hr => by
    rw [map_append_cons, keeps.rename_word (by decide)]
    exact .or (hl.rename keeps) (hr.rename keeps)
  | .and hl hr => by
    rw [map_append_cons, keeps.rename_word (by decide)]
    exact .and (hl.rename keeps) (hr.rename keeps)
  | .not h => by
    rw [List.map_cons, keeps.rename_word (by decide)]
    exact .not (h.rename keeps)
  | .compare mark hl hr => by
    rw [map_append_cons]
    exact .compare mark (hl.rename keeps) (hr.rename keeps)
  | .add mark hl hr => by
    rw [map_append_cons]
    exact .add mark (hl.rename keeps) (hr.rename keeps)
  | .multiply mark hl hr => by
    rw [map_append_cons]
    exact .multiply mark (hl.rename keeps) (hr.rename keeps)
  | .minus h => .minus (h.rename keeps)
  | .plus h => .plus (h.rename keeps)
  | .power hb he => by
    rw [map_append_cons]
    exact .power (hb.rename keeps) (he.rename keeps)
  | .member attr h => by
    rw [map_append_cons]
    exact .member (f attr) (h.rename keeps)
  | .call h hs => by
    rw [map_append_cons, List.map_append]
    exact .call (h.rename keeps) (hs.rename keeps)
  | .number x => .number x
  | .text s => .text s
  | .none => by
    rw [List.map_singleton, keeps.rename_word (by decide)]
    exact .none
  | .true => by
    rw [List.map_singleton, keeps.rename_word (by decide)]
    exact .true
  | .false => by
    rw [List.map_singleton, keeps.rename_word (by decide)]
    exact .false
  | .name free => .name (keeps.other _ free)
  | .parens h => by
    rw [List.map_cons, List.map_append]
    exact .parens (h.rename keeps)
  | .list hs => by
    rw [List.map_cons, List.map_append]
    exact .list (hs.rename keeps)

theorem DerivesAll.rename (keeps : KeepsKeywords f) {ts : List Token} {es : List Expr} :
    DerivesAll ts es → DerivesAll (ts.map (Token.rename f)) (renameEach f es)
  | .nil => .nil
  | .last h => .last (h.rename keeps)
  | .cons h hs => by
    rw [map_append_cons]
    exact .cons (h.rename keeps) (hs.rename keeps)

end

theorem ofTokens_rename (keeps : KeepsKeywords f) {ts : List Token} {e : Expr}
    (h : ofTokens ts = .ok e) : ofTokens (ts.map (Token.rename f)) = .ok (e.rename f) :=
  ((derives_of_ofTokens h).rename keeps).ofTokens

end Grammar

/-! ## References -/

section References

variable {f : String → String} {r : String → String → Option String}

theorem rename_member_of_name (same : ∀ base attr, r (f base) (f attr) = (r base attr).map f)
    (base attr : String) : ((member (name base) attr).rename f).renameReferences r =
      ((member (name base) attr).renameReferences r).rename f := by
  simp only [rename, renameReferences, same]
  cases r base attr <;> rfl

theorem renameReferences_member {base : Expr} (other : ∀ s, base ≠ name s) (attr : String) :
    (member base attr).renameReferences r = member (base.renameReferences r) attr := by
  cases base with
  | name s => exact absurd rfl (other s)
  | _ => rfl

theorem rename_ne_name {e : Expr} (other : ∀ s, e ≠ name s) (s : String) : e.rename f ≠ name s := by
  cases e with
  | name s' => exact absurd rfl (other s')
  | _ => exact nofun

mutual

/-- References that are replaced alike under other names are replaced by the same tree. -/
theorem renameReferences_rename (same : ∀ base attr, r (f base) (f attr) = (r base attr).map f) :
    ∀ e : Expr, (e.rename f).renameReferences r = (e.renameReferences r).rename f
  | number x => rfl
  | text s => rfl
  | bool b => rfl
  | noData => rfl
  | name s => rfl
  | member base attr => by
    by_cases bare : ∃ s, base = name s
    · obtain ⟨s, rfl⟩ := bare
      exact rename_member_of_name same s attr
    · have other : ∀ s, base ≠ name s := fun s eq => bare ⟨s, eq⟩
      rw [renameReferences_member other, rename, rename,
        renameReferences_member (rename_ne_name other), renameReferences_rename same base]
  | call function args => by
    simp only [rename, renameReferences, renameAll_renameEach same args]
  | list items => by
    simp only [rename, renameReferences, renameAll_renameEach same items]
  | negate operand => by
    simp only [rename, renameReferences, renameReferences_rename same operand]
  | not operand => by
    simp only [rename, renameReferences, renameReferences_rename same operand]
  | binary op left right => by
    simp only [rename, renameReferences, renameReferences_rename same left,
      renameReferences_rename same right]
  | compare op left right => by
    simp only [rename, renameReferences, renameReferences_rename same left,
      renameReferences_rename same right]
  | and left right => by
    simp only [rename, renameReferences, renameReferences_rename same left,
      renameReferences_rename same right]
  | or left right => by
    simp only [rename, renameReferences, renameReferences_rename same left,
      renameReferences_rename same right]
  | conditional condition body otherwise => by
    simp only [rename, renameReferences, renameReferences_rename same condition,
      renameReferences_rename same body, renameReferences_rename same otherwise]

theorem renameAll_renameEach (same : ∀ base attr, r (f base) (f attr) = (r base attr).map f) :
    ∀ es : List Expr, renameAll r (renameEach f es) = renameEach f (renameAll r es)
  | [] => rfl
  | e :: es => by
    simp only [renameEach, renameAll, renameReferences_rename same e, renameAll_renameEach same es]

end

end References

end Expr

namespace Token

variable {f : String → String}

theorem rename_eq_punct_iff {t : Token} {p : Punct} : t.rename f = .punct p ↔ t = .punct p := by
  cases t <;> simp [rename]

theorem rename_beq_punct (t : Token) (p : Punct) : (t.rename f == .punct p) = (t == .punct p) := by
  rw [Bool.eq_iff_iff, beq_iff_eq, beq_iff_eq, rename_eq_punct_iff]

theorem references_of_not_reference {t : Token} {ts : List Token}
    (other : ∀ base attr tail, t = name base → ts = punct .dot :: name attr :: tail → False)
    (afterDot : Bool) : references afterDot (t :: ts) = references (t == .punct .dot) ts := by
  rw [references.eq_def]
  dsimp only
  split
  · rename_i base attr rest
    exact (other base attr rest rfl rfl).elim
  · rfl

/-- The references are those of the formula, under the other names. -/
theorem references_rename (afterDot : Bool) (ts : List Token) :
    references afterDot (ts.map (rename f)) =
      (references afterDot ts).map fun reference => (f reference.1, f reference.2) := by
  fun_induction references afterDot ts with
  | case1 => rfl
  | case2 base attr rest more ih =>
    rw [← ih, ← rename_beq_punct (f := f)]
    simp only [List.map_cons, rename]
    rw [references, if_pos rfl]
  | case3 afterDot base attr rest first more ih =>
    change _ = (f base, f attr) :: List.map _ (references (name base == punct .dot) _)
    rw [← ih, ← rename_beq_punct (f := f)]
    simp only [List.map_cons, rename]
    rw [references, if_neg first]
  | case4 afterDot t ts more other ih =>
    rw [← ih, ← rename_beq_punct (f := f), List.map_cons]
    refine references_of_not_reference ?_ afterDot
    rintro base attr tail head rest
    cases t with
    | name s =>
      obtain ⟨u, us, rfl, dot, more⟩ := List.map_eq_cons_iff.1 rest
      obtain ⟨v, vs, rfl, word, -⟩ := List.map_eq_cons_iff.1 more
      cases v with
      | name attr' => exact other s attr' vs rfl (by rw [rename_eq_punct_iff.1 dot])
      | _ => cases word
    | _ => cases head

end Token

end KpiReport
