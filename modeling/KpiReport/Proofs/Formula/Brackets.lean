import KpiReport.Proofs.Formula.Acceptance

/-!
# Brackets of formulas

The tokens of an expression close every bracket that they open, and no other (`Token.Balanced`),
and no dot stands at their ends (`Token.Detached`). So where an expression is made of others, a
bracketed group that starts in one of these ends there as well.
-/

namespace KpiReport

namespace Token

/-- How many more brackets are open after the token than before it. -/
def opens : Token → Int
  | punct .openParen | punct .openBracket => 1
  | punct .closeParen | punct .closeBracket => -1
  | _ => 0

/-- An operand may follow the token: it is an operator, an opening bracket or a comma. -/
def precedesOperand : Token → Bool
  | punct .closeParen | punct .closeBracket | punct .dot => false
  | punct _ => true
  | name word => ["and", "or", "not", "if", "else"].contains word
  | _ => false

/-- The token is an operator or a comma. -/
structure Separates (t : Token) : Prop where
  operand : t.precedesOperand = true
  flat : opens t = 0

theorem ne_dot_of_precedesOperand {t : Token} (h : t.precedesOperand = true) : t ≠ punct .dot := by
  rintro rfl
  cases h

theorem precedesOperand_of_opens {t : Token} (opening : opens t = 1) :
    t.precedesOperand = true := by
  unfold opens at opening
  split at opening
  · rfl
  · rfl
  all_goals cases opening

/-- How many more brackets are open after the tokens than before them. -/
def opened : List Token → Int
  | [] => 0
  | t :: ts => opens t + opened ts

@[simp] theorem opened_nil : opened [] = 0 := rfl

@[simp] theorem opened_cons (t : Token) (ts : List Token) :
    opened (t :: ts) = opens t + opened ts := rfl

@[simp] theorem opened_append (ts us : List Token) :
    opened (ts ++ us) = opened ts + opened us := by
  induction ts with
  | nil => rw [List.nil_append, opened_nil, Int.zero_add]
  | cons t ts ih => rw [List.cons_append, opened_cons, opened_cons, ih, Int.add_assoc]

/-- The tokens close the brackets that they open, and no other. -/
structure Balanced (ts : List Token) : Prop where
  /-- No bracket is closed that is not open. -/
  sane : ∀ us vs, ts = us ++ vs → 0 ≤ opened us
  /-- No bracket is left open. -/
  settled : opened ts = 0

/-- A single token, or a group in brackets: at no place inside are all brackets closed. -/
structure Whole (ts : List Token) : Prop where
  nonempty : ts ≠ []
  inside : ∀ us vs, ts = us ++ vs → us ≠ [] → vs ≠ [] → 0 < opened us
  settled : opened ts = 0

theorem balanced_nil : Balanced [] where
  sane us vs same := by
    rw [(List.append_eq_nil_iff.1 same.symm).1]
    exact Int.le_refl 0
  settled := rfl

theorem whole_single {t : Token} (flat : opens t = 0) : Whole [t] where
  nonempty := List.cons_ne_nil _ _
  inside us vs same start rest := by
    rcases List.append_eq_singleton_iff.1 same.symm with ⟨rfl, -⟩ | ⟨-, rfl⟩
    · exact absurd rfl start
    · exact absurd rfl rest
  settled := by rw [opened_cons, flat, opened_nil, Int.add_zero]

theorem Whole.balanced {ts : List Token} (h : Whole ts) : Balanced ts where
  sane us vs same := by
    by_cases start : us = []
    · rw [start]
      exact Int.le_refl 0
    by_cases rest : vs = []
    · rw [rest, List.append_nil] at same
      rw [← same]
      exact Int.le_of_eq h.settled.symm
    · exact Int.le_of_lt (h.inside us vs same start rest)
  settled := h.settled

theorem Balanced.append {ts us : List Token} (ht : Balanced ts) (hu : Balanced us) :
    Balanced (ts ++ us) where
  sane xs ys same := by
    rcases List.append_eq_append_iff.1 same with ⟨zs, rfl, split⟩ | ⟨zs, split, -⟩
    · rw [opened_append, ht.settled, Int.zero_add]
      exact hu.sane zs ys split
    · exact ht.sane xs zs split
  settled := by rw [opened_append, ht.settled, hu.settled, Int.add_zero]

/-- What stands in brackets is a group. -/
theorem Balanced.whole {ts : List Token} (h : Balanced ts) {t u : Token} (opening : opens t = 1)
    (closing : opens u = -1) : Whole (t :: (ts ++ [u])) where
  nonempty := List.cons_ne_nil _ _
  inside us vs same start rest := by
    obtain ⟨us, rfl⟩ : ∃ tail, us = t :: tail := by
      cases us with
      | nil => exact absurd rfl start
      | cons s us => exact ⟨us, by rw [(List.cons.inj same).1]⟩
    obtain ⟨vs, v, rfl⟩ := (List.eq_nil_or_concat' vs).resolve_left rest
    have inner : ts = us ++ vs := by
      rw [List.cons_append, ← List.append_assoc] at same
      exact (List.append_inj' (List.cons.inj same).2 rfl).1
    have sane := h.sane us vs inner
    rw [opened_cons, opening]
    omega
  settled := by
    rw [opened_cons, opened_append, opened_cons, opened_nil, opening, closing, h.settled]
    rfl

/-- An open bracket with balanced tokens behind it is left open. -/
theorem Balanced.not_balanced_opening {ts us : List Token} (h : Balanced ts) {t : Token}
    (opening : opens t = 1) : ¬ Balanced (us ++ t :: ts) := by
  intro whole
  have sane := whole.sane us _ rfl
  have settled := whole.settled
  rw [opened_append, opened_cons, h.settled, opening] at settled
  omega

/-- A bracket that the last token closes is found in only one way. -/
theorem Balanced.brackets_unique {xs ts ys us : List Token} {t u v w : Token} (ht : Balanced ts)
    (hu : Balanced us) (opening : opens t = 1) (opening' : opens u = 1)
    (same : xs ++ t :: (ts ++ [v]) = ys ++ u :: (us ++ [w])) : xs = ys ∧ ts = us := by
  rw [← List.cons_append, ← List.cons_append, ← List.append_assoc, ← List.append_assoc] at same
  obtain ⟨split, -⟩ := List.append_inj' same rfl
  rcases List.append_eq_append_iff.1 split with ⟨mid, rfl, rest⟩ | ⟨mid, rfl, rest⟩
  · cases mid with
    | nil => exact ⟨(List.append_nil xs).symm, (List.cons.inj rest).2⟩
    | cons s mid =>
      obtain ⟨-, rfl⟩ := List.cons.inj rest
      exact absurd ht (hu.not_balanced_opening opening')
  · cases mid with
    | nil => exact ⟨List.append_nil ys, (List.cons.inj rest).2.symm⟩
    | cons s mid =>
      obtain ⟨-, rfl⟩ := List.cons.inj rest
      exact absurd hu (ht.not_balanced_opening opening)

/-- The brackets are balanced, and the tokens neither start nor end with a dot. -/
structure Detached (ts : List Token) : Prop where
  balanced : Balanced ts
  head : punct .dot ∉ ts.head?
  last : punct .dot ∉ ts.getLast?

theorem detached_nil : Detached [] :=
  ⟨balanced_nil, nofun, nofun⟩

theorem detached_single {t : Token} (flat : opens t = 0) (other : t ≠ punct .dot) :
    Detached [t] where
  balanced := (whole_single flat).balanced
  head member := other (Option.some.inj member)
  last member := other (Option.some.inj member)

theorem Detached.append {ts us : List Token} (ht : Detached ts) (hu : Detached us) :
    Detached (ts ++ us) where
  balanced := ht.balanced.append hu.balanced
  head := by
    rw [List.head?_append]
    cases ts with
    | nil => exact hu.head
    | cons t ts => exact ht.head
  last := by
    rw [List.getLast?_append]
    rcases List.eq_nil_or_concat' us with rfl | ⟨us, u, rfl⟩
    · exact ht.last
    · have last := hu.last
      rwa [List.getLast?_concat] at last ⊢

theorem Detached.cons {t : Token} {ts : List Token} (h : Detached ts) (separates : Separates t) :
    Detached (t :: ts) :=
  (detached_single separates.flat (ne_dot_of_precedesOperand separates.operand)).append h

theorem Detached.join {ts us : List Token} (ht : Detached ts) {t : Token}
    (separates : Separates t) (hu : Detached us) : Detached (ts ++ t :: us) :=
  ht.append (hu.cons separates)

theorem Detached.brackets {ts : List Token} (h : Detached ts) {t u : Token} (opening : opens t = 1)
    (closing : opens u = -1) : Detached (t :: (ts ++ [u])) where
  balanced := (h.balanced.whole opening closing).balanced
  head member := by
    rw [Option.some.inj member] at opening
    cases opening
  last member := by
    rw [← List.cons_append, List.getLast?_concat] at member
    rw [Option.some.inj member] at closing
    cases closing

theorem Detached.member {ts : List Token} (h : Detached ts) (nonempty : ts ≠ []) (attr : String) :
    Detached (ts ++ [punct .dot, name attr]) where
  balanced := h.balanced.append
    ((whole_single (t := punct .dot) rfl).balanced.append (whole_single rfl).balanced)
  head := by
    rw [List.head?_append_of_ne_nil _ nonempty]
    exact h.head
  last member := by
    rw [List.append_cons, List.getLast?_concat] at member
    cases member

end Token

namespace Expr

open Token

theorem Compares.separates {p : Punct} {op : CompareOp} (mark : Compares p op) :
    Separates (.punct p) := by
  cases mark <;> exact ⟨rfl, rfl⟩

theorem Adds.separates {p : Punct} {op : BinaryOp} (mark : Adds p op) :
    Separates (.punct p) := by
  cases mark <;> exact ⟨rfl, rfl⟩

theorem Multiplies.separates {p : Punct} {op : BinaryOp} (mark : Multiplies p op) :
    Separates (.punct p) := by
  cases mark <;> exact ⟨rfl, rfl⟩

mutual

theorem Derives.detached {level : Level} {ts : List Token} {e : Expr} :
    Derives level ts e → Detached ts
  | .tighten h => h.detached
  | .conditional hb hc ho =>
    hb.detached.join ⟨rfl, rfl⟩ (hc.detached.join ⟨rfl, rfl⟩ ho.detached)
  | .or hl hr => hl.detached.join ⟨rfl, rfl⟩ hr.detached
  | .and hl hr => hl.detached.join ⟨rfl, rfl⟩ hr.detached
  | .not h => h.detached.cons ⟨rfl, rfl⟩
  | .compare mark hl hr => hl.detached.join mark.separates hr.detached
  | .add mark hl hr => hl.detached.join mark.separates hr.detached
  | .multiply mark hl hr => hl.detached.join mark.separates hr.detached
  | .minus h => h.detached.cons ⟨rfl, rfl⟩
  | .plus h => h.detached.cons ⟨rfl, rfl⟩
  | .power hb he => hb.detached.join ⟨rfl, rfl⟩ he.detached
  | .member attr h =>
    h.detached.member (by obtain ⟨t, us, rfl, -⟩ := h.begins; exact List.cons_ne_nil t us) attr
  | .call h hs => h.detached.append (hs.detached.brackets rfl rfl)
  | .number _ => detached_single rfl nofun
  | .text _ => detached_single rfl nofun
  | .none => detached_single rfl nofun
  | .true => detached_single rfl nofun
  | .false => detached_single rfl nofun
  | .name _ => detached_single rfl nofun
  | .parens h => h.detached.brackets rfl rfl
  | .list hs => hs.detached.brackets rfl rfl

theorem DerivesAll.detached {ts : List Token} {es : List Expr} : DerivesAll ts es → Detached ts
  | .nil => detached_nil
  | .last h => h.detached
  | .cons h hs => h.detached.join ⟨rfl, rfl⟩ hs.detached

end

end Expr

end KpiReport
