import KpiReport.Proofs.Account.CrossReferences
import KpiReport.Proofs.Formula.Brackets
import KpiReport.Proofs.Formula.Nodes

/-!
# References among the tokens and in the tree

References `base.attr` are found among the tokens of a formula, and replaced in its tree. A
reference of the tree is an access to an attribute of a name, however the name was written: the
stretch of tokens before the dot may be the bare word or the word in parentheses
(`Token.Denotes`). So the tree of a formula holds the references that are found among its tokens,
but for those to the attributes of a constant, and those whose base stands in parentheses besides
(`Expr.refersTo_iff_of_parse`).
-/

namespace KpiReport

/-- The words that are values and not names. -/
def Expr.constants : List String :=
  ["None", "True", "False"]

namespace Token

/-! ## Names and what they are written as -/

/-- The tokens are the name, or the name in parentheses; inside of these, plus signs may stand
before it. -/
inductive Spells (base : String) : List Token → Prop where
  | word (free : base ∉ keywords) : Spells base [name base]
  | signed {ts} (h : Spells base ts) : Spells base (punct .plus :: ts)
  | group {ts} (h : Spells base ts) : Spells base (punct .openParen :: (ts ++ [punct .closeParen]))

/-- An operand may follow the tokens. -/
def AwaitsOperand (ts : List Token) : Prop :=
  ∀ t ∈ ts.getLast?, t.precedesOperand = true

/-- After the tokens `us`, the tokens `ws` stand for the name, so that a dot behind them takes an
attribute of it: they are the word, or the word in parentheses which are not those of a call. -/
inductive Denotes (base : String) (us : List Token) : List Token → Prop where
  | word (free : base ∉ Expr.constants) (start : punct .dot ∉ us.getLast?) :
    Denotes base us [name base]
  | group {ts} (h : Spells base ts) (start : AwaitsOperand us) :
    Denotes base us (punct .openParen :: (ts ++ [punct .closeParen]))

/-- Somewhere among the tokens an attribute of the name is taken. -/
def Accesses (ts : List Token) (base attr : String) : Prop :=
  ∃ us ws vs, ts = us ++ (ws ++ punct .dot :: name attr :: vs) ∧ Denotes base us ws

/-- Somewhere among the tokens an attribute of the name is taken, which stands in parentheses
there. -/
def AccessesGroup (ts : List Token) (base attr : String) : Prop :=
  ∃ us ws vs, ts = us ++ (punct .openParen :: (ws ++ [punct .closeParen]) ++
    punct .dot :: name attr :: vs) ∧ Spells base ws ∧ AwaitsOperand us

end Token

namespace Expr

open Token

/-- The expression takes an attribute of a name somewhere. -/
def RefersTo (e : Expr) (base attr : String) : Prop :=
  e.HasNode (.member (.name base) attr)

theorem refersTo_iff {e : Expr} {base attr : String} : e.RefersTo base attr ↔
    .member (.name base) attr = e ∨ ∃ part ∈ e.parts, part.RefersTo base attr :=
  hasNode_iff

/-! ## Tokens that are derived as a name -/

theorem not_mem_constants {word : String} (free : word ∉ keywords) : word ∉ constants :=
  fun member => free (List.mem_of_mem_drop (i := 5) member)

theorem derives_sign_of_primary {ts : List Token} {e : Expr} (h : Derives .primary ts e) :
    Derives .sign ts e :=
  .tighten (.tighten (.tighten h))

theorem derives_conditional_of_sign {ts : List Token} {e : Expr} (h : Derives .sign ts e) :
    Derives .conditional ts e :=
  .tighten (.tighten (.tighten (.tighten (.tighten (.tighten (.tighten h))))))

theorem derives_of_spells {base : String} {ts : List Token} (h : Spells base ts) :
    Derives .sign ts (.name base) := by
  induction h with
  | word free => exact derives_sign_of_primary (.name free)
  | signed _ ih => exact .plus ih
  | group _ ih => exact derives_sign_of_primary (.parens (derives_conditional_of_sign ih))

theorem Derives.spells {level : Level} {ts : List Token} {e : Expr} {base : String} :
    Derives level ts e → e = .name base → Spells base ts
  | .tighten h, same => h.spells same
  | .plus h, same => .signed (h.spells same)
  | .name free, rfl => .word free
  | .parens h, same => .group (h.spells same)

/-- At the levels above the signs, a name is the word or stands in parentheses. -/
theorem Derives.denotes {ts : List Token} {base : String} (h : Derives .access ts (.name base)) :
    Denotes base [] ts := by
  have spelled := h.spells rfl
  obtain ⟨t, us, rfl, starts⟩ := h.begins
  cases spelled with
  | word free => exact .word (not_mem_constants free) nofun
  | group inner => exact .group inner nofun
  | signed _ =>
    rcases starts with same | same | ⟨-, low⟩
    · cases same
    · cases same
    · exact absurd low (by decide)

end Expr

/-! ## Accesses in composed tokens -/

namespace Token

variable {base attr : String} {ts us vs ws : List Token} {t u : Token}

theorem Spells.not_mem_keywords (h : Spells base ts) : base ∉ keywords := by
  induction h with
  | word free => exact free
  | signed _ ih => exact ih
  | group _ ih => exact ih

theorem Spells.balanced (h : Spells base ts) : Balanced ts :=
  (Expr.derives_of_spells h).detached.balanced

theorem Denotes.whole (h : Denotes base us ws) : Whole ws := by
  cases h with
  | word _ _ => exact whole_single rfl
  | group inner _ => exact inner.balanced.whole rfl rfl

/-- What stands before a token that an operand may follow does not matter to the operand. -/
theorem denotes_append_cons (h : t.precedesOperand = true) :
    Denotes base (ts ++ t :: us) ws ↔ Denotes base us ws := by
  have same : (ts ++ t :: us).getLast? = some (us.getLast?.getD t) := by
    rw [List.getLast?_append, List.getLast?_cons, Option.some_or]
  have dot : punct .dot ∉ (ts ++ t :: us).getLast? ↔ punct .dot ∉ us.getLast? := by
    rw [same]
    cases us.getLast? with
    | none => simpa using ne_dot_of_precedesOperand h
    | some s => rfl
  have operand : AwaitsOperand (ts ++ t :: us) ↔ AwaitsOperand us := by
    unfold AwaitsOperand
    rw [same]
    cases us.getLast? with
    | none => simpa using h
    | some s => rfl
  constructor
  · rintro (⟨free, start⟩ | ⟨inner, start⟩)
    · exact .word free (dot.1 start)
    · exact .group inner (operand.1 start)
  · rintro (⟨free, start⟩ | ⟨inner, start⟩)
    · exact .word free (dot.2 start)
    · exact .group inner (operand.2 start)

/-- An access among tokens around a mark, the first of which are an expression or none, stands
before the mark, behind it, or starts with it. -/
theorem split_access {xs ys : List Token} (h : Detached xs) (whole : Whole ws)
    (other : t ≠ punct .dot)
    (same : xs ++ t :: ys = us ++ (ws ++ punct .dot :: name attr :: vs)) :
    (∃ vs', xs = us ++ (ws ++ punct .dot :: name attr :: vs')) ∨
      (∃ us', us = xs ++ t :: us' ∧ ys = us' ++ (ws ++ punct .dot :: name attr :: vs)) ∨
      us = xs ∧ t :: ys = ws ++ punct .dot :: name attr :: vs := by
  rcases List.append_eq_append_iff.1 same with ⟨mid, rfl, rest⟩ | ⟨mid, rfl, rest⟩
  · cases mid with
    | nil => exact .inr (.inr ⟨List.append_nil _, rest⟩)
    | cons s mid =>
      obtain ⟨rfl, behind⟩ := List.cons.inj rest
      exact .inr (.inl ⟨mid, rfl, behind⟩)
  · -- the access starts before the mark: its base cannot reach over the mark, since the tokens
    -- before the mark leave no bracket open
    rcases List.append_eq_append_iff.1 rest with ⟨more, rfl, mark⟩ | ⟨more, rfl, mark⟩
    · match more, mark with
      | [], mark => exact absurd (List.cons.inj mark).1.symm other
      | [_], mark =>
        obtain ⟨rfl, -⟩ := List.cons.inj mark
        have last := h.last
        rw [← List.append_assoc] at last
        exact absurd List.getLast?_concat last
      | _ :: _ :: more, mark =>
        obtain ⟨rfl, behind⟩ := List.cons.inj mark
        obtain ⟨rfl, -⟩ := List.cons.inj behind
        exact .inl ⟨more, rfl⟩
    · by_cases ends : more = []
      · subst ends
        exact absurd (List.cons.inj mark).1 other
      by_cases starts : mid = []
      · subst starts
        exact .inr (.inr ⟨(List.append_nil us).symm, mark⟩)
      have reached := whole.inside mid more rfl starts ends
      have sane := h.balanced.sane us mid rfl
      have settled := h.balanced.settled
      rw [opened_append] at settled
      omega

theorem Accesses.append (h : Accesses ts base attr) (us : List Token) :
    Accesses (ts ++ us) base attr := by
  obtain ⟨xs, ws, ys, rfl, denotes⟩ := h
  refine ⟨xs, ws, ys ++ us, ?_, denotes⟩
  simp only [List.append_assoc, List.cons_append]

theorem Accesses.after (h : Accesses us base attr) (operand : t.precedesOperand = true)
    (ts : List Token) : Accesses (ts ++ t :: us) base attr := by
  obtain ⟨xs, ws, ys, rfl, denotes⟩ := h
  refine ⟨ts ++ t :: xs, ws, ys, ?_, (denotes_append_cons operand).2 denotes⟩
  simp only [List.append_assoc, List.cons_append]

theorem not_accesses_of_length (short : ts.length ≤ 2) : ¬ Accesses ts base attr := by
  rintro ⟨us, ws, vs, rfl, denotes⟩
  have nonempty := List.length_pos_of_ne_nil denotes.whole.nonempty
  simp only [List.length_append, List.length_cons] at short
  omega

theorem not_accesses_nil : ¬ Accesses [] base attr :=
  not_accesses_of_length (Nat.zero_le 2)

/-- An operator adds no access to those of its operands. -/
theorem accesses_join (ht : Detached ts) (hu : Detached us) (separates : Separates t) :
    Accesses (ts ++ t :: us) base attr ↔ Accesses ts base attr ∨ Accesses us base attr := by
  constructor
  · rintro ⟨xs, ws, ys, same, denotes⟩
    rcases split_access ht denotes.whole (ne_dot_of_precedesOperand separates.operand) same with
      ⟨ys', left⟩ | ⟨xs', rfl, right⟩ | ⟨-, rest⟩
    · exact .inl ⟨xs, ws, ys', left, denotes⟩
    · exact .inr ⟨xs', ws, ys, right, (denotes_append_cons separates.operand).1 denotes⟩
    · obtain ⟨s, ws, rfl⟩ := List.exists_cons_of_ne_nil denotes.whole.nonempty
      obtain ⟨rfl, rest⟩ := List.cons.inj rest
      by_cases single : ws = []
      · subst single
        obtain ⟨-, rfl⟩ := List.cons.inj rest
        exact absurd rfl hu.head
      · have inside := denotes.whole.inside [t] ws rfl (List.cons_ne_nil _ _) single
        rw [opened_cons, separates.flat] at inside
        exact absurd inside (Int.lt_irrefl 0)
  · rintro (h | h)
    · exact h.append _
    · exact h.after separates.operand _

theorem accesses_cons (hu : Detached us) (separates : Separates t) :
    Accesses (t :: us) base attr ↔ Accesses us base attr := by
  have join : Accesses ([] ++ t :: us) base attr ↔ Accesses [] base attr ∨ Accesses us base attr :=
    accesses_join detached_nil hu separates
  rwa [List.nil_append, or_iff_right not_accesses_nil] at join

/-- An access among tokens with a closing bracket behind them is one among the tokens. -/
theorem access_before_closing (closing : opens u = -1)
    (same : ts ++ [u] = us ++ (ws ++ punct .dot :: name attr :: vs)) :
    ∃ vs', ts = us ++ (ws ++ punct .dot :: name attr :: vs') := by
  obtain rfl | ⟨vs, v, rfl⟩ := List.eq_nil_or_concat' vs
  · have last := congrArg List.getLast? same
    simp only [List.getLast?_append, List.getLast?_cons, List.getLast?_nil, Option.getD_none,
      Option.getD_some, Option.some_or, Option.some.injEq] at last
    rw [last] at closing
    cases closing
  · have reordered : ts ++ [u] = us ++ (ws ++ punct .dot :: name attr :: vs) ++ [v] := by
      rw [same]
      simp only [List.append_assoc, List.cons_append]
    exact ⟨vs, (List.append_inj' reordered rfl).1⟩

/-- Brackets, and what stands before them, add no access either. -/
theorem accesses_brackets (ht : Detached ts) (hu : Detached us) (opening : opens t = 1)
    (closing : opens u = -1) : Accesses (ts ++ t :: (us ++ [u])) base attr ↔
      Accesses ts base attr ∨ Accesses us base attr := by
  have operand := precedesOperand_of_opens opening
  constructor
  · rintro ⟨xs, ws, ys, same, denotes⟩
    rcases split_access ht denotes.whole (ne_dot_of_precedesOperand operand) same with
      ⟨ys', left⟩ | ⟨xs', rfl, right⟩ | ⟨-, rest⟩
    · exact .inl ⟨xs, ws, ys', left, denotes⟩
    · obtain ⟨ys', inner⟩ := access_before_closing closing right
      exact .inr ⟨xs', ws, ys', inner, (denotes_append_cons operand).1 denotes⟩
    · have inside := (hu.balanced.whole opening closing).inside ws _ rest denotes.whole.nonempty
        (List.cons_ne_nil _ _)
      rw [denotes.whole.settled] at inside
      exact absurd inside (Int.lt_irrefl 0)
  · rintro (h | h)
    · exact h.append _
    · exact (h.append _).after operand _

/-- An attribute adds an access if the tokens before it stand for the name. -/
theorem accesses_member (attr' : String) : Accesses (ts ++ [punct .dot, name attr']) base attr ↔
    Accesses ts base attr ∨ attr' = attr ∧ ∃ us ws, ts = us ++ ws ∧ Denotes base us ws := by
  constructor
  · rintro ⟨us, ws, vs, same, denotes⟩
    rw [← List.append_assoc] at same
    rcases List.append_eq_append_iff.1 same with ⟨mid, grown, rest⟩ | ⟨mid, rfl, rest⟩
    · have short := congrArg List.length rest
      simp only [List.length_append, List.length_cons, List.length_nil] at short
      obtain rfl : mid = [] := List.length_eq_zero_iff.1 (by omega)
      cases rest
      exact .inr ⟨rfl, us, ws, by rw [grown, List.append_nil], denotes⟩
    · match mid, rest with
      | [], rest =>
        cases rest
        exact .inr ⟨rfl, us, ws, List.append_nil _, denotes⟩
      | [_], rest => cases rest
      | _ :: _ :: mid, rest =>
        obtain ⟨rfl, behind⟩ := List.cons.inj rest
        obtain ⟨rfl, -⟩ := List.cons.inj behind
        exact .inl ⟨us, ws, mid, List.append_assoc _ _ _, denotes⟩
  · rintro (h | ⟨rfl, us, ws, rfl, denotes⟩)
    · exact h.append _
    · exact ⟨us, ws, [], by rw [List.append_assoc], denotes⟩

end Token

namespace Expr

open Token

/-! ## What stands before an attribute -/

/-- How an expression of the tightest levels is put together in the end. -/
inductive Tight (e : Expr) : List Token → Prop where
  | token {t} (word : ∀ s, t = Token.name s → s ∈ constants ∨ e = .name s)
    (flat : opens t = 0) : Tight e [t]
  | parens {ts} (h : Derives .conditional ts e) :
    Tight e (Token.punct .openParen :: (ts ++ [Token.punct .closeParen]))
  | list {ts} : Tight e (Token.punct .openBracket :: (ts ++ [Token.punct .closeBracket]))
  | member {ts} (attr : String) : Tight e (ts ++ [Token.punct .dot, Token.name attr])
  | call {ts us function} (h : Derives .access ts (.name function)) (hs : Balanced us) :
    Tight e (ts ++ Token.punct .openParen :: (us ++ [Token.punct .closeParen]))

theorem Derives.tight {level : Level} {ts : List Token} {e : Expr} :
    Derives level ts e → Level.access.rank ≤ level.rank → Tight e ts
  | .tighten h, high => h.tight (Nat.le_trans high (Level.rank_le_tighter _))
  | .conditional .., high | .or .., high | .and .., high | .not .., high | .compare .., high
  | .add .., high | .multiply .., high | .minus .., high | .plus .., high | .power .., high =>
    absurd high (by decide)
  | .member attr _, _ => .member attr
  | .call h hs, _ => .call h hs.detached.balanced
  | .number _, _ => .token nofun rfl
  | .text _, _ => .token nofun rfl
  | .none, _ => .token (fun s same => .inl (by cases same; decide)) rfl
  | .true, _ => .token (fun s same => .inl (by cases same; decide)) rfl
  | .false, _ => .token (fun s same => .inl (by cases same; decide)) rfl
  | .name _, _ => .token (fun s same => .inr (by cases same; rfl)) rfl
  | .parens h, _ => .parens h
  | .list _, _ => .list

variable {base attr : String} {ts us vs ws : List Token} {e : Expr}

/-- A word that ends an access without following a dot is the whole of it. -/
theorem Tight.eq_name_of_word (h : Tight e ts) (same : ts = us ++ [Token.name base])
    (start : Token.punct .dot ∉ us.getLast?) (free : base ∉ constants) : e = .name base := by
  have last : ts.getLast? = some (Token.name base) := by rw [same, List.getLast?_concat]
  cases h with
  | token word _ =>
    cases Option.some.inj last
    exact (word base rfl).resolve_left free
  | parens _ | list =>
    rw [← List.cons_append, List.getLast?_concat] at last
    cases last
  | call _ _ =>
    rw [← List.cons_append, ← List.append_assoc, List.getLast?_concat] at last
    cases last
  | member attr =>
    rw [List.append_cons] at same
    obtain ⟨rfl, -⟩ := List.append_inj' same rfl
    exact absurd List.getLast?_concat start

theorem mem_keywords_of_precedesOperand {word : String}
    (h : (Token.name word).precedesOperand = true) : word ∈ keywords := by
  simp only [precedesOperand, List.contains_iff_mem, List.mem_cons] at h
  simp only [keywords, List.mem_cons]
  tauto

/-- The tokens of a name do not await an operand. -/
theorem not_awaitsOperand (h : Derives .access ts (.name base)) : ¬ AwaitsOperand ts := by
  intro awaits
  cases h.denotes with
  | word _ _ =>
    cases h.spells rfl with
    | word free => exact free (mem_keywords_of_precedesOperand (awaits _ rfl))
  | group _ _ =>
    rw [← List.cons_append] at awaits
    cases awaits _ List.getLast?_concat

/-- Parentheses that end an access, and are not those of a call, are the whole of it. -/
theorem Tight.eq_name_of_group (h : Tight e ts)
    (same : ts = us ++ Token.punct .openParen :: (ws ++ [Token.punct .closeParen]))
    (inner : Spells base ws) (start : AwaitsOperand us) : e = .name base := by
  have last : ts.getLast? = some (Token.punct .closeParen) := by
    rw [same, ← List.cons_append, ← List.append_assoc, List.getLast?_concat]
  cases h with
  | token _ flat =>
    cases Option.some.inj last
    cases flat
  | list =>
    rw [← List.cons_append, List.getLast?_concat] at last
    cases last
  | member attr =>
    rw [List.append_cons, List.getLast?_concat] at last
    cases last
  | parens h =>
    obtain ⟨-, rfl⟩ : [] = us ∧ _ = ws :=
      h.detached.balanced.brackets_unique inner.balanced rfl rfl same
    exact (ofTokens_eq_ok_iff _).2.1 _ _ h (derives_conditional_of_sign (derives_of_spells inner))
  | call h hs =>
    obtain ⟨rfl, -⟩ := hs.brackets_unique inner.balanced rfl rfl same
    exact absurd start (not_awaitsOperand h)

/-- An expression before an attribute is the name exactly if its tokens stand for the name. -/
theorem denotes_iff (h : Derives .access ts e) :
    (∃ us ws, ts = us ++ ws ∧ Denotes base us ws) ↔ e = .name base := by
  constructor
  · rintro ⟨us, ws, same, denotes⟩
    have tight := h.tight (Nat.le_refl _)
    cases denotes with
    | word free start => exact tight.eq_name_of_word same start free
    | group inner start => exact tight.eq_name_of_group same inner start
  · rintro rfl
    exact ⟨[], ts, rfl, h.denotes⟩

/-! ## Accesses and the tree -/

theorem refersTo_iff_parts (other : ∀ base attr, .member (.name base) attr ≠ e) :
    e.RefersTo base attr ↔ ∃ part ∈ e.parts, part.RefersTo base attr := by
  rw [refersTo_iff, or_iff_right (other base attr)]

theorem refersTo_two {left right : Expr} (parts : e.parts = [left, right])
    (other : ∀ base attr, .member (.name base) attr ≠ e) :
    e.RefersTo base attr ↔ left.RefersTo base attr ∨ right.RefersTo base attr := by
  rw [refersTo_iff_parts other, parts]
  simp only [List.mem_cons, List.not_mem_nil, or_false, exists_eq_or_imp, exists_eq_left]

theorem refersTo_one {operand : Expr} (parts : e.parts = [operand])
    (other : ∀ base attr, .member (.name base) attr ≠ e) :
    e.RefersTo base attr ↔ operand.RefersTo base attr := by
  rw [refersTo_iff_parts other, parts]
  simp only [List.mem_cons, List.not_mem_nil, or_false, exists_eq_left]

theorem not_refersTo (parts : e.parts = []) (other : ∀ base attr, .member (.name base) attr ≠ e) :
    ¬ e.RefersTo base attr := by
  rw [refersTo_iff_parts other, parts]
  simp only [List.not_mem_nil, false_and, exists_false, not_false_eq_true]

theorem accesses_single {t : Token} (parts : e.parts = [])
    (other : ∀ base attr, .member (.name base) attr ≠ e) :
    Accesses [t] base attr ↔ e.RefersTo base attr :=
  iff_of_false (not_accesses_of_length (Nat.le_succ 1)) (not_refersTo parts other)

section Operators

variable {t : Token} {left right operand : Expr} (separates : Separates t)
  (other : ∀ base attr, .member (.name base) attr ≠ e)

include separates other

theorem accesses_operator (hl : Detached ts) (hr : Detached us) (parts : e.parts = [left, right])
    (ihl : Accesses ts base attr ↔ left.RefersTo base attr)
    (ihr : Accesses us base attr ↔ right.RefersTo base attr) :
    Accesses (ts ++ t :: us) base attr ↔ e.RefersTo base attr := by
  rw [refersTo_two parts other, accesses_join hl hr separates, ihl, ihr]

theorem accesses_sign (h : Detached us) (parts : e.parts = [operand])
    (ih : Accesses us base attr ↔ operand.RefersTo base attr) :
    Accesses (t :: us) base attr ↔ e.RefersTo base attr := by
  rw [refersTo_one parts other, accesses_cons h separates, ih]

end Operators

theorem accesses_group {t u : Token} (h : Detached ts) (opening : opens t = 1)
    (closing : opens u = -1) : Accesses (t :: (ts ++ [u])) base attr ↔ Accesses ts base attr := by
  have brackets : Accesses ([] ++ t :: (ts ++ [u])) base attr ↔
      Accesses [] base attr ∨ Accesses ts base attr :=
    accesses_brackets detached_nil h opening closing
  rwa [List.nil_append, or_iff_right not_accesses_nil] at brackets

mutual

/-- The accesses among the tokens of an expression are those of its tree. -/
theorem Derives.accesses_iff {level : Level} {ts : List Token}
    {e : Expr} : Derives level ts e → (Accesses ts base attr ↔ e.RefersTo base attr)
  | .tighten h => h.accesses_iff
  | .conditional hb hc ho => by
    rw [refersTo_iff_parts (e := .conditional _ _ _) nofun, accesses_join hb.detached
      (hc.detached.join (t := Token.name "else") ⟨rfl, rfl⟩ ho.detached) ⟨rfl, rfl⟩,
      accesses_join hc.detached ho.detached ⟨rfl, rfl⟩, hb.accesses_iff, hc.accesses_iff,
      ho.accesses_iff]
    simp only [parts, List.mem_cons, List.not_mem_nil, or_false, exists_eq_or_imp, exists_eq_left]
    exact or_left_comm
  | .or hl hr => accesses_operator ⟨rfl, rfl⟩ nofun hl.detached hr.detached rfl
      hl.accesses_iff hr.accesses_iff
  | .and hl hr => accesses_operator ⟨rfl, rfl⟩ nofun hl.detached hr.detached rfl
      hl.accesses_iff hr.accesses_iff
  | .not h => accesses_sign ⟨rfl, rfl⟩ nofun h.detached rfl h.accesses_iff
  | .compare mark hl hr => accesses_operator mark.separates nofun hl.detached
      hr.detached rfl hl.accesses_iff hr.accesses_iff
  | .add mark hl hr => accesses_operator mark.separates nofun hl.detached
      hr.detached rfl hl.accesses_iff hr.accesses_iff
  | .multiply mark hl hr => accesses_operator mark.separates nofun hl.detached
      hr.detached rfl hl.accesses_iff hr.accesses_iff
  | .minus h => accesses_sign ⟨rfl, rfl⟩ nofun h.detached rfl h.accesses_iff
  | .plus h => (accesses_cons h.detached ⟨rfl, rfl⟩).trans h.accesses_iff
  | .power hb he => accesses_operator ⟨rfl, rfl⟩ nofun hb.detached he.detached rfl
      hb.accesses_iff he.accesses_iff
  | .member attr' h => by
    rw [refersTo_iff, accesses_member, h.accesses_iff, denotes_iff h]
    simp only [Expr.parts, List.mem_cons, List.not_mem_nil, or_false, exists_eq_left,
      Expr.member.injEq]
    rw [or_comm, and_comm, eq_comm, eq_comm (a := attr')]
  | .call h hs => by
    rw [refersTo_iff_parts (e := .call _ _) nofun, accesses_brackets h.detached hs.detached rfl rfl,
      h.accesses_iff, hs.accesses_iff, or_iff_right (not_refersTo (e := .name _) rfl nofun)]
    rfl
  | .number _ => accesses_single rfl nofun
  | .text _ => accesses_single rfl nofun
  | .none => accesses_single rfl nofun
  | .true => accesses_single rfl nofun
  | .false => accesses_single rfl nofun
  | .name _ => accesses_single rfl nofun
  | .parens h => (accesses_group h.detached rfl rfl).trans h.accesses_iff
  | .list hs => by
    rw [refersTo_iff_parts (e := .list _) nofun, accesses_group hs.detached rfl rfl,
      hs.accesses_iff]
    rfl

theorem DerivesAll.accesses_iff {ts : List Token} {es : List Expr} :
    DerivesAll ts es → (Accesses ts base attr ↔ ∃ e ∈ es, e.RefersTo base attr)
  | .nil => iff_of_false not_accesses_nil (by rintro ⟨e, ⟨⟩, -⟩)
  | .last h => by
    rw [h.accesses_iff]
    simp only [List.mem_cons, List.not_mem_nil, or_false, exists_eq_left]
  | .cons h hs => by
    rw [accesses_join h.detached hs.detached ⟨rfl, rfl⟩, h.accesses_iff, hs.accesses_iff]
    simp only [List.mem_cons, exists_eq_or_imp]

end

end Expr

/-! ## References among the tokens -/

namespace Token

theorem dot_not_mem_getLast?_cons {t : Token} {us : List Token} :
    punct .dot ∉ (t :: us).getLast? ↔
      punct .dot ∉ us.getLast? ∧ (us = [] → (t == punct .dot) = false) := by
  obtain rfl | ⟨us, u, rfl⟩ := List.eq_nil_or_concat' us
  · simp
  · rw [← List.cons_append, List.getLast?_concat, List.getLast?_concat]
    simp

/-- The references are the words with a dot and an attribute behind them that follow no dot. -/
theorem mem_references_iff {base attr : String} (afterDot : Bool) (ts : List Token) :
    (base, attr) ∈ references afterDot ts ↔
      ∃ us vs, ts = us ++ name base :: punct .dot :: name attr :: vs ∧
        punct .dot ∉ us.getLast? ∧ (us = [] → afterDot = false) := by
  induction ts generalizing afterDot with
  | nil =>
    refine iff_of_false nofun ?_
    rintro ⟨us, vs, same, -⟩
    exact List.append_ne_nil_of_right_ne_nil us (List.cons_ne_nil _ _) same.symm
  | cons t ts ih =>
    rw [references_cons, List.mem_append, Option.mem_toList, ← Option.mem_def, mem_reference?, ih]
    constructor
    · rintro (⟨start, rfl, vs, rfl⟩ | ⟨us, vs, rfl, last⟩)
      · exact ⟨[], vs, rfl, nofun, fun _ => start⟩
      · exact ⟨t :: us, vs, rfl, dot_not_mem_getLast?_cons.2 last, nofun⟩
    · rintro ⟨_ | ⟨u, us⟩, vs, same, last, start⟩
      · obtain ⟨rfl, rfl⟩ := List.cons.inj same
        exact .inl ⟨start rfl, rfl, vs, rfl⟩
      · obtain ⟨rfl, rfl⟩ := List.cons.inj same
        exact .inr ⟨us, vs, rfl, dot_not_mem_getLast?_cons.1 last⟩

theorem accesses_iff_references {base attr : String} (ts : List Token) :
    Accesses ts base attr ↔
      (base, attr) ∈ references false ts ∧ base ∉ Expr.constants ∨ AccessesGroup ts base attr := by
  rw [mem_references_iff]
  constructor
  · rintro ⟨us, ws, vs, rfl, ⟨free, start⟩ | ⟨inner, start⟩⟩
    · exact .inl ⟨⟨us, vs, rfl, start, fun _ => rfl⟩, free⟩
    · exact .inr ⟨us, _, vs, rfl, inner, start⟩
  · rintro (⟨⟨us, vs, rfl, start, -⟩, free⟩ | ⟨us, ws, vs, rfl, inner, start⟩)
    · exact ⟨us, _, vs, rfl, .word free start⟩
    · exact ⟨us, _, vs, rfl, .group inner start⟩

end Token

namespace Expr

/-- **The references of a formula and those of its tree.** Whenever a formula parses, its references
can be found among its tokens. The tree takes an attribute of a name exactly if this is one of the
references found, and not one to a constant, or the name stands in parentheses before a dot and the
attribute. So both are the same exactly if no constant is found with a reference, and every
reference in parentheses is also written without them. -/
theorem refersTo_iff_of_parse {formula : String} {e : Expr} (h : parse formula = .ok e) :
    ∃ ts refs, Token.ofText formula = .ok ts ∧ dottedReferences formula = .ok refs ∧
      (∀ base attr, e.RefersTo base attr ↔
        (base, attr) ∈ refs ∧ base ∉ constants ∨ Token.AccessesGroup ts base attr) ∧
      ((∀ base attr, (base, attr) ∈ refs ↔ e.RefersTo base attr) ↔
        (∀ ref ∈ refs, ref.1 ∉ constants) ∧
          ∀ base attr, Token.AccessesGroup ts base attr → (base, attr) ∈ refs) := by
  obtain ⟨ts, read, parsed⟩ := bind_eq_ok.1 h
  have tree : ∀ base attr, e.RefersTo base attr ↔ (base, attr) ∈ Token.references false ts ∧
      base ∉ constants ∨ Token.AccessesGroup ts base attr := fun base attr => by
    rw [← (derives_of_ofTokens parsed).accesses_iff, Token.accesses_iff_references]
  refine ⟨ts, Token.references false ts, read, map_eq_ok.2 ⟨ts, read, rfl⟩, tree, ?_⟩
  constructor
  · intro same
    refine ⟨?_, fun base attr group => (same base attr).2 ((tree base attr).2 (.inr group))⟩
    rintro ⟨base, attr⟩ found
    rcases (tree base attr).1 ((same base attr).1 found) with ⟨-, free⟩ | ⟨_, _, _, -, inner, -⟩
    · exact free
    · exact not_mem_constants inner.not_mem_keywords
  · rintro ⟨free, written⟩ base attr
    rw [tree]
    constructor
    · exact fun found => .inl ⟨found, free _ found⟩
    · rintro (⟨found, -⟩ | group)
      · exact found
      · exact written base attr group

/-- A reference in parentheses is none of those found among the tokens, but is one of the tree. -/
theorem refersTo_difference :
    parse "s.k - (t).k" =
        .ok (.binary .sub (.member (.name "s") "k") (.member (.name "t") "k")) ∧
      dottedReferences "s.k - (t).k" = .ok [("s", "k")] ∧
      ∃ ts, Token.ofText "s.k - (t).k" = .ok ts ∧ Token.AccessesGroup ts "t" "k" := by
  have parsed : parse "s.k - (t).k" =
      .ok (.binary .sub (.member (.name "s") "k") (.member (.name "t") "k")) := by
    with_unfolding_all rfl
  have scanned : dottedReferences "s.k - (t).k" = .ok [("s", "k")] := by with_unfolding_all rfl
  refine ⟨parsed, scanned, ?_⟩
  obtain ⟨ts, refs, read, found, tree, -⟩ := refersTo_iff_of_parse parsed
  cases scanned.symm.trans found
  have right : RefersTo (.member (.name "t") "k") "t" "k" := refersTo_iff.2 (.inl rfl)
  have referred := (refersTo_two (e := .binary .sub (.member (.name "s") "k") _) rfl
    fun _ _ => Expr.noConfusion).2 (.inr right)
  refine ⟨ts, read, ((tree "t" "k").1 referred).resolve_left ?_⟩
  rintro ⟨member, -⟩
  exact absurd (List.mem_singleton.1 member) (by decide)

/-- The references found among the tokens are not those of the tree: one in parentheses is missed,
and one to a constant is found. -/
theorem references_ne_tree :
    (parse "(s).k" = .ok (.member (.name "s") "k") ∧ dottedReferences "(s).k" = .ok []) ∧
      (parse "None.x" = .ok (.member .noData "x") ∧
        dottedReferences "None.x" = .ok [("None", "x")]) ∧
      ¬ ∀ formula e, parse formula = .ok e → ∃ refs, dottedReferences formula = .ok refs ∧
        ∀ base attr, (base, attr) ∈ refs ↔ e.RefersTo base attr := by
  have parsed : parse "(s).k" = .ok (.member (.name "s") "k") := by with_unfolding_all rfl
  have missed : dottedReferences "(s).k" = .ok [] := by with_unfolding_all rfl
  refine ⟨⟨parsed, missed⟩, ⟨by with_unfolding_all rfl, by with_unfolding_all rfl⟩, fun same => ?_⟩
  obtain ⟨refs, found, agree⟩ := same _ _ parsed
  cases missed.symm.trans found
  have referred : RefersTo (.member (.name "s") "k") "s" "k" := refersTo_iff.2 (.inl rfl)
  cases (agree "s" "k").2 referred

end Expr

end KpiReport
