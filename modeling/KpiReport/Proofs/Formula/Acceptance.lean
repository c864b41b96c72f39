import KpiReport.Proofs.Formula.Grammar

/-!
# Reading what the grammar derives

What is derived is accepted, whatever follows that cannot continue it (`Expr.Derives.takes`): the
induction is on the derivation, and says at which reader the reading goes on after the expression
and how much of the depth is left. With soundness this gives the main statement,
`Expr.ofTokens_eq_ok_iff`: a list of tokens is read as a tree exactly if the grammar derives the
tree, of which there is at most one.
-/

namespace KpiReport.Expr

open Token

/-! ## What starts and what continues an expression -/

/-- How tight a level binds. -/
def Level.rank : Level → Nat
  | conditional => 0
  | disjunction => 1
  | conjunction => 2
  | negation => 3
  | comparison => 4
  | sum => 5
  | product => 6
  | sign => 7
  | power => 8
  | access => 9
  | primary => 10

/-- A token that may be the first one of an expression of a level. -/
def Starts (level : Level) : Token → Prop
  | Token.name w => w = "not" → level.rank ≤ Level.negation.rank
  | Token.punct p => p = .openParen ∨ p = .openBracket ∨
      ((p = .minus ∨ p = .plus) ∧ level.rank ≤ Level.sign.rank)
  | _ => True

/-- The rank of the level at which a token continues an expression. -/
def continues? : Token → Option Nat
  | Token.name w =>
    if w = "if" then some 0 else if w = "or" then some 1 else if w = "and" then some 2 else none
  | Token.punct p =>
    match p with
    | .equal | .notEqual | .less | .lessEqual | .greater | .greaterEqual => some 4
    | .plus | .minus => some 5
    | .times | .divide | .modulo => some 6
    | .power => some 8
    | .dot | .openParen => some 9
    | _ => none
  | _ => none

/-- The tokens do not continue an expression of a level. -/
def Stops (level : Level) (ts : List Token) : Prop :=
  ∀ t ∈ ts.head?, ∀ rank ∈ continues? t, rank < level.rank

theorem stops_nil (level : Level) : Stops level [] := by
  intro t member
  cases member

theorem stops_cons {level : Level} {t : Token} {ts : List Token}
    (h : ∀ rank ∈ continues? t, rank < level.rank) : Stops level (t :: ts) := by
  intro t' member
  cases member
  exact h

theorem Stops.mono {level level' : Level} {ts : List Token} (h : Stops level ts)
    (le : level.rank ≤ level'.rank) : Stops level' ts :=
  fun t member rank continued => Nat.lt_of_lt_of_le (h t member rank continued) le

/-! ## Completeness -/

/-- The level whose expressions are taken before what follows is looked at: the level itself, or the
next one where an expression may go on. -/
def Level.inner : Level → Level
  | access => primary
  | level => level.operand

/-- How reading goes on after an expression of a level. -/
def resume (depth : Nat) (level : Level) (e : Expr) (rest : List Token) : Parsed :=
  match level with
  | .disjunction | .conjunction | .sum | .product => parseChain depth level e rest
  | .access => parseAccess depth e rest
  | _ => .ok (e, rest)

/-- A depth that is enough to read so many tokens as an expression of a level. -/
def Level.depth (level : Level) (length : Nat) : Nat :=
  16 * length + (11 - level.rank)

/-- Whatever follows the tokens, reading an expression of the level there comes to the tree. -/
def Takes (level : Level) (ts : List Token) (e : Expr) : Prop :=
  ∀ rest depth, Stops level.inner rest → level.depth ts.length ≤ depth →
    ∃ left, depth ≤ left + 16 * ts.length ∧
      parseAt depth level (ts ++ rest) = resume left level e rest

/-- Reading the tokens as items up to a closing mark comes to the trees. -/
def TakesAll (ts : List Token) (es : List Expr) : Prop :=
  ∀ close rest depth, close = .closeParen ∨ close = .closeBracket → 16 * ts.length + 13 ≤ depth →
    parseSequence depth close (ts ++ Token.punct close :: rest) = .ok (es, rest)

theorem continues?_of_chained? {level : Level} {t : Token} {op : Chained}
    (h : chained? level t = some op) : continues? t = some level.rank := by
  unfold chained? at h
  split at h <;> simp_all [continues?, Level.rank]

theorem takeChained?_of_stops {level : Level} {ts : List Token} (h : Stops level ts) :
    takeChained? level ts = none := by
  cases ts with
  | nil => rfl
  | cons t ts =>
    cases chain : chained? level t with
    | none => simp only [takeChained?, chain, Option.map_none]
    | some op => exact absurd (h t rfl _ (continues?_of_chained? chain)) (Nat.lt_irrefl _)

theorem dropWord?_of_stops {level : Level} {ts : List Token} {word : String} {rank : Nat}
    (h : Stops level ts) (continued : continues? (Token.name word) = some rank)
    (le : level.rank ≤ rank) : dropWord? word ts = none := by
  unfold dropWord?
  split
  · rename_i w ts
    split
    · rename_i same
      subst same
      exact absurd (h _ rfl _ continued) (Nat.not_lt.2 le)
    · rfl
  · rfl

theorem dropPunct?_of_stops {level : Level} {ts : List Token} {mark : Punct} {rank : Nat}
    (h : Stops level ts) (continued : continues? (Token.punct mark) = some rank)
    (le : level.rank ≤ rank) : dropPunct? mark ts = none := by
  unfold dropPunct?
  split
  · rename_i p ts
    split
    · rename_i same
      subst same
      exact absurd (h _ rfl _ continued) (Nat.not_lt.2 le)
    · rfl
  · rfl

theorem takeCompareOp?_of_stops {ts : List Token} (h : Stops .comparison ts) :
    takeCompareOp? ts = none := by
  unfold takeCompareOp?
  split
  · rename_i p ts
    have short := h _ rfl
    cases p <;> simp_all [continues?, compareOp?, Level.rank]
  · rfl

theorem parseAccess_of_stops {depth : Nat} {base : Expr} {ts : List Token}
    (h : Stops .access ts) : parseAccess (depth + 1) base ts = .ok (base, ts) := by
  unfold parseAccess
  split
  · exact absurd (h _ rfl 9 rfl) (Nat.lt_irrefl _)
  · exact absurd (h _ rfl 9 rfl) (Nat.lt_irrefl _)
  · rfl

theorem parseChain_of_stops {depth : Nat} {level : Level} {left : Expr} {ts : List Token}
    (h : Stops level ts) : parseChain (depth + 1) level left ts = .ok (left, ts) := by
  unfold parseChain
  rw [takeChained?_of_stops h]

theorem resume_of_stops {depth : Nat} {level : Level} {e : Expr} {ts : List Token}
    (h : Stops level ts) : resume (depth + 1) level e ts = .ok (e, ts) := by
  unfold resume
  split
  · exact parseChain_of_stops h
  · exact parseChain_of_stops h
  · exact parseChain_of_stops h
  · exact parseChain_of_stops h
  · exact parseAccess_of_stops h
  · rfl

theorem joins_of_chained? {level : Level} {t : Token} {op : Chained}
    (h : chained? level t = some op) : level.Joins := by
  cases level with
  | disjunction | conjunction | sum | product => exact Level.noConfusion
  | _ => cases h

section Joins

variable {level : Level}

theorem Level.Joins.inner_eq (h : level.Joins) : level.inner = level.operand := by
  cases level with
  | disjunction | conjunction | sum | product => rfl
  | _ => exact absurd rfl h

theorem Level.Joins.rank_operand (h : level.Joins) : level.operand.rank = level.rank + 1 := by
  cases level with
  | disjunction | conjunction | sum | product => rfl
  | _ => exact absurd rfl h

theorem Level.Joins.resume_eq (h : level.Joins) (depth : Nat) (e : Expr) (ts : List Token) :
    resume depth level e ts = parseChain depth level e ts := by
  cases level with
  | disjunction | conjunction | sum | product => rfl
  | _ => exact absurd rfl h

end Joins

theorem Level.rank_le_inner (level : Level) : level.rank ≤ level.inner.rank := by
  cases level <;> decide

theorem Level.rank_le (level : Level) : level.rank ≤ 10 := by
  cases level <;> decide

section Takes

variable {level : Level} {ts us rest : List Token} {e left right : Expr} {depth : Nat}

/-- An expression is read to its end if what follows does not continue it. -/
theorem Takes.reads (h : Takes level ts e) (stops : Stops level rest)
    (enough : level.depth ts.length ≤ depth) :
    parseAt depth level (ts ++ rest) = .ok (e, rest) := by
  obtain ⟨n, spent, read⟩ := h rest depth (stops.mono level.rank_le_inner) enough
  have low := level.rank_le
  unfold Level.depth at enough
  obtain ⟨n, rfl⟩ : ∃ m, n = m + 1 := ⟨n - 1, by omega⟩
  rw [read, resume_of_stops stops]

/-- Reading to the end is enough for the levels that do not go on. -/
theorem takes_of_reads (resumes : ∀ depth rest, resume depth level e rest = .ok (e, rest))
    (same : level.inner = level)
    (h : ∀ rest depth, Stops level rest → level.depth ts.length ≤ depth + 1 →
      parseAt (depth + 1) level (ts ++ rest) = .ok (e, rest)) : Takes level ts e := by
  intro rest depth stops enough
  have low := level.rank_le
  obtain ⟨depth, rfl⟩ : ∃ m, depth = m + 1 := ⟨depth - 1, by unfold Level.depth at enough; omega⟩
  rw [same] at stops
  exact ⟨depth + 1, Nat.le_add_right _ _, by rw [h rest depth stops enough, resumes]⟩

/-- A joining level goes on after its left operand with an operator and the next operand. -/
theorem Takes.join {t : Token} {op : Chained} (hl : Takes level ts left)
    (hr : Takes level.operand us right) (chain : chained? level t = some op) :
    Takes level (ts ++ t :: us) (op.join left right) := by
  intro rest depth stops enough
  have joins := joins_of_chained? chain
  have next := joins.rank_operand
  have low := level.operand.rank_le
  unfold Level.depth at enough
  rw [List.length_append, List.length_cons] at enough ⊢
  have stops' : Stops level.inner (t :: (us ++ rest)) := by
    refine stops_cons fun rank continued => ?_
    rw [continues?_of_chained? chain] at continued
    cases continued
    rw [joins.inner_eq]
    omega
  obtain ⟨n, spent, read⟩ := hl (t :: (us ++ rest)) depth stops' (by unfold Level.depth; omega)
  obtain ⟨n, rfl⟩ : ∃ m, n = m + 1 := ⟨n - 1, by omega⟩
  refine ⟨n, by omega, ?_⟩
  have operand : parseAt n level.operand (us ++ rest) = .ok (right, rest) :=
    hr.reads (joins.inner_eq ▸ stops) (by unfold Level.depth; omega)
  rw [List.append_assoc, List.cons_append, read, joins.resume_eq, joins.resume_eq, parseChain]
  simp only [takeChained?, chain, Option.map_some]
  rw [operand]
  rfl

end Takes

/-! ### The first token -/

theorem Level.rank_le_tighter (level : Level) : level.rank ≤ level.tighter.rank := by
  cases level <;> decide

theorem Starts.mono {level level' : Level} {t : Token} (h : Starts level' t)
    (le : level.rank ≤ level'.rank) : Starts level t := by
  cases t with
  | number x => trivial
  | text s => trivial
  | name w => exact fun isNot => Nat.le_trans le (h isNot)
  | punct p =>
    rcases h with rfl | rfl | ⟨signed, low⟩
    · exact .inl rfl
    · exact .inr (.inl rfl)
    · exact .inr (.inr ⟨signed, Nat.le_trans le low⟩)

/-- The tokens have a first one, which may start an expression of the level. -/
def Begins (level : Level) (ts : List Token) : Prop :=
  ∃ t us, ts = t :: us ∧ Starts level t

theorem Begins.append {level level' : Level} {ts : List Token} (h : Begins level' ts)
    (le : level.rank ≤ level'.rank) (us : List Token) : Begins level (ts ++ us) := by
  obtain ⟨t, rest, rfl, starts⟩ := h
  exact ⟨t, rest ++ us, rfl, starts.mono le⟩

theorem Derives.begins {level : Level} {ts : List Token} {e : Expr} :
    Derives level ts e → Begins level ts
  | .tighten h => by
    obtain ⟨t, us, rfl, starts⟩ := h.begins
    exact ⟨t, us, rfl, starts.mono level.rank_le_tighter⟩
  | .conditional hb _ _ => hb.begins.append (by decide) _
  | .or hl _ => hl.begins.append (by decide) _
  | .and hl _ => hl.begins.append (by decide) _
  | .not _ => ⟨_, _, rfl, fun _ => Nat.le_refl _⟩
  | .compare _ hl _ => hl.begins.append (by decide) _
  | .add _ hl _ => hl.begins.append (by decide) _
  | .multiply _ hl _ => hl.begins.append (by decide) _
  | .minus _ => ⟨_, _, rfl, .inr (.inr ⟨.inl rfl, Nat.le_refl _⟩)⟩
  | .plus _ => ⟨_, _, rfl, .inr (.inr ⟨.inr rfl, Nat.le_refl _⟩)⟩
  | .power hb _ => hb.begins.append (by decide) _
  | .member _ h => h.begins.append (by decide) _
  | .call h _ => h.begins.append (by decide) _
  | .number _ => ⟨_, _, rfl, trivial⟩
  | .text _ => ⟨_, _, rfl, trivial⟩
  | .none => ⟨_, _, rfl, fun isNot => absurd isNot (by decide)⟩
  | .true => ⟨_, _, rfl, fun isNot => absurd isNot (by decide)⟩
  | .false => ⟨_, _, rfl, fun isNot => absurd isNot (by decide)⟩
  | .name free => ⟨_, _, rfl, fun isNot => absurd (isNot ▸ by decide) free⟩
  | .parens _ => ⟨_, _, rfl, .inl rfl⟩
  | .list _ => ⟨_, _, rfl, .inr (.inl rfl)⟩

theorem Begins.dropWord? {level : Level} {ts : List Token} (h : Begins level ts)
    (high : Level.negation.rank < level.rank) (rest : List Token) :
    Expr.dropWord? "not" (ts ++ rest) = none := by
  obtain ⟨t, us, rfl, starts⟩ := h
  cases t with
  | name w =>
    have other : w ≠ "not" := fun isNot => absurd (starts isNot) (Nat.not_le.2 high)
    simp only [List.cons_append, Expr.dropWord?, if_neg other]
  | _ => rfl

theorem Begins.dropPunct? {level : Level} {ts : List Token} (h : Begins level ts) {mark : Punct}
    (other : ¬ Starts level (Token.punct mark)) (rest : List Token) :
    Expr.dropPunct? mark (ts ++ rest) = none := by
  obtain ⟨t, us, rfl, starts⟩ := h
  cases t with
  | punct p =>
    have ne : p ≠ mark := fun same => other (same ▸ starts)
    simp only [List.cons_append, Expr.dropPunct?, if_neg ne]
  | _ => rfl

/-! ### The cases -/

section Cases

variable {ts us vs : List Token} {e body condition otherwise left right base : Expr}

theorem Takes.tighten_joins {level : Level} (joins : level.Joins) (h : Takes level.operand ts e)
    (begins : Begins level.operand ts) : Takes level ts e := by
  intro rest depth stops enough
  have next := joins.rank_operand
  have low := level.operand.rank_le
  have positive : 1 ≤ ts.length := by
    obtain ⟨t, us, rfl, -⟩ := begins
    exact Nat.le_add_left _ _
  unfold Level.depth at enough
  obtain ⟨depth, rfl⟩ : ∃ m, depth = m + 1 := ⟨depth - 1, by omega⟩
  refine ⟨depth, by omega, ?_⟩
  rw [joins.inner_eq] at stops
  rw [joins.parseAt_eq, h.reads stops (by unfold Level.depth; omega), joins.resume_eq]
  rfl

theorem Takes.tighten_conditional (h : Takes .disjunction ts e) : Takes .conditional ts e := by
  refine takes_of_reads (fun _ _ => rfl) rfl fun rest depth stops enough => ?_
  simp only [Level.depth, Level.rank] at enough
  unfold parseAt
  refine bind_eq_ok.2 ⟨_, h.reads (stops.mono (by decide)) ?_, ?_⟩
  · simp only [Level.depth, Level.rank]
    omega
  · dsimp only
    rw [dropWord?_of_stops stops rfl (Nat.zero_le _)]
    rfl

theorem Takes.tighten_negation (h : Takes .comparison ts e) (begins : Begins .comparison ts) :
    Takes .negation ts e := by
  refine takes_of_reads (fun _ _ => rfl) rfl fun rest depth stops enough => ?_
  simp only [Level.depth, Level.rank] at enough
  unfold parseAt
  dsimp only
  rw [begins.dropWord? (by decide)]
  refine h.reads (stops.mono (by decide)) ?_
  simp only [Level.depth, Level.rank]
  omega

theorem Takes.tighten_comparison (h : Takes .sum ts e) : Takes .comparison ts e := by
  refine takes_of_reads (fun _ _ => rfl) rfl fun rest depth stops enough => ?_
  simp only [Level.depth, Level.rank] at enough
  unfold parseAt
  refine bind_eq_ok.2 ⟨_, h.reads (stops.mono (by decide)) ?_, ?_⟩
  · simp only [Level.depth, Level.rank]
    omega
  · dsimp only
    rw [takeCompareOp?_of_stops stops]
    rfl

theorem not_starts_power {mark : Punct} (signed : mark = .minus ∨ mark = .plus) :
    ¬ Starts .power (Token.punct mark) := by
  rcases signed with rfl | rfl <;> simp [Starts, Level.rank]

theorem Takes.tighten_sign (h : Takes .power ts e) (begins : Begins .power ts) :
    Takes .sign ts e := by
  refine takes_of_reads (fun _ _ => rfl) rfl fun rest depth stops enough => ?_
  simp only [Level.depth, Level.rank] at enough
  unfold parseAt
  dsimp only
  rw [begins.dropPunct? (not_starts_power (.inl rfl)),
    begins.dropPunct? (not_starts_power (.inr rfl))]
  refine h.reads (stops.mono (by decide)) ?_
  simp only [Level.depth, Level.rank]
  omega

theorem Takes.tighten_power (h : Takes .access ts e) : Takes .power ts e := by
  refine takes_of_reads (fun _ _ => rfl) rfl fun rest depth stops enough => ?_
  simp only [Level.depth, Level.rank] at enough
  unfold parseAt
  refine bind_eq_ok.2 ⟨_, h.reads (stops.mono (by decide)) ?_, ?_⟩
  · simp only [Level.depth, Level.rank]
    omega
  · dsimp only
    rw [dropPunct?_of_stops stops rfl (Nat.le_refl _)]
    rfl

theorem Takes.tighten_access (h : Takes .primary ts e) (begins : Begins .primary ts) :
    Takes .access ts e := by
  intro rest depth stops enough
  have positive : 1 ≤ ts.length := by
    obtain ⟨t, us, rfl, -⟩ := begins
    exact Nat.le_add_left _ _
  simp only [Level.depth, Level.rank] at enough
  obtain ⟨depth, rfl⟩ : ∃ m, depth = m + 1 := ⟨depth - 1, by omega⟩
  refine ⟨depth, by omega, ?_⟩
  unfold parseAt
  dsimp only
  rw [h.reads stops (by simp only [Level.depth, Level.rank]; omega)]
  rfl

/-- Each level reads what the next one does, if nothing of its own follows. -/
theorem Takes.tighten {level : Level} (begins : Begins level.tighter ts)
    (h : Takes level.tighter ts e) : Takes level ts e := by
  cases level with
  | conditional => exact h.tighten_conditional
  | disjunction | conjunction | sum | product => exact h.tighten_joins Level.noConfusion begins
  | negation => exact h.tighten_negation begins
  | comparison => exact h.tighten_comparison
  | sign => exact h.tighten_sign begins
  | power => exact h.tighten_power
  | access => exact h.tighten_access begins
  | primary => exact h

theorem dropWord?_cons (word : String) (ts : List Token) :
    dropWord? word (Token.name word :: ts) = some ts :=
  if_pos rfl

theorem dropPunct?_cons (mark : Punct) (ts : List Token) :
    dropPunct? mark (Token.punct mark :: ts) = some ts :=
  if_pos rfl

theorem takes_conditional (hb : Takes .disjunction ts body) (hc : Takes .disjunction us condition)
    (ho : Takes .conditional vs otherwise) :
    Takes .conditional (ts ++ Token.name "if" :: (us ++ Token.name "else" :: vs))
      (.conditional condition body otherwise) := by
  refine takes_of_reads (fun _ _ => rfl) rfl fun rest depth stops enough => ?_
  simp only [Level.depth, Level.rank, List.length_append, List.length_cons] at enough
  simp only [List.append_assoc, List.cons_append]
  unfold parseAt
  refine bind_eq_ok.2 ⟨_, hb.reads (stops_cons ?_) ?_, ?_⟩
  · rintro rank ⟨⟩
    decide
  · simp only [Level.depth, Level.rank]
    omega
  dsimp only
  rw [dropWord?_cons]
  refine bind_eq_ok.2 ⟨_, hc.reads (stops_cons ?_) ?_, ?_⟩
  · rintro rank ⟨⟩
  · simp only [Level.depth, Level.rank]
    omega
  dsimp only
  rw [dropWord?_cons]
  refine bind_eq_ok.2 ⟨_, ho.reads stops ?_, rfl⟩
  simp only [Level.depth, Level.rank]
  omega

theorem takes_not (h : Takes .negation ts e) :
    Takes .negation (Token.name "not" :: ts) (.not e) := by
  refine takes_of_reads (fun _ _ => rfl) rfl fun rest depth stops enough => ?_
  simp only [Level.depth, Level.rank, List.length_cons] at enough
  rw [List.cons_append]
  unfold parseAt
  dsimp only
  rw [dropWord?_cons]
  refine bind_eq_ok.2 ⟨_, h.reads stops ?_, rfl⟩
  simp only [Level.depth, Level.rank]
  omega

theorem Compares.compareOp? {p : Punct} {op : CompareOp} (mark : Compares p op) :
    Expr.compareOp? p = some op := by
  cases mark <;> rfl

theorem Compares.continues? {p : Punct} {op : CompareOp} (mark : Compares p op) :
    Expr.continues? (Token.punct p) = some 4 := by
  cases mark <;> rfl

theorem takes_compare {p : Punct} {op : CompareOp} (mark : Compares p op) (hl : Takes .sum ts left)
    (hr : Takes .sum us right) :
    Takes .comparison (ts ++ Token.punct p :: us) (.compare op left right) := by
  refine takes_of_reads (fun _ _ => rfl) rfl fun rest depth stops enough => ?_
  simp only [Level.depth, Level.rank, List.length_append, List.length_cons] at enough
  simp only [List.append_assoc, List.cons_append]
  unfold parseAt
  refine bind_eq_ok.2 ⟨_, hl.reads (stops_cons ?_) ?_, ?_⟩
  · rintro rank continued
    rw [mark.continues?] at continued
    cases continued
    decide
  · simp only [Level.depth, Level.rank]
    omega
  simp only [takeCompareOp?, mark.compareOp?, Option.map_some]
  refine bind_eq_ok.2 ⟨_, hr.reads (stops.mono (by decide)) ?_, rfl⟩
  simp only [Level.depth, Level.rank]
  omega

theorem takes_minus (h : Takes .sign ts e) :
    Takes .sign (Token.punct .minus :: ts) (.negate e) := by
  refine takes_of_reads (fun _ _ => rfl) rfl fun rest depth stops enough => ?_
  simp only [Level.depth, Level.rank, List.length_cons] at enough
  rw [List.cons_append]
  unfold parseAt
  dsimp only
  rw [dropPunct?_cons]
  refine bind_eq_ok.2 ⟨_, h.reads stops ?_, rfl⟩
  simp only [Level.depth, Level.rank]
  omega

theorem takes_plus (h : Takes .sign ts e) : Takes .sign (Token.punct .plus :: ts) e := by
  refine takes_of_reads (fun _ _ => rfl) rfl fun rest depth stops enough => ?_
  simp only [Level.depth, Level.rank, List.length_cons] at enough
  rw [List.cons_append]
  unfold parseAt
  dsimp only
  rw [dropPunct?_cons]
  refine h.reads stops ?_
  simp only [Level.depth, Level.rank]
  omega

/-- No token continues an expression at the level of signs itself. -/
theorem Stops.sign {rest : List Token} (h : Stops .power rest) : Stops .sign rest := by
  intro t member rank continued
  have lower : rank < 8 := h t member rank continued
  have other : rank ≠ 7 := by
    rintro rfl
    unfold Expr.continues? at continued
    split at continued
    · split_ifs at continued <;> cases continued
    · split at continued <;> cases continued
    · cases continued
  simp only [Level.rank]
  omega

theorem takes_power (hb : Takes .access ts base) (he : Takes .sign us e) :
    Takes .power (ts ++ Token.punct .power :: us) (.binary .pow base e) := by
  refine takes_of_reads (fun _ _ => rfl) rfl fun rest depth stops enough => ?_
  simp only [Level.depth, Level.rank, List.length_append, List.length_cons] at enough
  simp only [List.append_assoc, List.cons_append]
  unfold parseAt
  refine bind_eq_ok.2 ⟨_, hb.reads (stops_cons ?_) ?_, ?_⟩
  · rintro rank ⟨⟩
    decide
  · simp only [Level.depth, Level.rank]
    omega
  dsimp only
  rw [dropPunct?_cons]
  refine bind_eq_ok.2 ⟨_, he.reads stops.sign ?_, rfl⟩
  simp only [Level.depth, Level.rank]
  omega

/-- Nothing continues a name, a literal or an expression between brackets. -/
theorem stops_primary (rest : List Token) : Stops .primary rest := by
  intro t _ rank continued
  simp only [Level.rank]
  unfold Expr.continues? at continued
  split at continued
  · split_ifs at continued <;> cases continued <;> decide
  · split at continued <;> cases continued <;> decide
  · cases continued

theorem takes_member (attr : String) (h : Takes .access ts base) :
    Takes .access (ts ++ [Token.punct .dot, Token.name attr]) (.member base attr) := by
  intro rest depth _ enough
  simp only [Level.depth, Level.rank, List.length_append, List.length_cons,
    List.length_nil] at enough ⊢
  obtain ⟨n, spent, read⟩ := h (Token.punct .dot :: Token.name attr :: rest) depth
    (stops_primary _) (by simp only [Level.depth, Level.rank]; omega)
  obtain ⟨n, rfl⟩ : ∃ m, n = m + 1 := ⟨n - 1, by omega⟩
  refine ⟨n, by omega, ?_⟩
  simp only [List.append_assoc, List.cons_append, List.nil_append]
  rw [read]
  simp only [resume]
  conv_lhs => unfold parseAccess

theorem takes_call {function : String} {args : List Expr} (h : Takes .access ts (.name function))
    (hs : TakesAll us args) :
    Takes .access (ts ++ Token.punct .openParen :: (us ++ [Token.punct .closeParen]))
      (.call function args) := by
  intro rest depth _ enough
  simp only [Level.depth, Level.rank, List.length_append, List.length_cons,
    List.length_nil] at enough ⊢
  obtain ⟨n, spent, read⟩ := h (Token.punct .openParen :: (us ++ Token.punct .closeParen :: rest))
    depth (stops_primary _) (by simp only [Level.depth, Level.rank]; omega)
  obtain ⟨n, rfl⟩ : ∃ m, n = m + 1 := ⟨n - 1, by omega⟩
  refine ⟨n, by omega, ?_⟩
  simp only [List.append_assoc, List.cons_append, List.nil_append]
  rw [read]
  simp only [resume]
  conv_lhs => unfold parseAccess
  dsimp only
  rw [hs .closeParen rest n (.inl rfl) (by omega)]
  rfl

/-- A single token that is an expression of its own. -/
theorem takes_token {t : Token}
    (h : ∀ depth rest, parseAt (depth + 1) .primary (t :: rest) = .ok (e, rest)) :
    Takes .primary [t] e :=
  takes_of_reads (fun _ _ => rfl) rfl fun rest depth _ _ => h depth rest

theorem takes_word {word : String} (h : ofWord word = .ok e) :
    Takes .primary [Token.name word] e := by
  refine takes_token fun depth rest => ?_
  unfold parseAt
  dsimp only
  rw [h]
  rfl

theorem ofWord_of_free {word : String} (free : word ∉ keywords) :
    ofWord word = .ok (.name word) := by
  have other : ∀ keyword ∈ keywords, word ≠ keyword := by
    rintro keyword member rfl
    exact free member
  unfold ofWord
  rw [if_neg (other _ (by decide)), if_neg (other _ (by decide)), if_neg (other _ (by decide)),
    if_neg (by rwa [List.contains_iff_mem])]

theorem takes_parens (h : Takes .conditional ts e) :
    Takes .primary (Token.punct .openParen :: (ts ++ [Token.punct .closeParen])) e := by
  refine takes_of_reads (fun _ _ => rfl) rfl fun rest depth _ enough => ?_
  simp only [Level.depth, Level.rank, List.length_append, List.length_cons,
    List.length_nil] at enough
  simp only [List.append_assoc, List.cons_append, List.nil_append]
  unfold parseAt
  refine bind_eq_ok.2 ⟨_, h.reads (stops_cons ?_) ?_, ?_⟩
  · rintro rank ⟨⟩
  · simp only [Level.depth, Level.rank]
    omega
  dsimp only
  rw [dropPunct?_cons]
  rfl

theorem takes_list {items : List Expr} (h : TakesAll ts items) :
    Takes .primary (Token.punct .openBracket :: (ts ++ [Token.punct .closeBracket]))
      (.list items) := by
  refine takes_of_reads (fun _ _ => rfl) rfl fun rest depth _ enough => ?_
  simp only [Level.depth, Level.rank, List.length_append, List.length_cons,
    List.length_nil] at enough
  simp only [List.append_assoc, List.cons_append, List.nil_append]
  unfold parseAt
  exact bind_eq_ok.2 ⟨_, h .closeBracket rest depth (.inr rfl) (by omega), rfl⟩

/-! ### Items -/

theorem takesAll_nil : TakesAll [] [] := by
  intro close rest depth _ enough
  obtain ⟨depth, rfl⟩ : ∃ m, depth = m + 1 := ⟨depth - 1, by omega⟩
  unfold parseSequence
  rw [List.nil_append, dropPunct?_cons]

theorem not_starts_close {level : Level} {close : Punct}
    (closes : close = .closeParen ∨ close = .closeBracket) :
    ¬ Starts level (Token.punct close) := by
  rcases closes with rfl | rfl <;> simp [Starts]

theorem stops_close {level : Level} {close : Punct}
    (closes : close = .closeParen ∨ close = .closeBracket) (rest : List Token) :
    Stops level (Token.punct close :: rest) := by
  rcases closes with rfl | rfl
  all_goals
    refine stops_cons ?_
    rintro rank ⟨⟩

theorem takesAll_last (begins : Begins .conditional ts) (h : Takes .conditional ts e) :
    TakesAll ts [e] := by
  intro close rest depth closes enough
  obtain ⟨depth, rfl⟩ : ∃ m, depth = m + 2 := ⟨depth - 2, by omega⟩
  unfold parseSequence
  rw [begins.dropPunct? (not_starts_close closes)]
  unfold parseItems
  refine bind_eq_ok.2 ⟨_, h.reads (stops_close closes rest) ?_, ?_⟩
  · simp only [Level.depth, Level.rank]
    omega
  have other : dropPunct? .comma (Token.punct close :: rest) = none := by
    rcases closes with rfl | rfl <;> rfl
  dsimp only
  rw [other, dropPunct?_cons]
  rfl

theorem takesAll_cons {es : List Expr} (begins : Begins .conditional ts)
    (h : Takes .conditional ts e) (hs : TakesAll us es) :
    TakesAll (ts ++ Token.punct .comma :: us) (e :: es) := by
  intro close rest depth closes enough
  simp only [List.length_append, List.length_cons] at enough
  obtain ⟨depth, rfl⟩ : ∃ m, depth = m + 2 := ⟨depth - 2, by omega⟩
  simp only [List.append_assoc, List.cons_append]
  unfold parseSequence
  rw [begins.dropPunct? (not_starts_close closes)]
  unfold parseItems
  refine bind_eq_ok.2 ⟨_, h.reads (stops_cons ?_) ?_, ?_⟩
  · rintro rank ⟨⟩
  · simp only [Level.depth, Level.rank]
    omega
  dsimp only
  rw [dropPunct?_cons]
  exact bind_eq_ok.2 ⟨_, hs close rest depth closes (by omega), rfl⟩

end Cases

theorem chained?_or : chained? .disjunction (Token.name "or") = some .or :=
  rfl

theorem chained?_and : chained? .conjunction (Token.name "and") = some .and :=
  rfl

theorem Adds.chained? {p : Punct} {op : BinaryOp} (mark : Adds p op) :
    Expr.chained? .sum (Token.punct p) = some (.arithmetic op) := by
  cases mark <;> rfl

theorem Multiplies.chained? {p : Punct} {op : BinaryOp} (mark : Multiplies p op) :
    Expr.chained? .product (Token.punct p) = some (.arithmetic op) := by
  cases mark <;> rfl

mutual

/-- What is derived is read as its tree, and reading goes on as after an expression of the level. -/
theorem Derives.takes {level : Level} {ts : List Token} {e : Expr} :
    Derives level ts e → Takes level ts e
  | .tighten h => h.takes.tighten h.begins
  | .conditional hb hc ho => takes_conditional hb.takes hc.takes ho.takes
  | .or hl hr => hl.takes.join hr.takes chained?_or
  | .and hl hr => hl.takes.join hr.takes chained?_and
  | .not h => takes_not h.takes
  | .compare mark hl hr => takes_compare mark hl.takes hr.takes
  | .add mark hl hr => hl.takes.join hr.takes mark.chained?
  | .multiply mark hl hr => hl.takes.join hr.takes mark.chained?
  | .minus h => takes_minus h.takes
  | .plus h => takes_plus h.takes
  | .power hb he => takes_power hb.takes he.takes
  | .member attr h => takes_member attr h.takes
  | .call h hs => takes_call h.takes hs.takes
  | .number _ => takes_token fun _ _ => by unfold parseAt; rfl
  | .text _ => takes_token fun _ _ => by unfold parseAt; rfl
  | .none => takes_word rfl
  | .true => takes_word rfl
  | .false => takes_word rfl
  | .name free => takes_word (ofWord_of_free free)
  | .parens h => takes_parens h.takes
  | .list hs => takes_list hs.takes

/-- What is derived as items is read as their trees. -/
theorem DerivesAll.takes {ts : List Token} {es : List Expr} : DerivesAll ts es → TakesAll ts es
  | .nil => takesAll_nil
  | .last h => takesAll_last h.begins h.takes
  | .cons h hs => takesAll_cons h.begins h.takes hs.takes

end

/-! ## Formulas -/

theorem Derives.ofTokens {ts : List Token} {e : Expr} (h : Derives .conditional ts e) :
    Expr.ofTokens ts = .ok e := by
  have nonempty : ¬ ts.isEmpty := by
    obtain ⟨t, us, rfl, -⟩ := h.begins
    exact Bool.false_ne_true
  have read : Expr.parseAt (depthFor ts) .conditional (ts ++ []) = .ok (e, []) :=
    h.takes.reads (stops_nil _) (by
      simp only [Level.depth, Level.rank, depthFor]
      omega)
  rw [List.append_nil] at read
  unfold Expr.ofTokens
  rw [if_neg nonempty]
  exact bind_eq_ok.2 ⟨_, read, rfl⟩

/-- **A list of tokens is read as a tree exactly if the grammar derives the tree from it.** There is
at most one such tree, and a list from which none is derived is refused for a fault of syntax. -/
theorem ofTokens_eq_ok_iff (ts : List Token) :
    (∀ e, ofTokens ts = .ok e ↔ Derives .conditional ts e) ∧
      (∀ e e', Derives .conditional ts e → Derives .conditional ts e' → e = e') ∧
      ((∀ e, ¬ Derives .conditional ts e) → ∃ fault, ofTokens ts = .error fault) := by
  refine ⟨fun e => ⟨derives_of_ofTokens, Derives.ofTokens⟩, ?_, ?_⟩
  · intro e e' h h'
    have same : Except.ok e = Except.ok e' := h.ofTokens.symm.trans h'.ofTokens
    cases same
    rfl
  · intro none
    cases read : ofTokens ts with
    | error fault => exact ⟨fault, rfl⟩
    | ok e => exact absurd (derives_of_ofTokens read) (none e)

/-- A difference of three names is a tree of one shape, with the first two grouped. -/
theorem derives_differences :
    Derives .conditional
        [Token.name "a", Token.punct .minus, Token.name "b", Token.punct .minus, Token.name "c"]
        (.binary .sub (.binary .sub (.name "a") (.name "b")) (.name "c")) ∧
      ∀ e, Derives .conditional
          [Token.name "a", Token.punct .minus, Token.name "b", Token.punct .minus, Token.name "c"]
          e →
        e = .binary .sub (.binary .sub (.name "a") (.name "b")) (.name "c") := by
  have grouped := (ofTokens_eq_ok_iff
    [Token.name "a", Token.punct .minus, Token.name "b", Token.punct .minus, Token.name "c"]).1
      (.binary .sub (.binary .sub (.name "a") (.name "b")) (.name "c"))
  have derived := grouped.1 (by rfl)
  exact ⟨derived, fun e h => (ofTokens_eq_ok_iff _).2.1 _ _ h derived⟩

end KpiReport.Expr
