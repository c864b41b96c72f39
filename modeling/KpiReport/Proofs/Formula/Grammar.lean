import KpiReport.Formula.Parser
import KpiReport.Proofs.Results

/-!
# The grammar of formulas

`Expr.Derives` is the grammar: it says which lists of tokens are expressions of a level, and which
trees they have, without saying how they are read. Operators that group to the left recurse on their
left operand, those that group to the right on their right one.

What the readers accept is derived, and what they leave follows it (`Expr.sound`).
-/

namespace KpiReport.Expr

open Token

/-! ## Derivations -/

/-- The next level, whose expressions bind tighter. -/
def Level.tighter : Level → Level
  | conditional => disjunction
  | disjunction => conjunction
  | conjunction => negation
  | negation => comparison
  | comparison => sum
  | sum => product
  | product => sign
  | sign => power
  | power => access
  | access => primary
  | primary => primary

/-- The marks of comparisons. -/
inductive Compares : Punct → CompareOp → Prop where
  | eq : Compares .equal .eq
  | ne : Compares .notEqual .ne
  | lt : Compares .less .lt
  | le : Compares .lessEqual .le
  | gt : Compares .greater .gt
  | ge : Compares .greaterEqual .ge

/-- The marks of sums. -/
inductive Adds : Punct → BinaryOp → Prop where
  | add : Adds .plus .add
  | sub : Adds .minus .sub

/-- The marks of products. -/
inductive Multiplies : Punct → BinaryOp → Prop where
  | mul : Multiplies .times .mul
  | div : Multiplies .divide .div
  | mod : Multiplies .modulo .mod

mutual

/-- The tokens are an expression of a level, and this is its tree. -/
inductive Derives : Level → List Token → Expr → Prop where
  | tighten {level ts e} (h : Derives level.tighter ts e) : Derives level ts e
  | conditional {ts us vs body condition otherwise} (hb : Derives .disjunction ts body)
    (hc : Derives .disjunction us condition) (ho : Derives .conditional vs otherwise) :
    Derives .conditional (ts ++ Token.name "if" :: (us ++ Token.name "else" :: vs))
      (.conditional condition body otherwise)
  | or {ts us left right} (hl : Derives .disjunction ts left) (hr : Derives .conjunction us right) :
    Derives .disjunction (ts ++ Token.name "or" :: us) (.or left right)
  | and {ts us left right} (hl : Derives .conjunction ts left) (hr : Derives .negation us right) :
    Derives .conjunction (ts ++ Token.name "and" :: us) (.and left right)
  | not {ts e} (h : Derives .negation ts e) : Derives .negation (Token.name "not" :: ts) (.not e)
  | compare {p op ts us left right} (mark : Compares p op) (hl : Derives .sum ts left)
    (hr : Derives .sum us right) :
    Derives .comparison (ts ++ Token.punct p :: us) (.compare op left right)
  | add {p op ts us left right} (mark : Adds p op) (hl : Derives .sum ts left)
    (hr : Derives .product us right) :
    Derives .sum (ts ++ Token.punct p :: us) (.binary op left right)
  | multiply {p op ts us left right} (mark : Multiplies p op) (hl : Derives .product ts left)
    (hr : Derives .sign us right) :
    Derives .product (ts ++ Token.punct p :: us) (.binary op left right)
  | minus {ts e} (h : Derives .sign ts e) : Derives .sign (Token.punct .minus :: ts) (.negate e)
  | plus {ts e} (h : Derives .sign ts e) : Derives .sign (Token.punct .plus :: ts) e
  | power {ts us base exponent} (hb : Derives .access ts base) (he : Derives .sign us exponent) :
    Derives .power (ts ++ Token.punct .power :: us) (.binary .pow base exponent)
  | member {ts base} (attr : String) (h : Derives .access ts base) :
    Derives .access (ts ++ [Token.punct .dot, Token.name attr]) (.member base attr)
  | call {ts us function args} (h : Derives .access ts (.name function)) (hs : DerivesAll us args) :
    Derives .access (ts ++ Token.punct .openParen :: (us ++ [Token.punct .closeParen]))
      (.call function args)
  | number (x : Float) : Derives .primary [Token.number x] (.number x)
  | text (s : String) : Derives .primary [Token.text s] (.text s)
  | none : Derives .primary [Token.name "None"] .noData
  | true : Derives .primary [Token.name "True"] (.bool true)
  | false : Derives .primary [Token.name "False"] (.bool false)
  | name {s : String} (free : s ∉ keywords) : Derives .primary [Token.name s] (.name s)
  | parens {ts e} (h : Derives .conditional ts e) :
    Derives .primary (Token.punct .openParen :: (ts ++ [Token.punct .closeParen])) e
  | list {ts items} (h : DerivesAll ts items) :
    Derives .primary (Token.punct .openBracket :: (ts ++ [Token.punct .closeBracket])) (.list items)

/-- The tokens are expressions between commas, and these are their trees; a comma may follow the
last one. -/
inductive DerivesAll : List Token → List Expr → Prop where
  | nil : DerivesAll [] []
  | last {ts e} (h : Derives .conditional ts e) : DerivesAll ts [e]
  | cons {ts us e es} (h : Derives .conditional ts e) (hs : DerivesAll us es) :
    DerivesAll (ts ++ Token.punct .comma :: us) (e :: es)

end

/-! ## Levels that group to the left -/

/-- The operators of the level group to the left. -/
def Level.Joins (level : Level) : Prop :=
  level.operand ≠ level

section Joins

variable {level : Level}

theorem Level.Joins.tighter_eq (h : level.Joins) : level.tighter = level.operand := by
  cases level with
  | disjunction | conjunction | sum | product => rfl
  | _ => exact absurd rfl h

theorem Level.Joins.parseAt_eq (h : level.Joins) (depth : Nat) (ts : List Token) :
    parseAt (depth + 1) level ts = (parseAt depth level.operand ts >>= fun read =>
      parseChain depth level read.1 read.2) := by
  cases level with
  | disjunction | conjunction | sum | product =>
    conv_lhs => unfold parseAt
    rfl
  | _ => exact absurd rfl h

end Joins

/-! ## Soundness -/

/-- The tokens read before the rest are an expression of the level, and this is its tree. -/
def Read (level : Level) (ts : List Token) (result : Expr × List Token) : Prop :=
  ∃ pre, ts = pre ++ result.2 ∧ Derives level pre result.1

/-- The tokens read after an expression of the level make a larger one with it. -/
def Grown (level : Level) (pre ts : List Token) (result : Expr × List Token) : Prop :=
  ∃ mid, ts = mid ++ result.2 ∧ Derives level (pre ++ mid) result.1

/-- The tokens read before the rest are items and a closing mark. -/
def ReadAll (close : Punct) (ts : List Token) (result : List Expr × List Token) : Prop :=
  ∃ pre, ts = pre ++ Token.punct close :: result.2 ∧ DerivesAll pre result.1

/-- What the readers accept at a depth is derived. -/
structure Sound (depth : Nat) : Prop where
  parseAt : ∀ {level ts result}, Expr.parseAt depth level ts = .ok result → Read level ts result
  parseChain : ∀ {level left pre ts result}, Expr.parseChain depth level left ts = .ok result →
    Derives level pre left → Grown level pre ts result
  parseAccess : ∀ {base pre ts result}, Expr.parseAccess depth base ts = .ok result →
    Derives .access pre base → Grown .access pre ts result
  parseSequence : ∀ {close ts result}, Expr.parseSequence depth close ts = .ok result →
    ReadAll close ts result
  parseItems : ∀ {close ts result}, Expr.parseItems depth close ts = .ok result →
    ReadAll close ts result

theorem sound_zero : Sound 0 := by
  constructor
  case parseAt =>
    intro level ts result h
    unfold Expr.parseAt at h
    cases h
  case parseChain =>
    intro level left pre ts result h
    unfold Expr.parseChain at h
    cases h
  case parseAccess =>
    intro base pre ts result h
    unfold Expr.parseAccess at h
    cases h
  case parseSequence =>
    intro close ts result h
    unfold Expr.parseSequence at h
    cases h
  case parseItems =>
    intro close ts result h
    unfold Expr.parseItems at h
    cases h

theorem eq_of_dropWord? {word : String} {ts us : List Token} (h : dropWord? word ts = some us) :
    ts = Token.name word :: us := by
  unfold dropWord? at h
  split at h
  · split at h
    · rename_i same
      cases h
      rw [same]
    · cases h
  · cases h

theorem eq_of_dropPunct? {mark : Punct} {ts us : List Token} (h : dropPunct? mark ts = some us) :
    ts = Token.punct mark :: us := by
  unfold dropPunct? at h
  split at h
  · split at h
    · rename_i same
      cases h
      rw [same]
    · cases h
  · cases h

theorem eq_of_takeCompareOp? {op : CompareOp} {ts us : List Token}
    (h : takeCompareOp? ts = some (op, us)) : ∃ p, Compares p op ∧ ts = Token.punct p :: us := by
  unfold takeCompareOp? at h
  split at h
  · rename_i p ts
    obtain ⟨op', found, same⟩ := Option.map_eq_some_iff.1 h
    cases same
    refine ⟨p, ?_, rfl⟩
    cases p <;> cases found <;> constructor
  · cases h

theorem eq_of_takeChained? {level : Level} {op : Chained} {ts us : List Token}
    (h : takeChained? level ts = some (op, us)) :
    ∃ t, chained? level t = some op ∧ ts = t :: us := by
  cases ts with
  | nil => cases h
  | cons t ts =>
    obtain ⟨op', found, same⟩ := Option.map_eq_some_iff.1 h
    cases same
    exact ⟨t, found, rfl⟩

/-- An operator of a level makes an expression of the level of its operands. -/
theorem derives_of_chained? {level : Level} {t : Token} {op : Chained} {ts us : List Token}
    {left right : Expr} (chain : chained? level t = some op) (hl : Derives level ts left)
    (hr : Derives level.operand us right) : Derives level (ts ++ t :: us) (op.join left right) := by
  unfold chained? at chain
  split at chain
  · split_ifs at chain with same
    cases chain
    subst same
    exact .or hl hr
  · split_ifs at chain with same
    cases chain
    subst same
    exact .and hl hr
  · cases chain
    exact .add .add hl hr
  · cases chain
    exact .add .sub hl hr
  · cases chain
    exact .multiply .mul hl hr
  · cases chain
    exact .multiply .div hl hr
  · cases chain
    exact .multiply .mod hl hr
  · cases chain

section Step

variable {depth : Nat}

theorem Sound.chain_step (ih : Sound depth) {level : Level} {left : Expr} {pre ts : List Token}
    {result : Expr × List Token} (h : Expr.parseChain (depth + 1) level left ts = .ok result)
    (hl : Derives level pre left) : Grown level pre ts result := by
  unfold Expr.parseChain at h
  split at h
  · cases h
    exact ⟨[], rfl, by rwa [List.append_nil]⟩
  · rename_i op rest taken
    obtain ⟨t, chain, rfl⟩ := eq_of_takeChained? taken
    obtain ⟨⟨right, rest'⟩, read, more⟩ := bind_eq_ok.1 h
    obtain ⟨us, rfl, hr⟩ := ih.parseAt read
    obtain ⟨mid, rfl, grown⟩ := ih.parseChain more (derives_of_chained? chain hl hr)
    refine ⟨t :: (us ++ mid), ?_, ?_⟩
    · simp only [List.cons_append, List.append_assoc]
    · simpa only [List.cons_append, List.append_assoc] using grown

theorem Sound.access_step (ih : Sound depth) {base : Expr} {pre ts : List Token}
    {result : Expr × List Token} (h : Expr.parseAccess (depth + 1) base ts = .ok result)
    (hb : Derives .access pre base) : Grown .access pre ts result := by
  unfold Expr.parseAccess at h
  split at h
  · split at h
    · rename_i attr rest
      obtain ⟨mid, rfl, grown⟩ := ih.parseAccess h (.member attr hb)
      refine ⟨Token.punct .dot :: Token.name attr :: mid, rfl, ?_⟩
      simpa only [List.append_assoc, List.cons_append, List.nil_append] using grown
    · cases h
  · split at h
    · rename_i function
      obtain ⟨⟨args, rest⟩, read, more⟩ := bind_eq_ok.1 h
      obtain ⟨us, rfl, ha⟩ := ih.parseSequence read
      obtain ⟨mid, rfl, grown⟩ := ih.parseAccess more (.call hb ha)
      refine ⟨Token.punct .openParen :: (us ++ Token.punct .closeParen :: mid), ?_, ?_⟩
      · simp only [List.cons_append, List.append_assoc]
      · simpa only [List.append_assoc, List.cons_append, List.nil_append] using grown
    · cases h
  · cases h
    exact ⟨[], rfl, by rwa [List.append_nil]⟩

theorem Sound.sequence_step (ih : Sound depth) {close : Punct} {ts : List Token}
    {result : List Expr × List Token}
    (h : Expr.parseSequence (depth + 1) close ts = .ok result) : ReadAll close ts result := by
  unfold Expr.parseSequence at h
  split at h
  · rename_i dropped
    cases h
    exact ⟨[], eq_of_dropPunct? dropped, .nil⟩
  · exact ih.parseItems h

theorem Sound.items_step (ih : Sound depth) {close : Punct} {ts : List Token}
    {result : List Expr × List Token}
    (h : Expr.parseItems (depth + 1) close ts = .ok result) : ReadAll close ts result := by
  unfold Expr.parseItems at h
  obtain ⟨⟨item, rest⟩, read, more⟩ := bind_eq_ok.1 h
  obtain ⟨us, rfl, hi⟩ := ih.parseAt read
  dsimp only at more ⊢
  split at more
  · rename_i dropped
    obtain ⟨⟨items, rest'⟩, read', more'⟩ := bind_eq_ok.1 more
    obtain ⟨vs, same, hs⟩ := ih.parseSequence read'
    cases more'
    refine ⟨us ++ Token.punct .comma :: vs, ?_, .cons hi hs⟩
    rw [eq_of_dropPunct? dropped, same]
    simp only [List.append_assoc, List.cons_append]
  · split at more
    · rename_i dropped
      cases more
      exact ⟨us, by rw [eq_of_dropPunct? dropped], .last hi⟩
    · cases more

/-- The levels whose operators group to the left: an operand, then the chain. -/
theorem Sound.operand_step (ih : Sound depth) {level : Level} {ts : List Token}
    {result : Expr × List Token} (joins : level.Joins)
    (h : Expr.parseAt (depth + 1) level ts = .ok result) : Read level ts result := by
  rw [joins.parseAt_eq] at h
  obtain ⟨⟨left, rest⟩, read, more⟩ := bind_eq_ok.1 h
  obtain ⟨us, rfl, hl⟩ := ih.parseAt read
  rw [← joins.tighter_eq] at hl
  obtain ⟨mid, same, grown⟩ := ih.parseChain more (.tighten hl)
  exact ⟨us ++ mid, by rw [same, List.append_assoc], grown⟩

theorem Sound.conditional_step (ih : Sound depth) {ts : List Token} {result : Expr × List Token}
    (h : Expr.parseAt (depth + 1) .conditional ts = .ok result) :
    Read .conditional ts result := by
  unfold Expr.parseAt at h
  obtain ⟨⟨body, rest⟩, read, more⟩ := bind_eq_ok.1 h
  obtain ⟨us, rfl, hb⟩ := ih.parseAt read
  dsimp only at more ⊢
  split at more
  · cases more
    exact ⟨us, rfl, .tighten hb⟩
  · rename_i dropped
    obtain ⟨⟨condition, rest'⟩, read', more'⟩ := bind_eq_ok.1 more
    obtain ⟨vs, rfl, hc⟩ := ih.parseAt read'
    dsimp only at more'
    split at more'
    · cases more'
    · rename_i dropped'
      obtain ⟨⟨otherwise, rest''⟩, read'', more''⟩ := bind_eq_ok.1 more'
      obtain ⟨ws, rfl, ho⟩ := ih.parseAt read''
      cases more''
      refine ⟨_, ?_, .conditional hb hc ho⟩
      rw [eq_of_dropWord? dropped, eq_of_dropWord? dropped']
      simp only [List.append_assoc, List.cons_append]

theorem derives_of_ofWord {word : String} {e : Expr} (h : ofWord word = .ok e) :
    Derives .primary [Token.name word] e := by
  unfold ofWord at h
  split_ifs at h with none true false keyword
  · cases h
    rw [none]
    exact .none
  · cases h
    rw [true]
    exact .true
  · cases h
    rw [false]
    exact .false
  · cases h
    exact .name fun member => keyword (List.contains_iff_mem.2 member)

theorem Sound.primary_step (ih : Sound depth) {ts : List Token} {result : Expr × List Token}
    (h : Expr.parseAt (depth + 1) .primary ts = .ok result) : Read .primary ts result := by
  unfold Expr.parseAt at h
  dsimp only at h
  split at h
  · cases h
  · cases h
    exact ⟨_, rfl, .number _⟩
  · cases h
    exact ⟨_, rfl, .text _⟩
  · rename_i word rest
    obtain ⟨e, read, same⟩ := map_eq_ok.1 h
    cases same
    exact ⟨[Token.name word], rfl, derives_of_ofWord read⟩
  · obtain ⟨⟨inner, rest⟩, read, more⟩ := bind_eq_ok.1 h
    obtain ⟨us, rfl, hi⟩ := ih.parseAt read
    dsimp only at more ⊢
    split at more
    · rename_i dropped
      cases more
      refine ⟨_, ?_, .parens hi⟩
      rw [eq_of_dropPunct? dropped]
      simp only [List.append_assoc, List.cons_append, List.nil_append]
    · cases more
  · obtain ⟨⟨items, rest⟩, read, more⟩ := bind_eq_ok.1 h
    obtain ⟨us, rfl, hs⟩ := ih.parseSequence read
    cases more
    refine ⟨_, ?_, .list hs⟩
    simp only [List.append_assoc, List.cons_append, List.nil_append]
  · cases h

theorem Sound.negation_step (ih : Sound depth) {ts : List Token} {result : Expr × List Token}
    (h : Expr.parseAt (depth + 1) .negation ts = .ok result) : Read .negation ts result := by
  unfold Expr.parseAt at h
  dsimp only at h
  split at h
  · rename_i dropped
    obtain ⟨⟨operand, rest⟩, read, more⟩ := bind_eq_ok.1 h
    obtain ⟨us, rfl, ho⟩ := ih.parseAt read
    cases more
    exact ⟨_, eq_of_dropWord? dropped, .not ho⟩
  · obtain ⟨us, same, derived⟩ := ih.parseAt h
    exact ⟨us, same, .tighten derived⟩

theorem Sound.comparison_step (ih : Sound depth) {ts : List Token} {result : Expr × List Token}
    (h : Expr.parseAt (depth + 1) .comparison ts = .ok result) : Read .comparison ts result := by
  unfold Expr.parseAt at h
  obtain ⟨⟨left, rest⟩, read, more⟩ := bind_eq_ok.1 h
  obtain ⟨us, rfl, hl⟩ := ih.parseAt read
  dsimp only at more ⊢
  split at more
  · rename_i taken
    obtain ⟨p, mark, rfl⟩ := eq_of_takeCompareOp? taken
    obtain ⟨⟨right, rest'⟩, read', more'⟩ := bind_eq_ok.1 more
    obtain ⟨vs, rfl, hr⟩ := ih.parseAt read'
    cases more'
    refine ⟨_, ?_, .compare mark hl hr⟩
    simp only [List.append_assoc, List.cons_append]
  · cases more
    exact ⟨us, rfl, .tighten hl⟩

theorem Sound.sign_step (ih : Sound depth) {ts : List Token} {result : Expr × List Token}
    (h : Expr.parseAt (depth + 1) .sign ts = .ok result) : Read .sign ts result := by
  unfold Expr.parseAt at h
  dsimp only at h
  split at h
  · rename_i dropped
    obtain ⟨⟨operand, rest⟩, read, more⟩ := bind_eq_ok.1 h
    obtain ⟨us, rfl, ho⟩ := ih.parseAt read
    cases more
    exact ⟨_, eq_of_dropPunct? dropped, .minus ho⟩
  · split at h
    · rename_i dropped
      obtain ⟨us, same, derived⟩ := ih.parseAt h
      exact ⟨_, by rw [eq_of_dropPunct? dropped, same, List.cons_append], .plus derived⟩
    · obtain ⟨us, same, derived⟩ := ih.parseAt h
      exact ⟨us, same, .tighten derived⟩

theorem Sound.power_step (ih : Sound depth) {ts : List Token} {result : Expr × List Token}
    (h : Expr.parseAt (depth + 1) .power ts = .ok result) : Read .power ts result := by
  unfold Expr.parseAt at h
  obtain ⟨⟨base, rest⟩, read, more⟩ := bind_eq_ok.1 h
  obtain ⟨us, rfl, hb⟩ := ih.parseAt read
  dsimp only at more ⊢
  split at more
  · rename_i dropped
    obtain ⟨⟨exponent, rest'⟩, read', more'⟩ := bind_eq_ok.1 more
    obtain ⟨vs, rfl, he⟩ := ih.parseAt read'
    cases more'
    refine ⟨_, ?_, .power hb he⟩
    rw [eq_of_dropPunct? dropped, List.append_assoc, List.cons_append]
  · cases more
    exact ⟨us, rfl, .tighten hb⟩

theorem Sound.level_step (ih : Sound depth) {level : Level} {ts : List Token}
    {result : Expr × List Token} (h : Expr.parseAt (depth + 1) level ts = .ok result) :
    Read level ts result := by
  cases level with
  | conditional => exact ih.conditional_step h
  | disjunction | conjunction | sum | product => exact ih.operand_step Level.noConfusion h
  | negation => exact ih.negation_step h
  | comparison => exact ih.comparison_step h
  | sign => exact ih.sign_step h
  | power => exact ih.power_step h
  | primary => exact ih.primary_step h
  | access =>
    unfold Expr.parseAt at h
    obtain ⟨⟨base, rest⟩, read, more⟩ := bind_eq_ok.1 h
    obtain ⟨us, rfl, hb⟩ := ih.parseAt read
    obtain ⟨mid, same, grown⟩ := ih.parseAccess more (.tighten hb)
    exact ⟨us ++ mid, by rw [List.append_assoc, ← same], grown⟩

end Step

/-- What the readers accept is derived. -/
theorem sound (depth : Nat) : Sound depth := by
  induction depth with
  | zero => exact sound_zero
  | succ depth ih =>
    exact ⟨ih.level_step, ih.chain_step, ih.access_step, ih.sequence_step, ih.items_step⟩

theorem derives_of_ofTokens {ts : List Token} {e : Expr} (h : ofTokens ts = .ok e) :
    Derives .conditional ts e := by
  unfold ofTokens at h
  split_ifs at h with empty
  obtain ⟨⟨e', rest⟩, read, more⟩ := bind_eq_ok.1 h
  obtain ⟨pre, rfl, derived⟩ := (sound _).parseAt read
  cases rest with
  | nil =>
    cases more
    rwa [List.append_nil]
  | cons t rest => cases more

end KpiReport.Expr
