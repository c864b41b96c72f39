import KpiReport.Evaluation.Compiled
import KpiReport.Proofs.Formula.Names
import KpiReport.Proofs.Results

/-!
# The names that a formula can write

Names come into an expression in two ways only. A formula writes identifiers, which hold no dot
(`Expr.reads_of_parse`), and a compiled formula holds a dotted name for every reference that crosses
to another report (`CompiledKpi.reads_of_ofKpi`). The two kinds never meet, and two dotted names of
different reports are different (`Library.dotted_inj`).
-/

namespace KpiReport

open KpiReport.Text

/-- The text has no dot. -/
def Dotless (s : String) : Prop := '.' ∉ s.toList

theorem Dotless.ne_of_mem {s : String} (h : Dotless s) : ∀ c ∈ s.toList, (c != '.') = true := by
  intro c member
  rw [bne_iff_ne]
  rintro rfl
  exact h member

theorem dotless_of_isIdentifier {s : String} (h : isIdentifier s = true) : Dotless s := by
  unfold isIdentifier at h
  intro dot
  split at h
  · rename_i empty
    rw [empty] at dot
    cases dot
  · rename_i c cs chars
    rw [Bool.and_eq_true, List.all_eq_true] at h
    rw [chars] at dot
    rcases List.mem_cons.1 dot with rfl | dot
    · exact absurd h.1 (by decide)
    · exact absurd (h.2 _ dot) (by decide)

namespace Library

theorem not_dotless_dotted (report kpi : String) : ¬ Dotless (dotted report kpi) := by
  intro h
  apply h
  simp [dotted]

theorem dotted_inj {report report' kpi kpi' : String} (h : Dotless report) (h' : Dotless report')
    (same : dotted report kpi = dotted report' kpi') : report = report' ∧ kpi = kpi' := by
  have chars : report.toList ++ '.' :: kpi.toList = report'.toList ++ '.' :: kpi'.toList := by
    have := congrArg String.toList same
    simpa [dotted] using this
  have firsts : report.toList = report'.toList := by
    have before := congrArg (List.takeWhile fun c => c != '.') chars
    rwa [List.takeWhile_append_of_pos h.ne_of_mem, List.takeWhile_append_of_pos h'.ne_of_mem,
      List.takeWhile_cons_of_neg (by simp), List.takeWhile_cons_of_neg (by simp),
      List.append_nil, List.append_nil] at before
  rw [firsts, List.append_cancel_left_eq, List.cons.injEq] at chars
  exact ⟨String.toList_inj.1 firsts, String.toList_inj.1 chars.2⟩

end Library

/-! ## The words of a formula -/

namespace Token

variable {P : String → Prop}

/-- All words among the tokens have the property `P`. -/
def Words (P : String → Prop) (ts : List Token) : Prop :=
  ∀ s, name s ∈ ts → P s

theorem words_nil : Words P [] := by
  intro s member
  cases member

theorem Words.cons {t : Token} {ts : List Token} (h : Words P ts) (own : ∀ s, t = name s → P s) :
    Words P (t :: ts) := by
  intro s member
  rcases List.mem_cons.1 member with same | member
  · exact own s same.symm
  · exact h s member

theorem Words.cons_punct {ts : List Token} (h : Words P ts) (mark : Punct) :
    Words P (punct mark :: ts) :=
  h.cons nofun

theorem Words.tail {t : Token} {ts : List Token} (h : Words P (t :: ts)) : Words P ts :=
  fun s member => h s (List.mem_cons_of_mem t member)

theorem Words.head {s : String} {ts : List Token} (h : Words P (name s :: ts)) : P s :=
  h s List.mem_cons_self

theorem isIdentifier_of_next {c : Char} {cs rest : List Char} {s : String}
    (h : next c cs = .ok (name s, rest)) : isIdentifier s = true := by
  unfold next at h
  split at h
  · cases h
  · split at h
    · rename_i start
      cases h
      rw [isIdentifier, String.toList_ofList]
      exact Bool.and_eq_true_iff.2 ⟨start, List.all_takeWhile⟩
    · split at h
      · obtain ⟨⟨inside, rest'⟩, -, same⟩ := map_eq_ok.1 h
        cases same
      · unfold takePunct at h
        split at h
        · cases h
        · split at h <;> cases h

theorem words_of_ofChars {cs : List Char} {ts : List Token} (h : ofChars cs = .ok ts) :
    Words (isIdentifier · = true) ts := by
  fun_induction ofChars cs generalizing ts with
  | case1 =>
    cases h
    exact words_nil
  | case2 c cs blank ih => exact ih h
  | case3 c cs _ fault failed => cases h
  | case4 c cs _ token rest read ih =>
    obtain ⟨more, read', rfl⟩ := map_eq_ok.1 h
    refine (ih read').cons ?_
    rintro s rfl
    exact isIdentifier_of_next read

theorem words_of_ofText {formula : String} {ts : List Token} (h : ofText formula = .ok ts) :
    Words (isIdentifier · = true) ts :=
  words_of_ofChars h

theorem words_of_mem_references {afterDot : Bool} {ts : List Token} (words : Words P ts)
    {base attr : String} (h : (base, attr) ∈ references afterDot ts) : P base ∧ P attr := by
  fun_induction references afterDot ts with
  | case1 => cases h
  | case2 base' attr' rest more ih => exact ih words.tail h
  | case3 afterDot base' attr' rest more _ ih =>
    rcases List.mem_cons.1 h with same | h
    · cases same
      exact ⟨words.head, words.tail.tail.head⟩
    · exact ih words.tail h
  | case4 afterDot t ts more _ ih => exact ih words.tail h

end Token

/-! ## The names of a parsed expression -/

namespace Expr

open Token

variable {P : String → Prop}

/-- All names that the expression reads have the property `P`. -/
def Reads (P : String → Prop) (e : Expr) : Prop :=
  ∀ x ∈ e.names, P x

/-- All names that the expressions read have the property `P`. -/
def ReadsAll (P : String → Prop) (es : List Expr) : Prop :=
  ∀ x ∈ namesAll es, P x

theorem reads_of_names_eq_nil {e : Expr} (h : e.names = []) : Reads P e := by
  intro x member
  rw [h] at member
  cases member

theorem readsAll_nil : ReadsAll P [] := by
  intro x member
  cases member

theorem Reads.append {e left right : Expr} (hl : Reads P left) (hr : Reads P right)
    (h : e.names = left.names ++ right.names) : Reads P e := by
  unfold Reads
  rw [h]
  exact List.forall_mem_append.2 ⟨hl, hr⟩

theorem Reads.cons {e : Expr} {es : List Expr} (h : Reads P e) (hs : ReadsAll P es) :
    ReadsAll P (e :: es) := by
  unfold ReadsAll
  rw [namesAll]
  exact List.forall_mem_append.2 ⟨h, hs⟩

theorem Reads.conditional {condition body otherwise : Expr} (hc : Reads P condition)
    (hb : Reads P body) (ho : Reads P otherwise) :
    Reads P (.conditional condition body otherwise) := by
  unfold Reads
  rw [names]
  exact List.forall_mem_append.2 ⟨hc, List.forall_mem_append.2 ⟨hb, ho⟩⟩

theorem Reads.join {op : Chained} {left right : Expr} (hl : Reads P left) (hr : Reads P right) :
    Reads P (op.join left right) := by
  cases op with
  | or => exact hl.append hr rfl
  | and => exact hl.append hr rfl
  | arithmetic op => exact hl.append hr rfl

theorem reads_of_ofWord {word : String} {e : Expr} (h : ofWord word = .ok e) (known : P word) :
    Reads P e := by
  unfold ofWord at h
  repeat' split at h
  all_goals cases h
  case isFalse.isFalse.isFalse.isFalse =>
    intro x member
    rw [List.mem_singleton.1 member]
    exact known
  all_goals exact reads_of_names_eq_nil rfl

theorem words_of_dropWord? {word : String} {ts rest : List Token}
    (h : dropWord? word ts = some rest) (words : Words P ts) : Words P rest := by
  unfold dropWord? at h
  split at h
  · split at h
    · cases h
      exact words.tail
    · cases h
  · cases h

theorem words_of_dropPunct? {mark : Punct} {ts rest : List Token}
    (h : dropPunct? mark ts = some rest) (words : Words P ts) : Words P rest := by
  unfold dropPunct? at h
  split at h
  · split at h
    · cases h
      exact words.tail
    · cases h
  · cases h

theorem words_of_takeCompareOp? {ts rest : List Token} {op : CompareOp}
    (h : takeCompareOp? ts = some (op, rest)) (words : Words P ts) : Words P rest := by
  unfold takeCompareOp? at h
  split at h
  · obtain ⟨op', -, same⟩ := Option.map_eq_some_iff.1 h
    cases same
    exact words.tail
  · cases h

theorem words_of_takeChained? {level : Level} {ts rest : List Token} {op : Chained}
    (h : takeChained? level ts = some (op, rest)) (words : Words P ts) : Words P rest := by
  unfold takeChained? at h
  split at h
  · obtain ⟨op', -, same⟩ := Option.map_eq_some_iff.1 h
    cases same
    exact words.tail
  · cases h

/-- What a reader of expressions gives: an expression over the words that it was given, and the
rest of the tokens. -/
def Kept (P : String → Prop) (result : Expr × List Token) : Prop :=
  Reads P result.1 ∧ Words P result.2

/-- What a reader of several expressions gives. -/
def KeptAll (P : String → Prop) (result : List Expr × List Token) : Prop :=
  ReadsAll P result.1 ∧ Words P result.2

/-- The readers of some depth take the names of their expressions from the words of their tokens. -/
structure KeepsWords (P : String → Prop) (depth : Nat) : Prop where
  parseAt : ∀ {level ts result}, parseAt depth level ts = .ok result → Words P ts → Kept P result
  parseChain : ∀ {level left ts result}, parseChain depth level left ts = .ok result →
    Reads P left → Words P ts → Kept P result
  parseAccess : ∀ {base ts result}, parseAccess depth base ts = .ok result →
    Reads P base → Words P ts → Kept P result
  parseSequence : ∀ {close ts result}, parseSequence depth close ts = .ok result →
    Words P ts → KeptAll P result
  parseItems : ∀ {close ts result}, parseItems depth close ts = .ok result →
    Words P ts → KeptAll P result

theorem keepsWords_zero : KeepsWords P 0 := by
  constructor
  case parseAt =>
    intro level ts result h
    unfold Expr.parseAt at h
    cases h
  case parseChain =>
    intro level left ts result h
    unfold Expr.parseChain at h
    cases h
  case parseAccess =>
    intro base ts result h
    unfold Expr.parseAccess at h
    cases h
  case parseSequence =>
    intro close ts result h
    unfold Expr.parseSequence at h
    cases h
  case parseItems =>
    intro close ts result h
    unfold Expr.parseItems at h
    cases h

section Step

variable {depth : Nat}

theorem KeepsWords.chain_step (ih : KeepsWords P depth) {level : Level} {left : Expr}
    {ts : List Token} {result : Expr × List Token}
    (h : Expr.parseChain (depth + 1) level left ts = .ok result) (hl : Reads P left)
    (words : Words P ts) : Kept P result := by
  unfold Expr.parseChain at h
  split at h
  · cases h
    exact ⟨hl, words⟩
  · rename_i op rest taken
    obtain ⟨⟨right, rest'⟩, read, h⟩ := bind_eq_ok.1 h
    obtain ⟨hr, words⟩ := ih.parseAt read (words_of_takeChained? taken words)
    exact ih.parseChain h (hl.join hr) words

theorem KeepsWords.access_step (ih : KeepsWords P depth) {base : Expr} {ts : List Token}
    {result : Expr × List Token} (h : Expr.parseAccess (depth + 1) base ts = .ok result)
    (hb : Reads P base) (words : Words P ts) : Kept P result := by
  unfold Expr.parseAccess at h
  split at h
  · split at h
    · exact ih.parseAccess h hb words.tail.tail
    · cases h
  · split at h
    · obtain ⟨⟨args, rest⟩, read, h⟩ := bind_eq_ok.1 h
      obtain ⟨ha, words⟩ := ih.parseSequence read words.tail
      exact ih.parseAccess h ha words
    · cases h
  · cases h
    exact ⟨hb, words⟩

theorem KeepsWords.sequence_step (ih : KeepsWords P depth) {close : Punct} {ts : List Token}
    {result : List Expr × List Token}
    (h : Expr.parseSequence (depth + 1) close ts = .ok result) (words : Words P ts) :
    KeptAll P result := by
  unfold Expr.parseSequence at h
  split at h
  · rename_i dropped
    cases h
    exact ⟨readsAll_nil, words_of_dropPunct? dropped words⟩
  · exact ih.parseItems h words

theorem KeepsWords.items_step (ih : KeepsWords P depth) {close : Punct} {ts : List Token}
    {result : List Expr × List Token}
    (h : Expr.parseItems (depth + 1) close ts = .ok result) (words : Words P ts) :
    KeptAll P result := by
  unfold Expr.parseItems at h
  obtain ⟨⟨item, rest⟩, read, h⟩ := bind_eq_ok.1 h
  obtain ⟨hi, words⟩ := ih.parseAt read words
  dsimp only at h
  split at h
  · rename_i dropped
    obtain ⟨⟨items, rest'⟩, more, h⟩ := bind_eq_ok.1 h
    obtain ⟨hs, words⟩ := ih.parseSequence more (words_of_dropPunct? dropped words)
    cases h
    exact ⟨hi.cons hs, words⟩
  · split at h
    · rename_i dropped
      cases h
      exact ⟨hi.cons readsAll_nil, words_of_dropPunct? dropped words⟩
    · cases h

/-- The levels whose operators group to the left: an operand, then the chain. -/
theorem KeepsWords.operand_step (ih : KeepsWords P depth) {operand level : Level}
    {ts : List Token} {result : Expr × List Token}
    (h : (Expr.parseAt depth operand ts >>= fun read =>
      Expr.parseChain depth level read.1 read.2) = .ok result)
    (words : Words P ts) : Kept P result := by
  obtain ⟨⟨left, rest⟩, read, h⟩ := bind_eq_ok.1 h
  obtain ⟨hl, words⟩ := ih.parseAt read words
  exact ih.parseChain h hl words

theorem KeepsWords.conditional_step (ih : KeepsWords P depth) {ts : List Token}
    {result : Expr × List Token}
    (h : Expr.parseAt (depth + 1) .conditional ts = .ok result) (words : Words P ts) :
    Kept P result := by
  unfold Expr.parseAt at h
  obtain ⟨⟨body, rest⟩, read, h⟩ := bind_eq_ok.1 h
  obtain ⟨hb, words⟩ := ih.parseAt read words
  dsimp only at h
  split at h
  · cases h
    exact ⟨hb, words⟩
  · rename_i dropped
    obtain ⟨⟨condition, rest'⟩, read', h⟩ := bind_eq_ok.1 h
    obtain ⟨hc, words⟩ := ih.parseAt read' (words_of_dropWord? dropped words)
    dsimp only at h
    split at h
    · cases h
    · rename_i dropped'
      obtain ⟨⟨otherwise, rest''⟩, read'', h⟩ := bind_eq_ok.1 h
      obtain ⟨ho, words⟩ := ih.parseAt read'' (words_of_dropWord? dropped' words)
      cases h
      exact ⟨hc.conditional hb ho, words⟩

theorem KeepsWords.primary_step (ih : KeepsWords P depth) {ts : List Token}
    {result : Expr × List Token}
    (h : Expr.parseAt (depth + 1) .primary ts = .ok result) (words : Words P ts) :
    Kept P result := by
  unfold Expr.parseAt at h
  dsimp only at h
  split at h
  · cases h
  · cases h
    exact ⟨reads_of_names_eq_nil rfl, words.tail⟩
  · cases h
    exact ⟨reads_of_names_eq_nil rfl, words.tail⟩
  · obtain ⟨e, read, same⟩ := map_eq_ok.1 h
    cases same
    exact ⟨reads_of_ofWord read words.head, words.tail⟩
  · obtain ⟨⟨inner, rest⟩, read, h⟩ := bind_eq_ok.1 h
    obtain ⟨hi, words⟩ := ih.parseAt read words.tail
    dsimp only at h
    split at h
    · rename_i dropped
      cases h
      exact ⟨hi, words_of_dropPunct? dropped words⟩
    · cases h
  · obtain ⟨⟨items, rest⟩, read, h⟩ := bind_eq_ok.1 h
    obtain ⟨hs, words⟩ := ih.parseSequence read words.tail
    cases h
    exact ⟨hs, words⟩
  · cases h

theorem KeepsWords.level_step (ih : KeepsWords P depth) {level : Level} {ts : List Token}
    {result : Expr × List Token}
    (h : Expr.parseAt (depth + 1) level ts = .ok result) (words : Words P ts) :
    Kept P result := by
  cases level with
  | conditional => exact ih.conditional_step h words
  | primary => exact ih.primary_step h words
  | disjunction =>
    unfold Expr.parseAt at h
    exact ih.operand_step h words
  | conjunction =>
    unfold Expr.parseAt at h
    exact ih.operand_step h words
  | sum =>
    unfold Expr.parseAt at h
    exact ih.operand_step h words
  | product =>
    unfold Expr.parseAt at h
    exact ih.operand_step h words
  | negation =>
    unfold Expr.parseAt at h
    dsimp only at h
    split at h
    · rename_i dropped
      obtain ⟨⟨operand, rest⟩, read, h⟩ := bind_eq_ok.1 h
      obtain ⟨ho, words⟩ := ih.parseAt read (words_of_dropWord? dropped words)
      cases h
      exact ⟨ho, words⟩
    · exact ih.parseAt h words
  | comparison =>
    unfold Expr.parseAt at h
    obtain ⟨⟨left, rest⟩, read, h⟩ := bind_eq_ok.1 h
    obtain ⟨hl, words⟩ := ih.parseAt read words
    dsimp only at h
    split at h
    · rename_i taken
      obtain ⟨⟨right, rest'⟩, read', h⟩ := bind_eq_ok.1 h
      obtain ⟨hr, words⟩ := ih.parseAt read' (words_of_takeCompareOp? taken words)
      cases h
      exact ⟨hl.append hr rfl, words⟩
    · cases h
      exact ⟨hl, words⟩
  | sign =>
    unfold Expr.parseAt at h
    dsimp only at h
    split at h
    · rename_i dropped
      obtain ⟨⟨operand, rest⟩, read, h⟩ := bind_eq_ok.1 h
      obtain ⟨ho, words⟩ := ih.parseAt read (words_of_dropPunct? dropped words)
      cases h
      exact ⟨ho, words⟩
    · split at h
      · rename_i dropped
        exact ih.parseAt h (words_of_dropPunct? dropped words)
      · exact ih.parseAt h words
  | power =>
    unfold Expr.parseAt at h
    obtain ⟨⟨base, rest⟩, read, h⟩ := bind_eq_ok.1 h
    obtain ⟨hb, words⟩ := ih.parseAt read words
    dsimp only at h
    split at h
    · rename_i dropped
      obtain ⟨⟨exponent, rest'⟩, read', h⟩ := bind_eq_ok.1 h
      obtain ⟨he, words⟩ := ih.parseAt read' (words_of_dropPunct? dropped words)
      cases h
      exact ⟨hb.append he rfl, words⟩
    · cases h
      exact ⟨hb, words⟩
  | access =>
    unfold Expr.parseAt at h
    obtain ⟨⟨base, rest⟩, read, h⟩ := bind_eq_ok.1 h
    obtain ⟨hb, words⟩ := ih.parseAt read words
    exact ih.parseAccess h hb words

theorem KeepsWords.step (ih : KeepsWords P depth) : KeepsWords P (depth + 1) where
  parseAt := ih.level_step
  parseChain := ih.chain_step
  parseAccess := ih.access_step
  parseSequence := ih.sequence_step
  parseItems := ih.items_step

end Step

/-- The readers of every depth take the names of their expressions from the words of their
tokens. -/
theorem keepsWords (P : String → Prop) (depth : Nat) : KeepsWords P depth := by
  induction depth with
  | zero => exact keepsWords_zero
  | succ depth ih => exact ih.step

/-- The names of a formula are among its words. -/
theorem reads_of_ofTokens {ts : List Token} {e : Expr} (h : ofTokens ts = .ok e)
    (words : Words P ts) : Reads P e := by
  unfold ofTokens at h
  split at h
  · cases h
  · obtain ⟨⟨e', rest⟩, read, h⟩ := bind_eq_ok.1 h
    obtain ⟨known, -⟩ := (keepsWords _ _).parseAt read words
    dsimp only at h
    split at h
    · cases h
      exact known
    · cases h

/-- A formula writes identifiers only. -/
theorem reads_of_parse {formula : String} {e : Expr} (h : parse formula = .ok e) :
    Reads (isIdentifier · = true) e := by
  obtain ⟨ts, lexed, h⟩ := bind_eq_ok.1 h
  exact reads_of_ofTokens h (words_of_ofText lexed)

end Expr

/-! ## The names of a compiled expression -/

namespace Expr

variable {P : String → Prop} {rename : String → String → Option String}

mutual

theorem Reads.rename (renamed : ∀ base attr s, rename base attr = some s → P s) :
    ∀ e : Expr, Reads P e → Reads P (e.renameReferences rename)
  | number x, _ => reads_of_names_eq_nil rfl
  | text s, _ => reads_of_names_eq_nil rfl
  | bool b, _ => reads_of_names_eq_nil rfl
  | noData, _ => reads_of_names_eq_nil rfl
  | name s, h => h
  | member base attr, h => by
    rw [renameReferences.eq_def]
    split
    case h_6 same =>
      cases same
      split
      · rename_i found
        intro x read
        rw [List.mem_singleton.1 read]
        exact renamed _ _ _ found
      · exact h
    case h_7 same =>
      cases same
      exact Reads.rename renamed base h
    all_goals rename_i same; cases same
  | call function args, h => ReadsAll.rename renamed args h
  | list items, h => ReadsAll.rename renamed items h
  | negate operand, h => Reads.rename renamed operand h
  | not operand, h => Reads.rename renamed operand h
  | binary op left right, h =>
    (Reads.rename renamed left (List.forall_mem_append.1 h).1).append
      (Reads.rename renamed right (List.forall_mem_append.1 h).2) rfl
  | compare op left right, h =>
    (Reads.rename renamed left (List.forall_mem_append.1 h).1).append
      (Reads.rename renamed right (List.forall_mem_append.1 h).2) rfl
  | and left right, h =>
    (Reads.rename renamed left (List.forall_mem_append.1 h).1).append
      (Reads.rename renamed right (List.forall_mem_append.1 h).2) rfl
  | or left right, h =>
    (Reads.rename renamed left (List.forall_mem_append.1 h).1).append
      (Reads.rename renamed right (List.forall_mem_append.1 h).2) rfl
  | conditional condition body otherwise, h =>
    Reads.conditional (Reads.rename renamed condition (List.forall_mem_append.1 h).1)
      (Reads.rename renamed body (List.forall_mem_append.1 (List.forall_mem_append.1 h).2).1)
      (Reads.rename renamed otherwise (List.forall_mem_append.1 (List.forall_mem_append.1 h).2).2)

theorem ReadsAll.rename (renamed : ∀ base attr s, rename base attr = some s → P s) :
    ∀ es : List Expr, ReadsAll P es → ReadsAll P (renameAll rename es)
  | [], _ => readsAll_nil
  | e :: es, h =>
    (Reads.rename renamed e (List.forall_mem_append.1 h).1).cons
      (ReadsAll.rename renamed es (List.forall_mem_append.1 h).2)

end

end Expr

namespace CompiledKpi

variable {library : Library} {template : Template} {registry : Registry} {kpi : Kpi}
  {compiled : CompiledKpi}

/-- The name is an identifier, or the dotted name of a KPI of one of some reports. -/
def Readable (reports : List String) (x : String) : Prop :=
  isIdentifier x = true ∨ ∃ code ∈ reports, ∃ attr, x = Library.dotted code attr

/-- What compiling a KPI gives: either the formula, its account tokens replaced, cannot be cut into
tokens, or it has been parsed and its references to other reports have been checked. -/
theorem ofKpi_eq_ok (h : ofKpi library template registry kpi = .ok compiled) :
    ∃ formula, registry.substitute kpi.expression = .ok formula ∧
      ((∃ fault, dottedReferences formula = .error fault ∧ compiled = ⟨kpi, .error fault, []⟩) ∨
        ∃ references, dottedReferences formula = .ok references ∧
          (∀ reference ∈ references.filter (library.isCrossReference template),
            library.checkReference template kpi reference = .ok ()) ∧
          compiled =
            ofFormula kpi formula (references.filter (library.isCrossReference template))) := by
  unfold ofKpi at h
  split at h
  · cases h
  · rename_i formula replaced
    refine ⟨formula, replaced, ?_⟩
    split at h
    · rename_i fault failed
      cases h
      exact .inl ⟨fault, failed, rfl⟩
    · rename_i references found
      obtain ⟨⟨⟩, checked, rfl⟩ := map_eq_ok.1 h
      exact .inr ⟨references, found, forM_eq_ok.1 checked, rfl⟩

theorem kpi_of_ofKpi (h : ofKpi library template registry kpi = .ok compiled) :
    compiled.kpi = kpi := by
  obtain ⟨formula, -, ⟨fault, -, rfl⟩ | ⟨references, -, -, rfl⟩⟩ := ofKpi_eq_ok h <;> rfl

theorem mem_subReports_ofFormula {formula : String} {crossing : List (String × String)}
    {code : String} : code ∈ (ofFormula kpi formula crossing).subReports ↔
      ∃ attr, (code, attr) ∈ crossing := by
  simp [ofFormula]

theorem crossing_of_mem_subReports (h : ofKpi library template registry kpi = .ok compiled)
    {code : String} (member : code ∈ compiled.subReports) :
    Dotless code ∧ library.contains code = true := by
  obtain ⟨formula, -, ⟨fault, -, rfl⟩ | ⟨references, found, -, rfl⟩⟩ := ofKpi_eq_ok h
  · cases member
  · obtain ⟨attr, inside⟩ := mem_subReports_ofFormula.1 member
    obtain ⟨written, crosses⟩ := List.mem_filter.1 inside
    obtain ⟨ts, lexed, rfl⟩ := map_eq_ok.1 found
    have word := Token.words_of_mem_references (Token.words_of_ofText lexed) written
    exact ⟨dotless_of_isIdentifier word.1, (Bool.and_eq_true_iff.1 crosses).2⟩

/-- A compiled formula reads identifiers and dotted names of KPIs of its sub-reports. -/
theorem reads_of_ofKpi (h : ofKpi library template registry kpi = .ok compiled) {e : Expr}
    (parsed : compiled.expression = .ok e) : e.Reads (Readable compiled.subReports) := by
  obtain ⟨formula, -, ⟨fault, -, rfl⟩ | ⟨references, -, -, rfl⟩⟩ := ofKpi_eq_ok h
  · cases parsed
  · obtain ⟨e', read, rfl⟩ := map_eq_ok.1 parsed
    refine Expr.Reads.rename ?_ e' fun x member => Or.inl (Expr.reads_of_parse read x member)
    intro base attr s found
    unfold Expr.dottedName at found
    split at found
    · rename_i crosses
      cases found
      exact Or.inr ⟨base, mem_subReports_ofFormula.2 ⟨attr, List.contains_iff_mem.1 crosses⟩, attr,
        rfl⟩
    · cases found

end CompiledKpi

end KpiReport
