import KpiReport.Proofs.Account.Places
import KpiReport.Proofs.Account.SelectorText

/-!
# How account tokens are written

The grammar of account tokens, said without the reader: a side, an optional mode and then a code
after an underscore, or selectors in brackets (`AccountToken.Body`), and an optional inline filter
in brackets (`AccountToken.Brackets`). Blank characters may stand around the items between brackets,
around the ends of a range, and around the comparison of a filter item.

The second part is about texts: an item between blank characters (`Text.Padded`), items with commas
between them (`AccountToken.Listed`), and texts in which every quoted text is closed
(`AccountToken.Closed`).
-/

namespace KpiReport

open KpiReport.Text

/-! ## Words -/

/-- How a side is written. -/
def Side.word : Side → List Char
  | balance => ['b', 'a', 'l']
  | credit => ['c', 'r', 'd']
  | debit => ['d', 'e', 'b']

/-- How a mode is written; without a letter the lines of the period are meant. -/
inductive Mode.Letter : Mode → List Char → Prop where
  | none : Letter .variation []
  | variation : Letter .variation ['p']
  | initial : Letter .initial ['i']
  | ending : Letter .ending ['e']

/-- How the comparisons of inline filters are written. -/
inductive FilterOp.Symbol : FilterOp → List Char → Prop where
  | eq : Symbol .eq ['=']
  | same : Symbol .eq ['=', '=']
  | ne : Symbol .ne ['!', '=']
  | lt : Symbol .lt ['<']
  | le : Symbol .le ['<', '=']
  | gt : Symbol .gt ['>']
  | ge : Symbol .ge ['>', '=']

/-- The text `inside` between blank characters. -/
def Text.Padded (inside cs : List Char) : Prop :=
  ∃ before after, cs = before ++ (inside ++ after) ∧ before.all isBlank = true ∧
    after.all isBlank = true

namespace AccountToken

/-! ## The grammar -/

/-- Items written one after the other with commas between them. -/
inductive Listed {α : Type} (written : α → List Char → Prop) : List α → List Char → Prop where
  | last {a : α} {cs : List Char} (item : written a cs) : Listed written [a] cs
  | next {a : α} {as : List α} {cs ds : List Char} (item : written a cs)
    (rest : Listed written as ds) : Listed written (a :: as) (cs ++ ',' :: ds)

/-- How a selector is written: a code, two codes in order with a hyphen or two points between them,
or a text of codes and percent signs. -/
inductive SelectorItem : Selector → List Char → Prop where
  | code {code cs : List Char} (valid : isCode code = true) (padded : Padded code cs) :
    SelectorItem (.code (String.ofList code)) cs
  | range {first last cs separator ds : List Char} (valid : isCode first = true)
    (valid' : isCode last = true) (padded : Padded first cs) (padded' : Padded last ds)
    (points : separator = ['-'] ∨ separator = ['.', '.'])
    (ordered : (Selector.range (String.ofList first) (String.ofList last)).isWellFormed = true) :
    SelectorItem (.range (String.ofList first) (String.ofList last)) (cs ++ (separator ++ ds))
  | pattern {pattern cs : List Char} (valid : isPattern pattern = true) (percent : '%' ∈ pattern)
    (padded : Padded pattern cs) : SelectorItem (.pattern (String.ofList pattern)) cs

/-- How selectors are written between brackets: blank ones select all accounts. -/
inductive Selection : List Selector → List Char → Prop where
  | all {content : List Char} (blank : content.all isBlank = true) : Selection [.all] content
  | listed {selectors : List Selector} {content : List Char}
    (items : Listed SelectorItem selectors content) : Selection selectors content

/-- How the value of a filter item is written: a text in quotes that it does not contain, a truth
value or a number. -/
inductive ItemValue : FieldValue → List Char → Prop where
  | text {q : Char} {inside : List Char} (quote : isQuote q = true) (free : q ∉ inside) :
    ItemValue (.text (String.ofList inside)) (q :: (inside ++ [q]))
  | yes {word : String} (spelled : word = "true" ∨ word = "True") :
    ItemValue (.bool true) word.toList
  | no {word : String} (spelled : word = "false" ∨ word = "False") :
    ItemValue (.bool false) word.toList
  | number {cs : List Char} {x : Float} (read : Decimal.ofText? cs = some x) :
    ItemValue (.number x) cs

/-- How an item of an inline filter is written: an identifier, a comparison and a value. -/
inductive FilterItem : Condition → List Char → Prop where
  | field {name : String} {op : FilterOp} {value : FieldValue} {symbol shown cs ds : List Char}
    (identifier : isIdentifier name = true) (padded : Padded name.toList cs)
    (compares : op.Symbol symbol) (written : ItemValue value shown) (padded' : Padded shown ds) :
    FilterItem (.field name op value) (cs ++ (symbol ++ ds))

/-- How the conditions of an inline filter are written between brackets; blank ones hold none. -/
inductive Conditions : Filter → List Char → Prop where
  | blank {content : List Char} (blank : content.all isBlank = true) : Conditions [] content
  | listed {filter : Filter} {content : List Char} (items : Listed FilterItem filter content) :
    Conditions filter content

/-- How an inline filter is written: not at all, or between brackets. -/
inductive Brackets : Filter → List Char → Prop where
  | none : Brackets [] []
  | some {filter : Filter} {content : List Char} (conditions : Conditions filter content) :
    Brackets filter ('[' :: (content ++ [']']))

/-- The two forms of account tokens. -/
inductive Form where
  /-- A code after an underscore. -/
  | short
  /-- Selectors in brackets. -/
  | long
  deriving DecidableEq, Repr

/-- How the word is written with which an account token starts. -/
inductive HeadWord : Head → List Char → Prop where
  | long {side : Side} {mode : Mode} {letter : List Char} (moded : mode.Letter letter) :
    HeadWord ⟨side, mode, none⟩ (side.word ++ letter)
  | short {side : Side} {mode : Mode} {letter code : List Char} {d : Char}
    (moded : mode.Letter letter) (digit : d.isDigit = true) :
    HeadWord ⟨side, mode, some (d :: code)⟩ (side.word ++ (letter ++ '_' :: d :: code))

/-- How an account token is written up to its inline filter. -/
inductive Body : Form → Side → Mode → List Selector → List Char → Prop where
  | short {side : Side} {mode : Mode} {code word : List Char}
    (head : HeadWord ⟨side, mode, some code⟩ word) (valid : isCode code = true) :
    Body .short side mode [.code (String.ofList code)] word
  | long {side : Side} {mode : Mode} {selectors : List Selector} {word content : List Char}
    (head : HeadWord ⟨side, mode, none⟩ word) (selection : Selection selectors content) :
    Body .long side mode selectors (word ++ '[' :: (content ++ [']']))

/-- The text of an account token up to its inline filter says its side, its mode and its
selectors. -/
def Bodied (form : Form) (brackets : List Char) (token : AccountToken) : Prop :=
  ∃ body, Body form token.side token.mode token.selectors body ∧
    token.text.toList = body ++ brackets

/-- An account token that is written by the grammar. -/
structure Spelled (form : Form) (brackets : List Char) (token : AccountToken) : Prop where
  body : Bodied form brackets token
  filter : Brackets token.filter brackets

/-- What follows an account token without inline filter does not continue it: neither the code of
the short form nor brackets do. -/
structure Ends (form : Form) (brackets rest : List Char) : Prop where
  code : form = .short → brackets = [] → ∀ c ∈ rest.head?, isIdentChar c = false
  bracket : brackets = [] → rest.head? ≠ some '['

end AccountToken

/-! ## Texts between blank characters -/

namespace Text

theorem padded_trim (cs : List Char) : Padded (trim cs) cs :=
  exists_eq_trim cs

theorem Padded.self (cs : List Char) : Padded cs cs :=
  ⟨[], [], by rw [List.nil_append, List.append_nil], rfl, rfl⟩

theorem Padded.blank_append {inside cs blanks : List Char} (h : Padded inside cs)
    (blank : blanks.all isBlank = true) : Padded inside (blanks ++ cs) := by
  obtain ⟨before, after, rfl, all, all'⟩ := h
  refine ⟨blanks ++ before, after, by rw [List.append_assoc], ?_, all'⟩
  rw [List.all_append, blank, all]
  rfl

theorem Padded.append_blank {inside cs blanks : List Char} (h : Padded inside cs)
    (blank : blanks.all isBlank = true) : Padded inside (cs ++ blanks) := by
  obtain ⟨before, after, rfl, all, all'⟩ := h
  refine ⟨before, after ++ blanks, by simp, all, ?_⟩
  rw [List.all_append, blank, all']
  rfl

/-- Two texts between blank characters and a text between them, as one text between blank
characters. -/
theorem Padded.join {xs ys cs ds : List Char} (h : Padded xs cs) (h' : Padded ys ds)
    (mid : List Char) : ∃ after before, after.all isBlank = true ∧ before.all isBlank = true ∧
      Padded (xs ++ (after ++ (mid ++ (before ++ ys)))) (cs ++ (mid ++ ds)) := by
  obtain ⟨front, after, rfl, outer, inner⟩ := h
  obtain ⟨before, back, rfl, inner', outer'⟩ := h'
  exact ⟨after, before, inner, inner', front, back, by simp, outer, outer'⟩

/-- Neither end of the text is blank. -/
structure Solid (cs : List Char) : Prop where
  head : ∃ c ∈ cs.head?, isBlank c = false
  last : ∃ c ∈ cs.getLast?, isBlank c = false

theorem solid_of_all {p : Char → Bool} (solid : ∀ c, p c = true → isBlank c = false)
    {cs : List Char} (nonempty : cs ≠ []) (all : cs.all p = true) : Solid cs := by
  rw [List.all_eq_true] at all
  have first := List.head?_eq_some_head nonempty
  have last := List.getLast?_eq_some_getLast nonempty
  exact ⟨⟨_, first, solid _ (all _ (List.head_mem nonempty))⟩,
    ⟨_, last, solid _ (all _ (List.getLast_mem nonempty))⟩⟩

theorem Solid.join {xs ys : List Char} (h : Solid xs) (h' : Solid ys) (mid : List Char) :
    Solid (xs ++ (mid ++ ys)) := by
  obtain ⟨c, first, solid⟩ := h.head
  obtain ⟨d, last, solid'⟩ := h'.last
  refine ⟨⟨c, ?_, solid⟩, ⟨d, ?_, solid'⟩⟩
  · rw [List.head?_append, Option.mem_def.1 first]
    rfl
  · rw [List.getLast?_append, List.getLast?_append, Option.mem_def.1 last]
    rfl

theorem trimStart_append {blanks cs : List Char} (blank : blanks.all isBlank = true)
    (solid : ∃ c ∈ cs.head?, isBlank c = false) : trimStart (blanks ++ cs) = cs := by
  obtain ⟨c, first, solid⟩ := solid
  obtain ⟨rest, rfl⟩ := List.head?_eq_some_iff.1 first
  rw [trimStart, List.dropWhile_append_of_pos (List.all_eq_true.1 blank),
    List.dropWhile_cons_of_neg (Bool.eq_false_iff.1 solid)]

theorem Padded.trim_eq {inside cs : List Char} (h : Padded inside cs) (solid : Solid inside) :
    trim cs = inside := by
  obtain ⟨before, after, rfl, blank, blank'⟩ := h
  obtain ⟨c, last, solid'⟩ := solid.last
  have start : trimStart (before ++ (inside ++ after)) = inside ++ after := by
    obtain ⟨d, first, solid⟩ := solid.head
    refine trimStart_append blank ⟨d, ?_, solid⟩
    rw [List.head?_append, Option.mem_def.1 first]
    rfl
  have stop : trimStart (after.reverse ++ inside.reverse) = inside.reverse :=
    trimStart_append (by rw [List.all_reverse, blank']) ⟨c, by rwa [List.head?_reverse], solid'⟩
  rw [trim, start, trimEnd, List.reverse_append, ← trimStart, stop, List.reverse_reverse]

theorem isEmpty_trim_iff {cs : List Char} :
    (trim cs).isEmpty = true ↔ cs.all isBlank = true := by
  constructor
  · intro empty
    obtain ⟨before, after, whole, blank, blank'⟩ := padded_trim cs
    rw [whole, List.isEmpty_iff.1 empty, List.nil_append, List.all_append, blank, blank']
    rfl
  · intro blank
    rw [trim, trimStart, List.dropWhile_eq_nil_iff.2 (List.all_eq_true.1 blank)]
    rfl

/-! ## Cutting texts at separators -/

theorem dropStart?_append (start rest : List Char) : dropStart? start (start ++ rest) = some rest := by
  induction start with
  | nil => rfl
  | cons s start ih => rw [List.cons_append, dropStart?, if_pos rfl, ih]

theorem dropStart?_cons_of_ne {s c : Char} (other : s ≠ c) (start cs : List Char) :
    dropStart? (s :: start) (c :: cs) = none := by
  rw [dropStart?, if_neg other]

theorem cutAt?_of_not_mem {s : Char} {separator cs : List Char} (free : s ∉ cs) :
    cutAt? (s :: separator) cs = none := by
  induction cs with
  | nil => rfl
  | cons c cs ih =>
    rw [List.mem_cons, not_or] at free
    rw [cutAt?, dropStart?_cons_of_ne free.1, ih free.2]
    rfl

theorem cutAt?_append {s : Char} {separator before : List Char} (free : s ∉ before)
    (after : List Char) :
    cutAt? (s :: separator) (before ++ (s :: separator ++ after)) = some (before, after) := by
  induction before with
  | nil =>
    have found := dropStart?_append (s :: separator) after
    rw [List.cons_append] at found
    rw [List.nil_append, List.cons_append, cutAt?, found]
  | cons c before ih =>
    rw [List.mem_cons, not_or] at free
    rw [List.cons_append, cutAt?, dropStart?_cons_of_ne free.1, ih free.2]
    rfl

theorem splitOn_of_not_mem {separator : Char} {cs : List Char} (free : separator ∉ cs) :
    splitOn separator cs = [cs] := by
  induction cs with
  | nil => rfl
  | cons c cs ih =>
    rw [List.mem_cons, not_or] at free
    rw [splitOn, if_neg fun same => free.1 same.symm, ih free.2]

theorem splitOn_append {separator : Char} {cs : List Char} (free : separator ∉ cs)
    (rest : List Char) :
    splitOn separator (cs ++ separator :: rest) = cs :: splitOn separator rest := by
  induction cs with
  | nil => rw [List.nil_append, splitOn, if_pos rfl]
  | cons c cs ih =>
    rw [List.mem_cons, not_or] at free
    rw [List.cons_append, splitOn, if_neg fun same => free.1 same.symm, ih free.2]

end Text

namespace AccountToken

/-! ## Listed items -/

section Listed

variable {α : Type} {written written' : α → List Char → Prop} {as : List α} {content : List Char}

theorem Listed.forall₂_splitOn (h : Listed written as content)
    (free : ∀ a cs, written a cs → ',' ∉ cs) :
    List.Forall₂ (fun cs a => written a cs) (splitOn ',' content) as := by
  induction h with
  | last item =>
    rw [splitOn_of_not_mem (free _ _ item)]
    exact .cons item .nil
  | next item _ ih =>
    rw [splitOn_append (free _ _ item)]
    exact .cons item ih

theorem listed_flatMap {piece : List Char} {pieces : List (List Char)}
    (each : List.Forall₂ (fun cs a => written a cs) (piece :: pieces) as) :
    Listed written as (piece ++ pieces.flatMap (',' :: ·)) := by
  induction pieces generalizing piece as with
  | nil =>
    cases each with
    | cons item rest =>
      cases rest
      rw [List.flatMap_nil, List.append_nil]
      exact .last item
  | cons next pieces ih =>
    cases each with
    | cons item rest => exact .next item (ih rest)

theorem listed_of_splitOn
    (each : List.Forall₂ (fun cs a => written a cs) (splitOn ',' content) as) :
    Listed written as content := by
  obtain ⟨piece, pieces, cut⟩ := List.exists_cons_of_ne_nil (splitOn_ne_nil ',' content)
  rw [eq_of_splitOn cut]
  rw [cut] at each
  exact listed_flatMap each

theorem Listed.not_blank (h : Listed written as content)
    (solid : ∀ a cs, written a cs → cs.all isBlank = false) : content.all isBlank = false := by
  cases h with
  | last item => exact solid _ _ item
  | next item _ => rw [List.all_append, solid _ _ item, Bool.false_and]

end Listed

/-! ## Closed texts -/

/-- Every quoted text is closed, and outside of quoted texts there is no mark; `quote` is that of
the quoted text in which the text starts. -/
def Closed (mark : Char → Bool) : (quote : Option Char) → List Char → Prop
  | none, [] => True
  | some _, [] => False
  | some q, c :: cs => Closed mark (if c = q then none else some q) cs
  | none, c :: cs => mark c = false ∧ Closed mark (if isQuote c then some c else none) cs

section Closed

variable {mark : Char → Bool} {quote : Option Char} {xs ys cs : List Char}

theorem closed_cons_some {q c : Char} :
    Closed mark (some q) (c :: cs) ↔ Closed mark (if c = q then none else some q) cs :=
  Iff.rfl

theorem Closed.append (h : Closed mark quote xs) (h' : Closed mark none ys) :
    Closed mark quote (xs ++ ys) := by
  induction xs generalizing quote with
  | nil =>
    cases quote with
    | none => exact h'
    | some q => exact h.elim
  | cons c xs ih =>
    cases quote with
    | none => exact ⟨h.1, ih h.2⟩
    | some q => exact ih (closed_cons_some.1 h)

/-- A text in quotes that it does not contain. -/
theorem closed_quoted {q : Char} (quote : isQuote q = true) (unmarked : mark q = false)
    (free : q ∉ cs) : Closed mark none (q :: (cs ++ [q])) := by
  refine ⟨unmarked, ?_⟩
  rw [if_pos quote]
  induction cs with
  | nil =>
    rw [List.nil_append, Closed, if_pos rfl]
    trivial
  | cons c cs ih =>
    rw [List.mem_cons, not_or] at free
    rw [List.cons_append, Closed, if_neg fun same => free.1 same.symm]
    exact ih free.2

/-- The brackets that open and close a part of an account token. -/
def isBracket (c : Char) : Bool :=
  c == '[' || c == ']'

/-- What does not hold of either quote does not hold of a quote. -/
theorem eq_false_of_isQuote {p : Char → Bool} (single : p '\'' = false) (double : p '"' = false)
    {q : Char} (quote : isQuote q = true) : p q = false := by
  rcases Bool.or_eq_true_iff.1 quote with same | same <;>
    · rw [beq_iff_eq] at same
      subst same
      assumption

/-- The characters that separate the parts of account tokens. -/
def marks : List Char :=
  ['\'', '"', '[', ']', ',']

/-- The text has no character that separates parts of account tokens. -/
def Unmarked (cs : List Char) : Prop :=
  ∀ c ∈ cs, c ∉ marks

theorem unmarked_of_all {p : Char → Bool} (others : ∀ c ∈ marks, p c = false)
    (all : cs.all p = true) : Unmarked cs := by
  intro c member mark
  have own := others c mark
  rw [List.all_eq_true.1 all c member] at own
  cases own

theorem Unmarked.append (h : Unmarked xs) (h' : Unmarked ys) : Unmarked (xs ++ ys) :=
  fun c member => (List.mem_append.1 member).elim (h c) (h' c)

theorem unmarked_of_blank (blank : cs.all isBlank = true) : Unmarked cs :=
  unmarked_of_all (by simp [marks, isBlank, blankRanges]) blank

theorem unmarked_of_padded (h : Padded xs cs) (unmarked : Unmarked xs) : Unmarked cs := by
  obtain ⟨before, after, rfl, blank, blank'⟩ := h
  exact (unmarked_of_blank blank).append (unmarked.append (unmarked_of_blank blank'))

theorem Unmarked.closed (h : Unmarked cs) (known : ∀ c, mark c = true → c ∈ marks) :
    Closed mark none cs := by
  induction cs with
  | nil => trivial
  | cons c cs ih =>
    have own := h c List.mem_cons_self
    have plain : isQuote c = false := by
      rw [isQuote, Bool.or_eq_false_iff, beq_eq_false_iff_ne, beq_eq_false_iff_ne]
      constructor <;> rintro rfl <;> exact absurd own (by decide)
    refine ⟨Bool.eq_false_iff.2 fun marked => own (known c marked), ?_⟩
    rw [plain]
    exact ih fun d member => h d (List.mem_cons_of_mem _ member)

theorem isBracket_mem (c : Char) (h : isBracket c = true) : c ∈ marks := by
  rcases Bool.or_eq_true_iff.1 h with same | same <;>
    · rw [beq_iff_eq] at same
      subst same
      decide

theorem comma_mem (c : Char) (h : (c == ',') = true) : c ∈ marks := by
  rw [beq_iff_eq] at h
  subst h
  decide

/-- What is closed stands between brackets. -/
theorem takeBrackets?_of_closed (h : Closed isBracket quote cs) (rest : List Char) :
    takeBrackets? quote (cs ++ ']' :: rest) = some (cs, rest) := by
  induction cs generalizing quote with
  | nil =>
    cases quote with
    | none => rfl
    | some q => exact h.elim
  | cons c cs ih =>
    cases quote with
    | some q =>
      rw [List.cons_append, takeBrackets?, ih (closed_cons_some.1 h)]
      rfl
    | none =>
      obtain ⟨unmarked, rest'⟩ := h
      rw [isBracket, Bool.or_eq_false_iff, beq_eq_false_iff_ne, beq_eq_false_iff_ne] at unmarked
      rw [List.cons_append, takeBrackets?, if_neg unmarked.1, if_neg unmarked.2]
      split at rest' <;> rename_i own
      · rw [if_pos own, ih rest']
        rfl
      · rw [if_neg own, ih rest']
        rfl

theorem splitItems_of_closed (h : Closed (· == ',') quote cs) : splitItems quote cs = [cs] := by
  induction cs generalizing quote with
  | nil => rfl
  | cons c cs ih =>
    cases quote with
    | some q =>
      have rest := ih (closed_cons_some.1 h)
      simp only [splitItems, Option.isNone_some, Bool.false_and, Bool.false_eq_true, if_false, rest]
    | none =>
      have rest := ih h.2
      simp only [splitItems, h.1, Bool.and_false, Bool.false_eq_true, if_false, rest]

theorem splitItems_append (h : Closed (· == ',') quote cs) (rest : List Char) :
    splitItems quote (cs ++ ',' :: rest) = cs :: splitItems none rest := by
  induction cs generalizing quote with
  | nil =>
    cases quote with
    | none => rfl
    | some q => exact h.elim
  | cons c cs ih =>
    cases quote with
    | some q =>
      have more := ih (closed_cons_some.1 h)
      simp only [List.cons_append, splitItems, Option.isNone_some, Bool.false_and,
        Bool.false_eq_true, if_false, more]
    | none =>
      have more := ih h.2
      simp only [List.cons_append, splitItems, h.1, Bool.and_false, Bool.false_eq_true, if_false,
        more]

theorem Listed.forall₂_splitItems {α : Type} {written : α → List Char → Prop} {as : List α}
    (h : Listed written as cs) (closed : ∀ a cs, written a cs → Closed (· == ',') none cs) :
    List.Forall₂ (fun cs a => written a cs) (splitItems none cs) as := by
  induction h with
  | last item =>
    rw [splitItems_of_closed (closed _ _ item)]
    exact .cons item .nil
  | next item _ ih =>
    rw [splitItems_append (closed _ _ item)]
    exact .cons item ih

theorem Listed.closed {α : Type} {written : α → List Char → Prop} {as : List α}
    (h : Listed written as cs) (closed : ∀ a cs, written a cs → Closed mark none cs)
    (comma : mark ',' = false) : Closed mark none cs := by
  induction h with
  | last item => exact closed _ _ item
  | next item _ ih => exact (closed _ _ item).append ⟨comma, ih⟩

end Closed

end AccountToken

end KpiReport
