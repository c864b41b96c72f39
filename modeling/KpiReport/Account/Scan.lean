import KpiReport.Account.Token

/-!
# Finding account tokens

`AccountToken.scan` cuts a formula into account tokens and the characters between them. A token
starts at the start of a word that follows neither a word nor a dot, outside quoted texts: a side
(`bal`, `crd`, `deb`), an optional mode (`p`, `i`, `e`), then an underscore and a code, or selectors
in brackets; an inline filter in brackets may follow.
-/

namespace KpiReport

open KpiReport.Text

/-- A character of a formula outside account tokens, or an account token. -/
inductive Piece where
  | plain (c : Char)
  | token (token : AccountToken)

/-- The token of a piece. -/
def Piece.token? : Piece → Option AccountToken
  | plain _ => none
  | token t => some t

/-- The text that a piece is written as. -/
def Piece.chars : Piece → List Char
  | plain c => [c]
  | token t => t.text.toList

namespace AccountToken

/-- Whether `c` opens and closes quoted texts. -/
def isQuote (c : Char) : Bool :=
  c == '\'' || c == '"'

/-! ## The head of a token -/

/-- The word that starts a token: its side, its mode, and the code of the short form. -/
structure Head where
  side : Side
  mode : Mode
  code : Option (List Char)
  deriving DecidableEq, Repr

/-- The side at the start of a word, and what follows it. -/
def takeSide? : List Char → Option (Side × List Char)
  | 'b' :: 'a' :: 'l' :: rest => some (.balance, rest)
  | 'c' :: 'r' :: 'd' :: rest => some (.credit, rest)
  | 'd' :: 'e' :: 'b' :: rest => some (.debit, rest)
  | _ => none

/-- The mode that a letter stands for. -/
def modeOf? : Char → Option Mode
  | 'p' => some .variation
  | 'i' => some .initial
  | 'e' => some .ending
  | _ => none

/-- The head that ends with an underscore and a code, which must start with a digit. -/
def shortHead? (side : Side) (mode : Mode) (code : List Char) : Option Head :=
  match code with
  | d :: _ => if d.isDigit then some ⟨side, mode, some code⟩ else none
  | [] => none

/-- The head that a word writes, if it writes one. -/
def head? (word : List Char) : Option Head := do
  let (side, rest) ← takeSide? word
  match rest with
  | [] => some ⟨side, .variation, none⟩
  | '_' :: code => shortHead? side .variation code
  | letter :: rest =>
    let mode ← modeOf? letter
    match rest with
    | [] => some ⟨side, mode, none⟩
    | '_' :: code => shortHead? side mode code
    | _ => none

/-! ## Brackets -/

/-- Takes the inside of brackets up to the closing one, brackets inside quotes not counting; there
is no opening bracket inside. -/
def takeBrackets? (quote : Option Char) : List Char → Option (List Char × List Char)
  | [] => none
  | c :: cs =>
    match quote with
    | some q => prepend c (takeBrackets? (if c = q then none else some q) cs)
    | none =>
      if isQuote c then prepend c (takeBrackets? (some c) cs)
      else if c = ']' then some ([], cs)
      else if c = '[' then none
      else prepend c (takeBrackets? none cs)
where
  /-- Puts a character in front of what was taken. -/
  prepend (c : Char) (taken : Option (List Char × List Char)) : Option (List Char × List Char) :=
    taken.map fun (inside, rest) => (c :: inside, rest)

theorem length_takeBrackets_lt {quote : Option Char} {cs inside rest : List Char}
    (h : takeBrackets? quote cs = some (inside, rest)) : rest.length < cs.length := by
  induction cs generalizing quote inside with
  | nil => simp [takeBrackets?] at h
  | cons c cs ih =>
    have step {quote : Option Char}
        (h : takeBrackets?.prepend c (takeBrackets? quote cs) = some (inside, rest)) :
        rest.length < (c :: cs).length := by
      simp only [takeBrackets?.prepend, Option.map_eq_some_iff] at h
      obtain ⟨taken, found, same⟩ := h
      cases same
      exact Nat.lt_succ_of_lt (ih found)
    unfold takeBrackets? at h
    split at h
    · exact step h
    · split at h
      · exact step h
      · split at h
        · cases h
          simp
        · split at h
          · simp at h
          · exact step h

/-! ## Selectors -/

/-- Whether a text is an account code. -/
def isCode (code : List Char) : Bool :=
  !code.isEmpty && code.all isIdentChar

/-- Whether a text is an account pattern. -/
def isPattern (pattern : List Char) : Bool :=
  pattern.all fun c => c == '%' || isIdentChar c

/-- Reads one selector, its ends free of blank characters. -/
def selectorOf (item : List Char) : Except TokenFault Selector :=
  let shown := String.ofList item
  if item.isEmpty then .error .emptySelector
  else
    match (cutAt? ['.', '.'] item).or (cutAt? ['-'] item) with
    | some (first, last) =>
      let (first, last) := (trim first, trim last)
      if !isCode first || !isCode last then .error (.invalidRange shown)
      else
        let range := Selector.range (String.ofList first) (String.ofList last)
        if range.isWellFormed then .ok range else .error (.reversedRange shown)
    | none =>
      if item.contains '%' then
        if isPattern item then .ok (.pattern shown) else .error (.invalidPattern shown)
      else if isCode item then .ok (.code shown)
      else .error (.invalidCode shown)

/-- Reads the selectors between brackets; blank brackets select all accounts. -/
def selectorsOf (content : List Char) : Except TokenFault (List Selector) :=
  if (trim content).isEmpty then .ok [.all]
  else (splitOn ',' content).mapM fun item => selectorOf (trim item)

/-! ## Inline filters -/

/-- The pieces of a text between commas outside quotes. -/
def splitItems (quote : Option Char) : List Char → List (List Char)
  | [] => [[]]
  | c :: cs =>
    if quote.isNone && c == ',' then [] :: splitItems none cs
    else
      let quote :=
        match quote with
        | some q => if c = q then none else some q
        | none => if isQuote c then some c else none
      match splitItems quote cs with
      | [] => [[c]]
      | item :: items => (c :: item) :: items

/-- The inside of a text that starts and ends with one and the same quote. -/
def unquote? : List Char → Option (List Char)
  | q :: c :: cs =>
    if isQuote q && (c :: cs).getLast? == some q then some (c :: cs).dropLast else none
  | _ => none

/-- Reads the value of a filter item: a quoted text, a truth value or a number. -/
def filterValueOf (value : List Char) : Except TokenFault FieldValue :=
  let value := trim value
  match unquote? value with
  | some inside => .ok (.text (String.ofList inside))
  | none =>
    let word := String.ofList value
    if word = "true" ∨ word = "True" then .ok (.bool true)
    else if word = "false" ∨ word = "False" then .ok (.bool false)
    else
      match Decimal.ofText? value with
      | some x => .ok (.number x)
      | none => .error (.invalidFilterValue word)

/-- The comparison at the start of a text, and what follows it. -/
def takeFilterOp? : List Char → Option (FilterOp × List Char)
  | '=' :: '=' :: rest => some (.eq, rest)
  | '!' :: '=' :: rest => some (.ne, rest)
  | '<' :: '=' :: rest => some (.le, rest)
  | '>' :: '=' :: rest => some (.ge, rest)
  | '=' :: rest => some (.eq, rest)
  | '<' :: rest => some (.lt, rest)
  | '>' :: rest => some (.gt, rest)
  | _ => none

/-- Reads one item of an inline filter, its ends free of blank characters. -/
def filterItemOf (item : List Char) : Except TokenFault Condition :=
  let shown := String.ofList item
  let field := item.takeWhile isIdentChar
  match field with
  | [] => .error (.invalidFilterItem shown)
  | c :: _ =>
    if !isIdentStart c then .error (.invalidFilterItem shown)
    else
      match takeFilterOp? (trimStart (item.dropWhile isIdentChar)) with
      | none => .error (.missingOperator shown)
      | some (op, value) =>
        (filterValueOf value).map fun value => .field (String.ofList field) op value

/-- Reads the inline filter between brackets; blank brackets hold no condition. -/
def inlineFilterOf (content : List Char) : Except TokenFault Filter :=
  if (trim content).isEmpty then .ok []
  else (splitItems none content).mapM fun item => filterItemOf (trim item)

/-! ## Tokens -/

/-- The failure of a token with a text. -/
def malformed (text : List Char) (fault : TokenFault) : ReportError :=
  .malformedToken (String.ofList text) fault

/-- The token with a head and selectors, `text` being what was read of it, and what follows it:
first the inline filter is read, if brackets follow. -/
def withFilter (head : Head) (selectors : List Selector) (text rest : List Char) :
    Result (AccountToken × List Char) :=
  match rest with
  | '[' :: cs =>
    match takeBrackets? none cs with
    | none => .error (malformed (text ++ rest) .unbalancedBrackets)
    | some (content, rest) =>
      let text := text ++ '[' :: (content ++ [']'])
      match inlineFilterOf content with
      | .error fault => .error (malformed text fault)
      | .ok filter => .ok (⟨String.ofList text, head.side, head.mode, selectors, filter⟩, rest)
  | rest => .ok (⟨String.ofList text, head.side, head.mode, selectors, []⟩, rest)

/-- Takes the account token at the start of a text that starts with a word; none where the word
starts no token. -/
def take? (cs : List Char) : Result (Option (AccountToken × List Char)) :=
  let word := cs.takeWhile isIdentChar
  let rest := cs.dropWhile isIdentChar
  match head? word with
  | none => .ok none
  | some head =>
    match head.code with
    | some code => (withFilter head [.code (String.ofList code)] word rest).map some
    | none =>
      match rest with
      | '[' :: inner =>
        match takeBrackets? none inner with
        | none => .error (malformed cs .unbalancedBrackets)
        | some (content, rest) =>
          let text := word ++ '[' :: (content ++ [']'])
          match selectorsOf content with
          | .error fault => .error (malformed text fault)
          | .ok selectors => (withFilter head selectors text rest).map some
      | _ => .ok none

theorem length_withFilter_le {head : Head} {selectors : List Selector} {text rest after : List Char}
    {token : AccountToken} (h : withFilter head selectors text rest = .ok (token, after)) :
    after.length ≤ rest.length := by
  unfold withFilter at h
  split at h
  · split at h
    · simp at h
    · rename_i found
      have shorter := length_takeBrackets_lt found
      dsimp only at h
      split at h
      · simp at h
      · cases h
        simp only [List.length_cons]
        omega
  · cases h
    exact Nat.le_refl _

theorem head?_nil : head? [] = none := rfl

theorem length_take_lt {cs after : List Char} {token : AccountToken}
    (h : take? cs = .ok (some (token, after))) : after.length < cs.length := by
  have split_length : (cs.takeWhile isIdentChar).length + (cs.dropWhile isIdentChar).length =
      cs.length := by
    rw [← List.length_append, List.takeWhile_append_dropWhile]
  unfold take? at h
  dsimp only at h
  split at h
  · simp at h
  · rename_i head found
    have word_pos : 0 < (cs.takeWhile isIdentChar).length := by
      cases hw : cs.takeWhile isIdentChar with
      | nil => simp [hw, head?_nil] at found
      | cons => simp
    split at h
    · rename_i code _
      cases hf : withFilter head [.code (String.ofList code)] (cs.takeWhile isIdentChar)
          (cs.dropWhile isIdentChar) with
      | error e => simp [hf, Except.map] at h
      | ok taken =>
        simp only [hf, Except.map, Except.ok.injEq, Option.some.injEq] at h
        have := length_withFilter_le (hf.trans (congrArg Except.ok h))
        omega
    · split at h
      · rename_i inner hr
        split at h
        · simp at h
        · rename_i content rest hb
          have shorter := length_takeBrackets_lt hb
          split at h
          · simp at h
          · rename_i selectors _
            cases hf : withFilter head selectors
                (cs.takeWhile isIdentChar ++ '[' :: (content ++ [']'])) rest with
            | error e => simp [hf, Except.map] at h
            | ok taken =>
              simp only [hf, Except.map, Except.ok.injEq, Option.some.injEq] at h
              have := length_withFilter_le (hf.trans (congrArg Except.ok h))
              rw [hr] at split_length
              simp only [List.length_cons] at split_length
              omega
      · simp at h

/-! ## Scanning -/

/-- Whether a word starts after the character `previous`. -/
def atBoundary (previous : Option Char) : Bool :=
  match previous with
  | some c => !(isIdentChar c || c == '.')
  | none => true

/-- Cuts a text into pieces; `previous` is the character before it, and `quote` the quote of the
text that it continues. -/
def scanFrom (previous quote : Option Char) (cs : List Char) : Result (List Piece) :=
  match cs with
  | [] => .ok []
  | c :: cs =>
    match quote with
    | some q =>
      if c = '\\' then
        match cs with
        | [] => .ok [.plain c]
        | e :: cs => (scanFrom (some e) (some q) cs).map fun pieces => .plain c :: .plain e :: pieces
      else (scanFrom (some c) (if c = q then none else some q) cs).map (.plain c :: ·)
    | none =>
      if isQuote c then (scanFrom (some c) (some c) cs).map (.plain c :: ·)
      else if atBoundary previous && isIdentStart c then
        match _h : take? (c :: cs) with
        | .error e => .error e
        | .ok (some (token, rest)) =>
          (scanFrom token.text.toList.getLast? none rest).map (.token token :: ·)
        | .ok none => (scanFrom (some c) none cs).map (.plain c :: ·)
      else (scanFrom (some c) none cs).map (.plain c :: ·)
termination_by cs.length
decreasing_by
  all_goals try have := length_take_lt _h
  all_goals simp only [List.length_cons] at *
  all_goals omega

/-- Cuts a formula into account tokens and the characters between them. -/
def scan (formula : String) : Result (List Piece) :=
  scanFrom none none formula.toList

/-- The account tokens of a formula in order. -/
def tokensOf (formula : String) : Result (List AccountToken) :=
  (scan formula).map fun pieces => pieces.filterMap Piece.token?

/-- Whether a formula holds an account token; one that cannot be scanned holds none. -/
def occursIn (formula : String) : Bool :=
  match tokensOf formula with
  | .ok tokens => !tokens.isEmpty
  | .error _ => false

end AccountToken

end KpiReport
