import KpiReport.Decimal.Numeral
import KpiReport.Text.Blank
import KpiReport.Text.Identifier

/-!
# Tokens of formulas

A formula is cut into numbers, quoted texts, names and punctuation, blank characters between them
being skipped. `Token.ofChars` recurses on what is left of the formula: every token takes at least
one character (`length_next_le`).
-/

namespace KpiReport

open KpiReport.Decimal
open KpiReport.Text

/-- The punctuation of formulas. -/
inductive Punct where
  | plus
  | minus
  | times
  | divide
  | modulo
  | power
  | equal
  | notEqual
  | less
  | lessEqual
  | greater
  | greaterEqual
  | openParen
  | closeParen
  | openBracket
  | closeBracket
  | comma
  | dot
  deriving DecidableEq, Repr

namespace Punct

/-- How a punctuation mark is written. -/
def symbol : Punct → String
  | plus => "+"
  | minus => "-"
  | times => "*"
  | divide => "/"
  | modulo => "%"
  | power => "**"
  | equal => "=="
  | notEqual => "!="
  | less => "<"
  | lessEqual => "<="
  | greater => ">"
  | greaterEqual => ">="
  | openParen => "("
  | closeParen => ")"
  | openBracket => "["
  | closeBracket => "]"
  | comma => ","
  | dot => "."

/-- The mark of two characters. -/
def ofPair? : Char → Char → Option Punct
  | '*', '*' => some power
  | '=', '=' => some equal
  | '!', '=' => some notEqual
  | '<', '=' => some lessEqual
  | '>', '=' => some greaterEqual
  | _, _ => none

/-- The mark of one character. -/
def ofChar? : Char → Option Punct
  | '+' => some plus
  | '-' => some minus
  | '*' => some times
  | '/' => some divide
  | '%' => some modulo
  | '(' => some openParen
  | ')' => some closeParen
  | '[' => some openBracket
  | ']' => some closeBracket
  | ',' => some comma
  | '.' => some dot
  | '<' => some less
  | '>' => some greater
  | _ => none

end Punct

/-- A token of a formula. -/
inductive Token where
  | number (x : Float)
  | text (s : String)
  | name (s : String)
  | punct (p : Punct)
  deriving DecidableEq

namespace Token

/-- How a token is named in messages. -/
def describe : Token → String
  | number x => "number " ++ shortest x
  | text s => "string '" ++ s ++ "'"
  | name s => "'" ++ s ++ "'"
  | punct p => "'" ++ p.symbol ++ "'"

end Token

/-- Why a text is no formula. -/
inductive SyntaxFault where
  | emptyFormula
  | unterminatedText
  | unexpectedCharacter (c : Char)
  | unexpectedEnd
  | unexpectedKeyword (word : String)
  | unexpectedToken (token : Token)
  /-- Another token than the expected one, or the end of the formula. -/
  | expected (wanted : String) (found : Option Token)
  | missingAttributeName
  | notCallable
  deriving DecidableEq

/-- The wording of a fault. -/
def SyntaxFault.message : SyntaxFault → String
  | emptyFormula => "empty expression"
  | unterminatedText => "unterminated string"
  | unexpectedCharacter c => "unexpected character '" ++ String.ofList [c] ++ "'"
  | unexpectedEnd => "unexpected end of expression"
  | unexpectedKeyword word => "unexpected keyword '" ++ word ++ "'"
  | unexpectedToken token => "unexpected " ++ token.describe
  | expected wanted found =>
    "expected '" ++ wanted ++ "', found " ++ (found.map Token.describe).getD "end of expression"
  | missingAttributeName => "expected attribute name after '.'"
  | notCallable => "only builtin functions can be called"

namespace Token

/-- Takes decimal places: a point counts only before a digit. -/
def takePlaces : List Char → List Char × List Char
  | '.' :: d :: cs => if d.isDigit then takeDigits (d :: cs) else ([], '.' :: d :: cs)
  | cs => ([], cs)

/-- Takes an exponent: the letter counts only before a digit, or a sign and a digit. -/
def takeExponent : List Char → Int × List Char
  | [] => (0, [])
  | e :: cs =>
    if e = 'e' ∨ e = 'E' then
      match takeSign cs with
      | (negative, rest) =>
        match takeDigits rest with
        | ([], _) => (0, e :: cs)
        | (ds, rest) => (if negative then -(ofDigits ds : Int) else ofDigits ds, rest)
    else (0, e :: cs)

/-- Takes a number literal at the start of a text. -/
def takeNumber (cs : List Char) : Float × List Char :=
  let whole := takeDigits cs
  let places := takePlaces whole.2
  let exponent := takeExponent places.2
  (ofPlaces whole.1 places.1 exponent.1, exponent.2)

/-- The character that stands for a backslash and `c` in a quoted text. -/
def unescape (c : Char) : Char :=
  if c = 'n' then '\n' else if c = 't' then '\t' else c

/-- Takes the inside of a quoted text up to its closing quote. -/
def takeQuoted (quote : Char) : List Char → Except SyntaxFault (List Char × List Char)
  | [] => .error .unterminatedText
  | c :: cs =>
    if c = quote then .ok ([], cs)
    else if c = '\\' then
      match cs with
      | [] => .error .unterminatedText
      | e :: cs => (takeQuoted quote cs).map fun (inside, rest) => (unescape e :: inside, rest)
    else (takeQuoted quote cs).map fun (inside, rest) => (c :: inside, rest)

/-- Takes a punctuation mark, the longer one where two characters form one. -/
def takePunct (c : Char) (cs : List Char) : Except SyntaxFault (Token × List Char) :=
  match cs.head?.bind (Punct.ofPair? c) with
  | some p => .ok (.punct p, cs.tail)
  | none =>
    match Punct.ofChar? c with
    | some p => .ok (.punct p, cs)
    | none => .error (.unexpectedCharacter c)

/-- The token that starts with the character `c`, which is not blank, and what follows it. -/
def next (c : Char) (cs : List Char) : Except SyntaxFault (Token × List Char) :=
  if c.isDigit then
    let number := takeNumber (c :: cs)
    .ok (.number number.1, number.2)
  else if isIdentStart c then
    .ok (.name (String.ofList (c :: cs.takeWhile isIdentChar)), cs.dropWhile isIdentChar)
  else if c = '\'' ∨ c = '"' then
    (takeQuoted c cs).map fun (inside, rest) => (.text (String.ofList inside), rest)
  else takePunct c cs

theorem length_takeDigits_le (cs : List Char) : (takeDigits cs).2.length ≤ cs.length :=
  (List.dropWhile_sublist _).length_le

theorem length_takePlaces_le (cs : List Char) : (takePlaces cs).2.length ≤ cs.length := by
  unfold takePlaces
  split
  · split
    · exact Nat.le_trans (length_takeDigits_le _) (Nat.le_succ _)
    · exact Nat.le_refl _
  · exact Nat.le_refl _

theorem length_takeSign_le (cs : List Char) : (takeSign cs).2.length ≤ cs.length := by
  unfold takeSign
  split <;> simp

theorem length_takeExponent_le (cs : List Char) : (takeExponent cs).2.length ≤ cs.length := by
  unfold takeExponent
  split
  · exact Nat.le_refl _
  · rename_i e cs
    have sign := length_takeSign_le cs
    split
    · split
      rename_i rest h
      have digits := length_takeDigits_le rest
      rw [h] at sign
      split
      · exact Nat.le_refl _
      · rename_i h'
        simp only [h', List.length_cons] at digits sign ⊢
        omega
    · exact Nat.le_refl _

theorem length_takeNumber_lt {c : Char} (cs : List Char) (h : c.isDigit = true) :
    (takeNumber (c :: cs)).2.length ≤ cs.length := by
  have whole : (takeDigits (c :: cs)).2.length ≤ cs.length := by
    simp only [takeDigits, List.dropWhile_cons, h, if_true]
    exact (List.dropWhile_sublist _).length_le
  exact Nat.le_trans (length_takeExponent_le _) (Nat.le_trans (length_takePlaces_le _) whole)

theorem length_takeQuoted_lt {quote : Char} {cs inside rest : List Char}
    (h : takeQuoted quote cs = .ok (inside, rest)) : rest.length < cs.length := by
  fun_induction takeQuoted quote cs generalizing inside with
  | case1 => simp at h
  | case2 cs => simp_all
  | case3 => simp at h
  | case4 e cs _ ih =>
    cases hq : takeQuoted quote cs with
    | error fault => simp [hq, Except.map] at h
    | ok r =>
      simp only [hq, Except.map, Except.ok.injEq, Prod.mk.injEq] at h
      have := @ih r.1 (by rw [hq, ← h.2])
      simp only [List.length_cons]
      omega
  | case5 c cs _ _ ih =>
    cases hq : takeQuoted quote cs with
    | error fault => simp [hq, Except.map] at h
    | ok r =>
      simp only [hq, Except.map, Except.ok.injEq, Prod.mk.injEq] at h
      have := @ih r.1 (by rw [hq, ← h.2])
      simp only [List.length_cons]
      omega

theorem length_next_le {c : Char} {cs rest : List Char} {token : Token}
    (h : next c cs = .ok (token, rest)) : rest.length ≤ cs.length := by
  unfold next at h
  split at h
  · rename_i digit
    cases h
    exact length_takeNumber_lt cs digit
  · split at h
    · cases h
      exact (List.dropWhile_sublist _).length_le
    · split at h
      · cases hq : takeQuoted c cs with
        | error fault => simp [hq, Except.map] at h
        | ok r =>
          simp only [hq, Except.map, Except.ok.injEq, Prod.mk.injEq] at h
          have := length_takeQuoted_lt hq
          rw [← h.2]
          omega
      · unfold takePunct at h
        split at h
        · cases h
          simp
        · split at h
          · cases h
            exact Nat.le_refl _
          · simp at h

/-- The tokens of a text. -/
def ofChars (cs : List Char) : Except SyntaxFault (List Token) :=
  match cs with
  | [] => .ok []
  | c :: cs =>
    if isBlank c then ofChars cs
    else
      match _h : next c cs with
      | .error fault => .error fault
      | .ok (token, rest) => (ofChars rest).map (token :: ·)
termination_by cs.length
decreasing_by
  · simp
  · have := length_next_le _h
    simp only [List.length_cons]
    omega

/-- The tokens of a formula. -/
def ofText (formula : String) : Except SyntaxFault (List Token) :=
  ofChars formula.toList

end Token

end KpiReport
