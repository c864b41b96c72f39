import KpiReport.Proofs.Account.Substitution
import KpiReport.Proofs.Decimal.Nearest

/-!
# Tokens as they are written

A `Spelling` is one way to write a token, and a `Transcript` writes tokens one after the other with
blank characters between them. The main statement, `Token.ofText_transcript`, says that every
transcript is cut into the tokens it was made of, that a number literal gives the double nearest to
the number it writes, and that a text which cannot be cut is refused as no formula.
-/

namespace KpiReport

open KpiReport.AccountToken
open KpiReport.Decimal
open KpiReport.Text

/-! ## Characters -/

theorem isIdentChar_of_isBlank {c : Char} (blank : isBlank c = true) : isIdentChar c = false := by
  rw [Bool.eq_false_iff]
  intro inside
  rw [isBlank_of_isIdentChar inside] at blank
  cases blank

theorem isDigit_of_isBlank {c : Char} (blank : isBlank c = true) : c.isDigit = false := by
  rw [Bool.eq_false_iff]
  intro digit
  have outside := isIdentChar_of_isBlank blank
  rw [isIdentChar_of_isDigit digit] at outside
  cases outside

theorem toLower_of_isDigit {c : Char} (h : c.isDigit = true) : c.toLower = c := by
  unfold Char.toLower
  split
  · rename_i upper
    exfalso
    simp [Char.isDigit, UInt32.le_iff_toNat_le] at h upper
    omega
  · rfl

/-- A text that starts with a digit is none of the words for numbers. -/
theorem word_ne {c : Char} (digit : c.isDigit = true) (cs : List Char) {word : String} {d : Char}
    (first : word.toList.head? = some d) (letter : d.isDigit = false) :
    String.ofList ((c :: cs).map Char.toLower) ≠ word := by
  rintro rfl
  rw [String.toList_ofList, List.map_cons, toLower_of_isDigit digit] at first
  rw [Option.some.inj first, letter] at digit
  cases digit

/-! ## Number literals -/

/-- Decimal digits, at least one. -/
structure Digits where
  chars : List Char
  nonempty : chars ≠ []
  all : chars.all Char.isDigit = true

namespace Digits

variable (ds : Digits)

theorem eq_cons : ∃ c cs, ds.chars = c :: cs ∧ c.isDigit = true := by
  obtain ⟨c, cs, chars⟩ := List.exists_cons_of_ne_nil ds.nonempty
  have all := ds.all
  rw [chars, List.all_cons, Bool.and_eq_true] at all
  exact ⟨c, cs, chars, all.1⟩

theorem takeDigits_append {rest : List Char} (ends : ∀ c ∈ rest.head?, c.isDigit = false) :
    takeDigits (ds.chars ++ rest) = (ds.chars, rest) := by
  obtain ⟨digits, left⟩ := takeWhile_append_of_head ds.all ends
  rw [takeDigits, digits, left]

theorem takeSign_append (rest : List Char) :
    takeSign (ds.chars ++ rest) = (false, ds.chars ++ rest) := by
  obtain ⟨c, cs, chars, digit⟩ := ds.eq_cons
  have unsigned : ¬ (c = '-' ∨ c = '+') := by
    rintro (rfl | rfl) <;> exact absurd digit (by decide)
  rw [chars]
  exact takeSign_of_ne unsigned _

end Digits

/-- The sign of an exponent; nothing, or whether it is negative. -/
def signChars : Option Bool → List Char
  | none => []
  | some false => ['+']
  | some true => ['-']

theorem takeSign_signChars (sign : Option Bool) (ds : Digits) (rest : List Char) :
    takeSign (signChars sign ++ (ds.chars ++ rest)) = (sign == some true, ds.chars ++ rest) := by
  match sign with
  | none => exact ds.takeSign_append rest
  | some false => rfl
  | some true => rfl

/-- The exponent of a literal. -/
structure Exponent where
  letter : Char
  isLetter : letter = 'e' ∨ letter = 'E'
  sign : Option Bool
  digits : Digits

namespace Exponent

variable (e : Exponent)

/-- How the exponent is written. -/
def chars : List Char :=
  e.letter :: (signChars e.sign ++ e.digits.chars)

/-- The power of ten that the exponent stands for. -/
def power : Int :=
  if e.sign == some true then -(ofDigits e.digits.chars : Int) else ofDigits e.digits.chars

theorem takeExponent_append {rest : List Char} (ends : ∀ c ∈ rest.head?, c.isDigit = false) :
    Token.takeExponent (e.chars ++ rest) = (e.power, rest) := by
  obtain ⟨c, cs, chars, -⟩ := e.digits.eq_cons
  rw [Exponent.chars, List.cons_append, List.append_assoc, Token.takeExponent, if_pos e.isLetter,
    takeSign_signChars]
  dsimp only
  rw [e.digits.takeDigits_append ends, power, chars]

theorem exponent?_chars : exponent? e.chars = some e.power := by
  obtain ⟨c, cs, chars, -⟩ := e.digits.eq_cons
  have sign := takeSign_signChars e.sign e.digits []
  have digits : takeDigits (e.digits.chars ++ []) = (e.digits.chars, []) :=
    e.digits.takeDigits_append nofun
  rw [List.append_nil] at sign digits
  rw [Exponent.chars, exponent?, if_pos e.isLetter, sign]
  dsimp only
  rw [digits, power, chars]

end Exponent

/-- A number literal: digits, a point and decimal places if there are any, an exponent if there is
one. -/
structure Literal where
  whole : Digits
  places : Option Digits
  exponent : Option Exponent

namespace Literal

variable (l : Literal)

/-- The point and the decimal places. -/
def pointed : List Char :=
  l.places.elim [] fun ds => '.' :: ds.chars

/-- The exponent. -/
def scaled : List Char :=
  l.exponent.elim [] Exponent.chars

/-- How the literal is written. -/
def chars : List Char :=
  l.whole.chars ++ (l.pointed ++ l.scaled)

/-- The digits after the point. -/
def decimals : List Char :=
  l.places.elim [] Digits.chars

/-- The power of ten of the exponent. -/
def power : Int :=
  l.exponent.elim 0 Exponent.power

/-- The number that the literal writes. -/
def value : ℚ :=
  (ofDigits l.whole.chars + ofDigits l.decimals / 10 ^ l.decimals.length) * 10 ^ l.power

/-- The double nearest to the number that the literal writes. -/
def double : Float :=
  ofPlaces l.whole.chars l.decimals l.power

/-- The nearest double is that of the number as a whole multiple of a power of ten. -/
theorem double_eq_ofScaled :
    ∃ n power, l.double = ofScaled n power ∧ l.value = n * (10 : ℚ) ^ power := by
  refine ⟨_, _, rfl, ?_⟩
  rw [value, ofDigits_append, zpow_sub₀ (by norm_num), zpow_natCast]
  push_cast
  field_simp

theorem nearest_double : Nearest l.value l.double := by
  obtain ⟨n, power, double, value⟩ := l.double_eq_ofScaled
  rw [double, value]
  exact nearest_ofScaled n power

/-- What follows an exponent or stands in its place. -/
theorem head_scaled {rest : List Char} (ends : ∀ c ∈ rest.head?, isBlank c = true) :
    ∀ c ∈ (l.scaled ++ rest).head?, c.isDigit = false ∧ c ≠ '.' := by
  intro c first
  cases scale : l.exponent with
  | none =>
    rw [scaled, scale] at first
    have blank := ends c first
    refine ⟨isDigit_of_isBlank blank, ?_⟩
    rintro rfl
    exact absurd blank (by decide)
  | some e =>
    rw [scaled, scale] at first
    obtain rfl : e.letter = c := Option.some.inj first
    rcases e.isLetter with letter | letter <;> rw [letter] <;> decide

/-- What follows the digits before the point. -/
theorem head_pointed {rest : List Char} (ends : ∀ c ∈ rest.head?, isBlank c = true) :
    ∀ c ∈ (l.pointed ++ (l.scaled ++ rest)).head?, c.isDigit = false := by
  intro c first
  cases place : l.places with
  | none =>
    rw [pointed, place] at first
    exact (l.head_scaled ends c first).1
  | some ds =>
    rw [pointed, place] at first
    obtain rfl : '.' = c := Option.some.inj first
    decide

theorem takePlaces_append {rest : List Char} (ends : ∀ c ∈ rest.head?, isBlank c = true) :
    Token.takePlaces (l.pointed ++ (l.scaled ++ rest)) = (l.decimals, l.scaled ++ rest) := by
  have head := l.head_scaled ends
  cases place : l.places with
  | none =>
    rw [pointed, decimals, place, Option.elim_none, Option.elim_none, List.nil_append]
    cases after : l.scaled ++ rest with
    | nil => rfl
    | cons c cs =>
      rw [after] at head
      exact takePlaces_of_ne (head c rfl).2 cs
  | some ds =>
    obtain ⟨d, cs, chars, digit⟩ := ds.eq_cons
    have digits := ds.takeDigits_append fun c first => (head c first).1
    rw [pointed, decimals, place, Option.elim_some, Option.elim_some]
    rw [chars] at digits ⊢
    rw [List.cons_append, List.cons_append, Token.takePlaces, if_pos digit]
    exact digits

theorem takeExponent_append {rest : List Char} (ends : ∀ c ∈ rest.head?, isBlank c = true) :
    Token.takeExponent (l.scaled ++ rest) = (l.power, rest) := by
  have head : ∀ c ∈ rest.head?, ¬ (c = 'e' ∨ c = 'E') := by
    rintro c first (rfl | rfl) <;> exact absurd (ends _ first) (by decide)
  cases scale : l.exponent with
  | none =>
    rw [scaled, power, scale, Option.elim_none, Option.elim_none, List.nil_append]
    cases rest with
    | nil => rfl
    | cons c cs => exact takeExponent_of_ne (head c rfl) cs
  | some e =>
    rw [scaled, power, scale, Option.elim_some, Option.elim_some]
    exact e.takeExponent_append fun c first => isDigit_of_isBlank (ends c first)

/-- A literal is taken whole if a blank character or nothing follows it. -/
theorem takeNumber_append {rest : List Char} (ends : ∀ c ∈ rest.head?, isBlank c = true) :
    Token.takeNumber (l.chars ++ rest) = (l.double, rest) := by
  rw [chars, List.append_assoc, List.append_assoc, Token.takeNumber,
    l.whole.takeDigits_append (l.head_pointed ends), l.takePlaces_append ends,
    l.takeExponent_append ends]
  rfl

theorem exponent?_scaled : exponent? l.scaled = some l.power := by
  cases scale : l.exponent with
  | none =>
    rw [scaled, power, scale]
    rfl
  | some e =>
    rw [scaled, power, scale]
    exact e.exponent?_chars

theorem magnitude?_chars : magnitude? l.chars = some l.double := by
  have ends : ∀ c ∈ (l.pointed ++ (l.scaled ++ [])).head?, c.isDigit = false :=
    l.head_pointed nofun
  have head : ∀ c ∈ (l.scaled ++ []).head?, c.isDigit = false ∧ c ≠ '.' := l.head_scaled nofun
  rw [List.append_nil] at ends head
  have whole : takeDigits l.chars = (l.whole.chars, l.pointed ++ l.scaled) :=
    l.whole.takeDigits_append ends
  have read : (if (l.whole.chars.isEmpty && l.decimals.isEmpty) = true then none
      else (exponent? l.scaled).map (ofPlaces l.whole.chars l.decimals)) = some l.double := by
    rw [List.isEmpty_eq_false_iff.2 l.whole.nonempty, Bool.false_and, if_neg Bool.false_ne_true,
      l.exponent?_scaled]
    rfl
  unfold magnitude?
  rw [whole]
  cases place : l.places with
  | none =>
    have pointed : l.pointed = [] := by rw [pointed, place, Option.elim_none]
    have decimals : l.decimals = [] := by rw [decimals, place, Option.elim_none]
    rw [decimals] at read
    rw [pointed, List.nil_append]
    dsimp only
    split
    · rename_i cs dot
      rw [dot] at head
      exact absurd rfl (head '.' rfl).2
    · exact read
  | some ds =>
    have pointed : l.pointed = '.' :: ds.chars := by rw [pointed, place, Option.elim_some]
    have decimals : l.decimals = ds.chars := by rw [decimals, place, Option.elim_some]
    rw [decimals] at read
    have digits := ds.takeDigits_append fun c first => (head c first).1
    rw [pointed, List.cons_append]
    dsimp only
    split
    · rename_i cs dot
      rw [← (List.cons.inj dot).2, digits]
      exact read
    · rename_i other
      exact absurd rfl (other _)

/-- The double of a literal is the one that its text is read as. -/
theorem ofText?_chars : ofText? l.chars = some l.double := by
  obtain ⟨c, cs, chars, digit⟩ := l.whole.eq_cons
  have start : l.chars = c :: (cs ++ (l.pointed ++ l.scaled)) := by
    rw [Literal.chars, chars]
    rfl
  have unsigned : takeSign l.chars = (false, l.chars) := l.whole.takeSign_append _
  have infinite : ¬ (String.ofList (l.chars.map Char.toLower) = "inf" ∨
      String.ofList (l.chars.map Char.toLower) = "infinity") := by
    rw [start]
    exact not_or.2 ⟨word_ne digit _ (d := 'i') (by decide) (by decide),
      word_ne digit _ (d := 'i') (by decide) (by decide)⟩
  have none : String.ofList (l.chars.map Char.toLower) ≠ "nan" := by
    rw [start]
    exact word_ne digit _ (d := 'n') (by decide) (by decide)
  unfold ofText?
  rw [unsigned]
  dsimp only
  rw [if_neg infinite, if_neg none, l.magnitude?_chars]
  rfl

end Literal

/-! ## Quoted texts -/

/-- How a character is written in a text between two of the quotes. -/
def escape (quote c : Char) : List Char :=
  if c = quote ∨ c = '\\' then ['\\', c] else [c]

theorem unescape_of_escaped {quote c : Char} (isQuote : isQuote quote = true)
    (h : c = quote ∨ c = '\\') : Token.unescape c = c := by
  have others : c ≠ 'n' ∧ c ≠ 't' := by
    rcases h with rfl | rfl
    · constructor <;> rintro rfl <;> exact absurd isQuote (by decide)
    · decide
  rw [Token.unescape, if_neg others.1, if_neg others.2]

theorem takeQuoted_escaped {quote : Char} (isQuote : isQuote quote = true)
    (inside rest : List Char) :
    Token.takeQuoted quote (inside.flatMap (escape quote) ++ quote :: rest) =
      .ok (inside, rest) := by
  have solid : ¬ '\\' = quote := ne_of_isQuote isQuote (by decide)
  induction inside with
  | nil =>
    rw [List.flatMap_nil, List.nil_append, takeQuoted_cons (fun same => solid same.symm),
      if_pos rfl]
  | cons c inside ih =>
    rw [List.flatMap_cons, List.append_assoc, escape]
    by_cases special : c = quote ∨ c = '\\'
    · rw [if_pos special, List.cons_append, List.singleton_append, Token.takeQuoted, if_neg solid,
        if_pos rfl, ih, unescape_of_escaped isQuote special]
      rfl
    · rw [not_or] at special
      rw [if_neg (not_or.2 special), List.singleton_append, takeQuoted_cons special.2,
        if_neg special.1, ih]
      rfl

/-! ## One token -/

/-- A token as it is written. A quoted text stands between two of its quotes, with a backslash
before the quotes and backslashes inside. -/
inductive Spelling where
  | name (word : String) (identifier : isIdentifier word = true)
  | punct (p : Punct)
  | number (literal : Literal)
  | quoted (quote : Char) (isQuote : isQuote quote = true) (inside : String)

namespace Spelling

/-- How the token is written. -/
def chars : Spelling → List Char
  | name word _ => word.toList
  | punct p => p.symbol.toList
  | number literal => literal.chars
  | quoted quote _ inside => quote :: (inside.toList.flatMap (escape quote) ++ [quote])

/-- The token that is written. -/
def token : Spelling → Token
  | name word _ => .name word
  | punct p => .punct p
  | number literal => .number literal.double
  | quoted _ _ inside => .text inside

end Spelling

/-- No mark of two characters has a blank one. -/
theorem ofPair?_of_isBlank (c : Char) {d : Char} (blank : isBlank d = true) :
    Punct.ofPair? c d = none := by
  unfold Punct.ofPair?
  split <;> first | rfl | exact absurd blank (by decide)

section Reading

variable {rest : List Char} (ends : ∀ c ∈ rest.head?, isBlank c = true)

include ends

theorem takePunct_of_single {c : Char} {p : Punct} (single : Punct.ofChar? c = some p) :
    Token.takePunct c rest = .ok (.punct p, rest) := by
  have pair : rest.head?.bind (Punct.ofPair? c) = none :=
    Option.bind_eq_none_iff.2 fun d first => ofPair?_of_isBlank c (ends d first)
  unfold Token.takePunct
  rw [pair]
  dsimp only
  rw [single]

/-- A mark is taken whole. -/
theorem takePunct_symbol (p : Punct) :
    ∃ c cs, p.symbol.toList = c :: cs ∧ isBlank c = false ∧ isIdentChar c = false ∧
      isQuote c = false ∧ Token.takePunct c (cs ++ rest) = .ok (.punct p, rest) := by
  cases p with
  | power => exact ⟨'*', ['*'], by decide, by decide, by decide, by decide, rfl⟩
  | equal => exact ⟨'=', ['='], by decide, by decide, by decide, by decide, rfl⟩
  | notEqual => exact ⟨'!', ['='], by decide, by decide, by decide, by decide, rfl⟩
  | lessEqual => exact ⟨'<', ['='], by decide, by decide, by decide, by decide, rfl⟩
  | greaterEqual => exact ⟨'>', ['='], by decide, by decide, by decide, by decide, rfl⟩
  | _ =>
    exact ⟨_, [], rfl, by decide, by decide, by decide, takePunct_of_single ends (by decide)⟩

/-- A token is taken whole if a blank character or nothing follows it. -/
theorem Spelling.next_append (s : Spelling) :
    ∃ c cs, s.chars = c :: cs ∧ isBlank c = false ∧
      Token.next c (cs ++ rest) = .ok (s.token, rest) := by
  cases s with
  | name word identifier =>
    obtain ⟨c, cs, chars, start, all⟩ := exists_of_isIdentifier identifier
    rw [List.all_cons, Bool.and_eq_true] at all
    have stops : ∀ c ∈ rest.head?, isIdentChar c = false :=
      fun c first => isIdentChar_of_isBlank (ends c first)
    obtain ⟨taken, left⟩ := takeWhile_append_of_head all.2 stops
    refine ⟨c, cs, chars, isBlank_of_isIdentChar all.1, ?_⟩
    unfold Token.next
    rw [isDigit_of_isIdentStart start, if_neg Bool.false_ne_true, if_pos start, taken, left,
      ← chars, String.ofList_toList]
    rfl
  | punct p =>
    obtain ⟨c, cs, chars, solid, other, quote, taken⟩ := takePunct_symbol ends p
    have digit : ¬ c.isDigit = true := fun digit => by
      rw [isIdentChar_of_isDigit digit] at other
      cases other
    have start : ¬ isIdentStart c = true := fun start => by
      rw [isIdentChar_of_isIdentStart start] at other
      cases other
    have unquoted : ¬ (c = '\'' ∨ c = '"') := by simpa [isQuote] using quote
    refine ⟨c, cs, chars, solid, ?_⟩
    unfold Token.next
    rw [if_neg digit, if_neg start, if_neg unquoted]
    exact taken
  | number literal =>
    obtain ⟨c, cs, chars, digit⟩ := literal.whole.eq_cons
    have start : literal.chars = c :: (cs ++ (literal.pointed ++ literal.scaled)) := by
      rw [Literal.chars, chars]
      rfl
    have taken := literal.takeNumber_append ends
    rw [start, List.cons_append] at taken
    refine ⟨c, _, start, isBlank_of_isIdentChar (isIdentChar_of_isDigit digit), ?_⟩
    unfold Token.next
    rw [if_pos digit, taken]
    rfl
  | quoted quote isQuote inside =>
    have opening : quote = '\'' ∨ quote = '"' := by simpa [AccountToken.isQuote] using isQuote
    refine ⟨quote, _, rfl, ?_, ?_⟩
    · rcases opening with rfl | rfl <;> decide
    · have digit : ¬ quote.isDigit = true := by rcases opening with rfl | rfl <;> decide
      have start : ¬ isIdentStart quote = true := by rcases opening with rfl | rfl <;> decide
      unfold Token.next
      rw [if_neg digit, if_neg start, if_pos opening, List.append_assoc, List.singleton_append,
        takeQuoted_escaped isQuote]
      simp only [Except.map, String.ofList_toList, Spelling.token]

end Reading

/-! ## Tokens one after the other -/

/-- Blank characters. -/
structure Blanks where
  chars : List Char
  all : chars.all isBlank = true

/-- Blank characters, at least one. -/
structure Gap extends Blanks where
  nonempty : chars ≠ []

/-- Tokens that are written one after the other, each with a gap behind it apart from the last one,
which may end the text. -/
structure Transcript where
  lead : Blanks
  separated : List (Spelling × Gap)
  last : Option Spelling

namespace Transcript

variable (t : Transcript)

/-- The tokens as they are written. -/
def spellings : List Spelling :=
  t.separated.map Prod.fst ++ t.last.toList

/-- The text that is written. -/
def text : String :=
  String.ofList (t.lead.chars ++
    (t.separated.flatMap (fun written => written.1.chars ++ written.2.chars) ++
      t.last.elim [] Spelling.chars))

end Transcript

namespace Token

theorem ofChars_of_blanks (blanks : Blanks) (rest : List Char) :
    ofChars (blanks.chars ++ rest) = ofChars rest := by
  obtain ⟨cs, all⟩ := blanks
  induction cs with
  | nil => rfl
  | cons c cs ih =>
    rw [List.all_cons, Bool.and_eq_true] at all
    exact (ofChars_of_isBlank all.1 _).trans (ih all.2)

/-- The first token of a text, if a blank character or nothing follows it. -/
theorem ofChars_spelling (s : Spelling) {rest : List Char}
    (ends : ∀ c ∈ rest.head?, isBlank c = true) :
    ofChars (s.chars ++ rest) = (ofChars rest).map (s.token :: ·) := by
  obtain ⟨c, cs, chars, solid, read⟩ := s.next_append ends
  rw [chars]
  exact ofChars_of_next solid read

/-- A token with a gap behind it. -/
theorem ofChars_separated (s : Spelling) (gap : Gap) (rest : List Char) :
    ofChars (s.chars ++ gap.chars ++ rest) = (ofChars rest).map (s.token :: ·) := by
  obtain ⟨c, cs, chars⟩ := List.exists_cons_of_ne_nil gap.nonempty
  have ends : ∀ d ∈ (gap.chars ++ rest).head?, isBlank d = true := by
    have all := gap.all
    rw [chars, List.all_cons, Bool.and_eq_true] at all
    rw [chars]
    rintro d ⟨⟩
    exact all.1
  rw [List.append_assoc, ofChars_spelling s ends, ofChars_of_blanks]

theorem ofText_transcript_text (t : Transcript) :
    ofText t.text = .ok (t.spellings.map Spelling.token) := by
  obtain ⟨lead, separated, last⟩ := t
  rw [ofText, Transcript.text, String.toList_ofList, ofChars_of_blanks, Transcript.spellings]
  dsimp only
  induction separated with
  | nil =>
    rw [List.flatMap_nil, List.nil_append, List.map_nil, List.nil_append]
    cases last with
    | none => rw [Option.elim_none, ofChars, Option.toList_none, List.map_nil]
    | some s =>
      have read : ofChars (s.chars ++ []) = (ofChars []).map (s.token :: ·) :=
        ofChars_spelling s (by simp)
      rw [List.append_nil, ofChars] at read
      exact read
  | cons written separated ih =>
    rw [List.flatMap_cons, List.append_assoc, ofChars_separated, ih]
    rfl

/-! ## Texts that are no formulas -/

theorem takePlaces_suffix (cs : List Char) : (takePlaces cs).2 <:+ cs := by
  unfold takePlaces
  split
  · split
    · exact (List.dropWhile_suffix _).trans (List.suffix_cons _ _)
    · exact List.suffix_refl _
  · exact List.suffix_refl _

theorem takeSign_suffix (cs : List Char) : (takeSign cs).2 <:+ cs := by
  unfold takeSign
  split
  · exact List.suffix_cons _ _
  · exact List.suffix_cons _ _
  · exact List.suffix_refl _

theorem takeExponent_suffix (cs : List Char) : (takeExponent cs).2 <:+ cs := by
  unfold takeExponent
  split
  · exact List.suffix_refl _
  · rename_i e cs
    split
    · split
      rename_i negative rest signed
      have sign := takeSign_suffix cs
      rw [signed] at sign
      split
      · exact List.suffix_refl _
      · rename_i ds left _ digits
        have taken : left <:+ rest := by
          have taken : (takeDigits rest).2 <:+ rest := List.dropWhile_suffix _
          rwa [digits] at taken
        exact (taken.trans sign).trans (List.suffix_cons _ _)
    · exact List.suffix_refl _

theorem takeNumber_suffix {c : Char} (digit : c.isDigit = true) (cs : List Char) :
    (takeNumber (c :: cs)).2 <:+ cs := by
  have whole : (takeDigits (c :: cs)).2 <:+ cs := by
    rw [takeDigits_cons digit]
    exact List.dropWhile_suffix _
  exact ((takeExponent_suffix _).trans (takePlaces_suffix _)).trans whole

/-- A quoted text is taken from the start of a text, and it fails for the lack of a quote only. -/
theorem takeQuoted_cases (quote : Char) (cs : List Char) :
    takeQuoted quote cs = .error .unterminatedText ∨
      ∃ inside rest, takeQuoted quote cs = .ok (inside, rest) ∧ rest <:+ cs := by
  fun_induction takeQuoted quote cs with
  | case1 => exact .inl rfl
  | case2 cs => exact .inr ⟨_, _, rfl, List.suffix_cons _ _⟩
  | case3 => exact .inl rfl
  | case4 e cs _ ih =>
    rcases ih with open' | ⟨inside, rest, taken, suffix⟩
    · exact .inl (by rw [open']; rfl)
    · refine .inr ⟨_, _, by rw [taken]; rfl, ?_⟩
      exact suffix.trans ((List.suffix_cons _ _).trans (List.suffix_cons _ _))
  | case5 c cs _ _ ih =>
    rcases ih with open' | ⟨inside, rest, taken, suffix⟩
    · exact .inl (by rw [open']; rfl)
    · exact .inr ⟨_, _, by rw [taken]; rfl, suffix.trans (List.suffix_cons _ _)⟩

/-- A text is no formula for a quoted text without an end, or for one of its characters. -/
def Refusal (cs : List Char) (fault : SyntaxFault) : Prop :=
  fault = .unterminatedText ∨ ∃ c ∈ cs, fault = .unexpectedCharacter c

theorem next_cases (c : Char) (cs : List Char) :
    (∃ fault, next c cs = .error fault ∧ Refusal (c :: cs) fault) ∨
      ∃ token rest, next c cs = .ok (token, rest) ∧ rest <:+ cs := by
  unfold next
  split
  · rename_i digit
    exact .inr ⟨_, _, rfl, takeNumber_suffix digit cs⟩
  · split
    · exact .inr ⟨_, _, rfl, List.dropWhile_suffix _⟩
    · split
      · rcases takeQuoted_cases c cs with open' | ⟨inside, rest, taken, suffix⟩
        · rw [open']
          exact .inl ⟨_, rfl, .inl rfl⟩
        · rw [taken]
          exact .inr ⟨_, _, rfl, suffix⟩
      · unfold takePunct
        split
        · exact .inr ⟨_, _, rfl, List.tail_suffix _⟩
        · split
          · exact .inr ⟨_, _, rfl, List.suffix_refl _⟩
          · exact .inl ⟨_, rfl, .inr ⟨c, List.mem_cons_self, rfl⟩⟩

theorem ofChars_cases (cs : List Char) :
    (∃ tokens, ofChars cs = .ok tokens) ∨
      ∃ fault, ofChars cs = .error fault ∧ Refusal cs fault := by
  match cs with
  | [] => exact .inl ⟨[], by rw [ofChars]⟩
  | c :: cs =>
    have later {rest : List Char} (suffix : rest <:+ cs) {fault : SyntaxFault}
        (refused : Refusal rest fault) : Refusal (c :: cs) fault := by
      rcases refused with rfl | ⟨d, member, rfl⟩
      · exact .inl rfl
      · exact .inr ⟨d, List.mem_cons_of_mem _ (suffix.subset member), rfl⟩
    cases blank : isBlank c with
    | true =>
      rw [ofChars_of_isBlank blank]
      rcases ofChars_cases cs with found | ⟨fault, failed, refused⟩
      · exact .inl found
      · exact .inr ⟨fault, failed, later (List.suffix_refl cs) refused⟩
    | false =>
      rcases next_cases c cs with ⟨fault, failed, refused⟩ | ⟨token, rest, read, suffix⟩
      · exact .inr ⟨fault, ofChars_of_error blank failed, refused⟩
      · rw [ofChars_of_next blank read]
        have shorter := suffix.length_le
        rcases ofChars_cases rest with ⟨tokens, found⟩ | ⟨fault, failed, refused⟩
        · rw [found]
          exact .inl ⟨_, rfl⟩
        · rw [failed]
          exact .inr ⟨fault, rfl, later suffix refused⟩
termination_by cs.length

/-- **Written tokens are read back**: a transcript is cut into the tokens it was made of. A number
literal gives the double that its text is read as, which is the one nearest to the number it writes,
as is every decimal's. A text that is no formula is refused for a quoted text without an end or for
one of its characters. -/
theorem ofText_transcript :
    (∀ t : Transcript, ofText t.text = .ok (t.spellings.map Spelling.token)) ∧
    (∀ l : Literal, ofText? l.chars = some l.double ∧ Nearest l.value l.double ∧
      ∃ n power, l.double = ofScaled n power ∧ l.value = n * (10 : ℚ) ^ power) ∧
    (∀ (n : ℕ) (power : ℤ), Nearest (n * 10 ^ power) (ofScaled n power)) ∧
    ∀ formula : String, (∃ tokens, ofText formula = .ok tokens) ∨
      ∃ fault, ofText formula = .error fault ∧ Refusal formula.toList fault :=
  ⟨ofText_transcript_text, fun l => ⟨l.ofText?_chars, l.nearest_double, l.double_eq_ofScaled⟩,
    nearest_ofScaled, fun formula => ofChars_cases formula.toList⟩

end Token

end KpiReport
