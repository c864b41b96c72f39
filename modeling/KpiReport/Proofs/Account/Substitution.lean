import KpiReport.Formula.Token
import KpiReport.Proofs.Account.Scanning

/-!
# Names in place of account tokens

A formula is read after its account tokens have been replaced by names. If no account token is
directly followed by a character of identifiers, it is read as the same lexemes whatever the names
are: each name is a token of its own, and no other token notices it (`AccountToken.exists_lexemes`).
-/

namespace KpiReport

open KpiReport.Text

/-- The characters of a piece, a name standing for an account token. -/
def Piece.fill (names : AccountToken → String) : Piece → List Char
  | plain c => [c]
  | token t => (names t).toList

/-- A token of a formula, or an account token in its place. -/
inductive Lexeme where
  | plain (token : Token)
  | account (token : AccountToken)

/-- The token that a lexeme is read as, a name standing for an account token. -/
def Lexeme.fill (names : AccountToken → String) : Lexeme → Token
  | plain t => t
  | account t => .name (names t)

/-- The tokens that a lexeme is read as, those of an account token being given. -/
def Lexeme.read (tokens : AccountToken → List Token) : Lexeme → List Token
  | plain t => [t]
  | account t => tokens t

/-- The account token that a lexeme is. -/
def Lexeme.account? : Lexeme → Option AccountToken
  | plain _ => none
  | account t => some t

namespace AccountToken

/-- Some pieces, names standing for the account tokens. -/
def fill (names : AccountToken → String) (pieces : List Piece) : List Char :=
  pieces.flatMap (Piece.fill names)

/-- The names are identifiers that cannot be taken for an exponent. -/
def Names (names : AccountToken → String) : Prop :=
  ∀ t, ∃ c cs, (names t).toList = c :: cs ∧ isIdentStart c = true ∧ cs.all isIdentChar = true ∧
    ¬ (c = 'e' ∨ c = 'E')

/-- The texts start like identifiers that cannot be taken for an exponent. -/
def Heads (texts : AccountToken → String) : Prop :=
  ∀ t, Written t → ∃ c cs, (texts t).toList = c :: cs ∧ isIdentStart c = true ∧
    ¬ (c = 'e' ∨ c = 'E')

theorem Names.heads {names : AccountToken → String} (h : Names names) : Heads names := by
  intro t _
  obtain ⟨c, cs, chars, start, -, other⟩ := h t
  exact ⟨c, cs, chars, start, other⟩

theorem names_none : Names fun _ => "None" := by
  intro _
  have chars : "None".toList = ['N', 'o', 'n', 'e'] := by decide
  exact ⟨_, _, chars, by decide, by decide, by decide⟩

/-- No account token among the pieces is directly followed by a character of identifiers. -/
def SetApart (pieces : List Piece) : Prop :=
  ∀ before token after, pieces = before ++ .token token :: after →
    ∀ c ∈ (after.flatMap Piece.chars).head?, isIdentChar c = false

/-! ## Scanned pieces -/

/-- The pieces do not start like the rest of a word. -/
def Apart (pieces : List Piece) : Prop :=
  ∀ piece ∈ pieces.head?, ∃ c, piece = .plain c ∧ isIdentChar c = false

/-- How the pieces of a text follow each other, after a character and inside a quoted text or not;
account tokens stand outside of quoted texts, at the start of words. -/
inductive Scanned : Option Char → Option Char → List Piece → Prop where
  | nil {previous quote : Option Char} : Scanned previous quote []
  | cut {previous : Option Char} {q : Char} : Scanned previous (some q) [.plain '\\']
  | escaped {previous : Option Char} {q e : Char} {ps : List Piece}
    (rest : Scanned (some e) (some q) ps) :
    Scanned previous (some q) (.plain '\\' :: .plain e :: ps)
  | quoted {previous : Option Char} {q c : Char} {ps : List Piece} (other : c ≠ '\\')
    (rest : Scanned (some c) (if c = q then none else some q) ps) :
    Scanned previous (some q) (.plain c :: ps)
  | opens {previous : Option Char} {c : Char} {ps : List Piece} (quote : isQuote c = true)
    (rest : Scanned (some c) (some c) ps) : Scanned previous none (.plain c :: ps)
  | plain {previous : Option Char} {c : Char} {ps : List Piece} (other : isQuote c = false)
    (rest : Scanned (some c) none ps) : Scanned previous none (.plain c :: ps)
  | token {previous : Option Char} {t : AccountToken} {ps : List Piece} (written : Written t)
    (boundary : atBoundary previous = true) (apart : Apart ps)
    (rest : Scanned t.text.toList.getLast? none ps) : Scanned previous none (.token t :: ps)

theorem SetApart.tail {piece : Piece} {ps : List Piece} (h : SetApart (piece :: ps)) :
    SetApart ps := by
  rintro before token after rfl
  exact h (piece :: before) token after rfl

theorem setApart_nil : SetApart [] := by
  intro before token after split
  simp at split

theorem SetApart.cons_plain {ps : List Piece} (h : SetApart ps) (c : Char) :
    SetApart (.plain c :: ps) := by
  rintro (_ | ⟨piece, before⟩) token after split
  · cases split
  · cases split
    exact h before token after rfl

theorem SetApart.cons_token {ps : List Piece} (h : SetApart ps) {token : AccountToken}
    (follows : ∀ c ∈ (ps.flatMap Piece.chars).head?, isIdentChar c = false) :
    SetApart (.token token :: ps) := by
  rintro (_ | ⟨piece, before⟩) other after split
  · cases split
    exact follows
  · cases split
    exact h before other after rfl

theorem setApart_token (token : AccountToken) : SetApart [.token token] :=
  setApart_nil.cons_token nofun

theorem Written.head {t : AccountToken} (h : t.Written) :
    ∃ c cs, t.text.toList = c :: cs ∧ isIdentChar c = true := by
  unfold Written take? at h
  cases chars : t.text.toList with
  | nil =>
    rw [chars] at h
    cases h
  | cons c cs =>
    refine ⟨c, cs, rfl, ?_⟩
    by_contra other
    rw [chars, List.takeWhile_cons_of_neg other] at h
    cases h

/-- Where account tokens are set apart, none directly follows another one. -/
theorem SetApart.apart {token : AccountToken} {ps : List Piece}
    (h : SetApart (.token token :: ps)) (written : ∀ t, .token t ∈ ps → Written t) : Apart ps := by
  have follows := h [] token ps rfl
  intro piece first
  obtain ⟨rest, rfl⟩ := List.head?_eq_some_iff.1 first
  cases piece with
  | plain c => exact ⟨c, rfl, follows c rfl⟩
  | token t =>
    obtain ⟨c, cs, chars, word⟩ := (written t List.mem_cons_self).head
    have start : c ∈ ((Piece.token t :: rest).flatMap Piece.chars).head? := by
      rw [List.flatMap_cons, Piece.chars, chars]
      rfl
    rw [follows c start] at word
    cases word

theorem scanned_of_scanFrom {previous quote : Option Char} {cs : List Char} {pieces : List Piece}
    (h : scanFrom previous quote cs = .ok pieces) (apart : SetApart pieces) :
    Scanned previous quote pieces := by
  fun_induction scanFrom previous quote cs generalizing pieces with
  | case1 =>
    cases h
    exact .nil
  | case2 =>
    cases h
    exact .cut
  | case3 previous q c cs ih =>
    obtain ⟨rest, found, rfl⟩ := map_eq_ok.1 h
    exact .escaped (ih found apart.tail.tail)
  | case4 previous c cs q other ih =>
    obtain ⟨rest, found, rfl⟩ := map_eq_ok.1 h
    exact .quoted other (ih found apart.tail)
  | case5 previous c cs opens ih =>
    obtain ⟨rest, found, rfl⟩ := map_eq_ok.1 h
    exact .opens opens (ih found apart.tail)
  | case6 previous c cs plain start e failed => cases h
  | case7 previous c cs plain start found rest taken ih =>
    obtain ⟨pieces, more, rfl⟩ := map_eq_ok.1 h
    rw [Bool.and_eq_true] at start
    exact .token (take_text taken) start.1 (apart.apart fun t => written_of_scanFrom more)
      (ih more apart.tail)
  | case8 previous c cs plain start none ih =>
    obtain ⟨rest, found, rfl⟩ := map_eq_ok.1 h
    exact .plain (Bool.eq_false_iff.2 plain) (ih found apart.tail)
  | case9 previous c cs plain inside ih =>
    obtain ⟨rest, found, rfl⟩ := map_eq_ok.1 h
    exact .plain (Bool.eq_false_iff.2 plain) (ih found apart.tail)

theorem Scanned.tail {previous : Option Char} {c : Char} {ps : List Piece}
    (h : Scanned previous none (.plain c :: ps)) (other : isQuote c = false) :
    Scanned (some c) none ps := by
  cases h with
  | opens quote rest =>
    rw [quote] at other
    cases other
  | plain _ rest => exact rest

theorem Scanned.written {previous : Option Char} {t : AccountToken} {ps : List Piece}
    (h : Scanned previous none (.token t :: ps)) : Written t := by
  cases h
  assumption

/-! ## Characters -/

theorem toNat_of_isAlpha {c : Char} (h : c.isAlpha = true) : 65 ≤ c.toNat ∧ c.toNat ≤ 122 := by
  have letter : (c.isUpper || c.isLower) = true := h
  rcases Bool.or_eq_true_iff.1 letter with upper | lower
  · obtain ⟨least, greatest⟩ : 'A'.val ≤ c.val ∧ c.val ≤ 'Z'.val := of_decide_eq_true upper
    have most : c.toNat ≤ 90 := UInt32.le_iff_toNat_le.1 greatest
    exact ⟨UInt32.le_iff_toNat_le.1 least, by omega⟩
  · obtain ⟨least, greatest⟩ := Bool.and_eq_true_iff.1 lower
    have fewest : 97 ≤ c.toNat := UInt32.le_iff_toNat_le.1 (of_decide_eq_true least)
    exact ⟨by omega, UInt32.le_iff_toNat_le.1 (of_decide_eq_true greatest)⟩

theorem toNat_of_isIdentChar {c : Char} (h : isIdentChar c = true) :
    48 ≤ c.toNat ∧ c.toNat ≤ 122 := by
  rw [isIdentChar, Char.isAlphanum, Bool.or_eq_true, Bool.or_eq_true] at h
  rcases h with (letter | digit) | under
  · have bounds := toNat_of_isAlpha letter
    omega
  · obtain ⟨least, greatest⟩ := Char.isDigit_iff_toNat.1 digit
    exact ⟨least, greatest.trans (by decide)⟩
  · rw [beq_iff_eq] at under
    subst under
    decide

theorem isBlank_of_isIdentChar {c : Char} (h : isIdentChar c = true) : isBlank c = false := by
  have bounds := toNat_of_isIdentChar h
  rw [isBlank, List.any_eq_false]
  simp only [blankRanges, List.forall_mem_cons, Bool.and_eq_true, decide_eq_true_eq,
    List.not_mem_nil, false_imp_iff, implies_true, and_true]
  omega

theorem isQuote_of_isIdentChar {c : Char} (h : isIdentChar c = true) : isQuote c = false := by
  rw [isQuote, Bool.or_eq_false_iff, beq_eq_false_iff_ne, beq_eq_false_iff_ne]
  constructor <;> rintro rfl <;> exact absurd h (by decide)

theorem isQuote_of_isBlank {c : Char} (h : isBlank c = true) : isQuote c = false := by
  rw [isQuote, Bool.or_eq_false_iff, beq_eq_false_iff_ne, beq_eq_false_iff_ne]
  constructor <;> rintro rfl <;> exact absurd h (by decide)

/-- A character that is no quote closes no quoted text. -/
theorem ne_of_isQuote {q c : Char} (quote : isQuote q = true) (other : isQuote c = false) :
    ¬ c = q := by
  rintro rfl
  rw [quote] at other
  cases other

theorem isIdentChar_of_isDigit {c : Char} (h : c.isDigit = true) : isIdentChar c = true := by
  simp [isIdentChar, Char.isAlphanum, h]

theorem isIdentChar_of_isIdentStart {c : Char} (h : isIdentStart c = true) :
    isIdentChar c = true := by
  simp only [isIdentStart, isIdentChar, Char.isAlphanum, Bool.or_eq_true] at h ⊢
  tauto

theorem exists_of_isIdentifier {name : String} (h : isIdentifier name = true) :
    ∃ c cs, name.toList = c :: cs ∧ isIdentStart c = true ∧ (c :: cs).all isIdentChar = true := by
  unfold isIdentifier at h
  split at h
  · cases h
  · rename_i c cs chars
    rw [Bool.and_eq_true] at h
    refine ⟨c, cs, chars, h.1, ?_⟩
    rw [List.all_cons, isIdentChar_of_isIdentStart h.1, h.2]
    rfl

theorem isDigit_of_isIdentStart {c : Char} (h : isIdentStart c = true) : c.isDigit = false := by
  rw [isIdentStart, Bool.or_eq_true] at h
  rw [Bool.eq_false_iff]
  intro digit
  rcases h with letter | under
  · have least := (toNat_of_isAlpha letter).1
    have greatest : c.toNat ≤ 57 := (Char.isDigit_iff_toNat.1 digit).2
    omega
  · rw [beq_iff_eq] at under
    subst under
    exact absurd digit (by decide)

/-! ## Readers that do not look into the texts of account tokens -/

variable {texts : AccountToken → String} {previous : Option Char} {ps : List Piece}

@[simp] theorem fill_nil : fill texts [] = [] := rfl

@[simp] theorem fill_plain (c : Char) : fill texts (.plain c :: ps) = c :: fill texts ps := rfl

@[simp] theorem fill_token (t : AccountToken) :
    fill texts (.token t :: ps) = (texts t).toList ++ fill texts ps :=
  rfl

/-- What stands for an account token starts like an identifier. -/
theorem Heads.fill_token (h : Heads texts) {t : AccountToken} (written : Written t)
    (ps : List Piece) :
    ∃ c cs, fill texts (.token t :: ps) = c :: cs ∧ isIdentStart c = true ∧
      ¬ (c = 'e' ∨ c = 'E') := by
  obtain ⟨c, cs, chars, start, other⟩ := h t written
  refine ⟨c, cs ++ fill texts ps, ?_, start, other⟩
  rw [fill, List.flatMap_cons, Piece.fill, chars]
  rfl

theorem fill_append (texts : AccountToken → String) (ps qs : List Piece) :
    fill texts (ps ++ qs) = fill texts ps ++ fill texts qs :=
  List.flatMap_append

theorem fill_map_plain (texts : AccountToken → String) (cs : List Char) :
    fill texts (cs.map .plain) = cs := by
  induction cs with
  | nil => rfl
  | cons c cs ih => rw [List.map_cons, fill_plain, ih]

/-- The pieces `rest` are left of `ps` after some plain characters. -/
def Left (rest ps : List Piece) : Prop :=
  ∃ cs : List Char, ps = cs.map .plain ++ rest

theorem Left.refl (ps : List Piece) : Left ps ps :=
  ⟨[], rfl⟩

theorem Left.cons (c : Char) (ps : List Piece) : Left ps (.plain c :: ps) :=
  ⟨[c], rfl⟩

theorem Left.trans {ps qs rs : List Piece} (h : Left ps qs) (h' : Left qs rs) : Left ps rs := by
  obtain ⟨cs, rfl⟩ := h
  obtain ⟨ds, rfl⟩ := h'
  exact ⟨ds ++ cs, by rw [List.map_append, List.append_assoc]⟩

/-- A reader takes the same from the pieces whatever the texts are, and what it leaves is left of
the pieces. -/
def Takes {α : Type} (read : List Char → α × List Char) (ps : List Piece) : Prop :=
  ∃ a rest next, Scanned next none rest ∧ Left rest ps ∧
    ∀ texts, Heads texts → read (fill texts ps) = (a, fill texts rest)

theorem takes_none {α : Type} {read : List Char → α × List Char} (h : Scanned previous none ps)
    (a : α) (none : ∀ texts, Heads texts → read (fill texts ps) = (a, fill texts ps)) :
    Takes read ps :=
  ⟨a, ps, previous, h, Left.refl ps, none⟩

/-- A reader that takes nothing where an identifier starts takes nothing where a name starts. -/
theorem takes_none_of_token {α : Type} {read : List Char → α × List Char} {t : AccountToken}
    (h : Scanned previous none (.token t :: ps)) (a : α)
    (none : ∀ c cs, isIdentStart c = true → ¬ (c = 'e' ∨ c = 'E') → read (c :: cs) = (a, c :: cs)) :
    Takes read (.token t :: ps) := by
  refine takes_none h a fun texts valid => ?_
  obtain ⟨c, cs, chars, start, other⟩ := valid.fill_token h.written ps
  rw [chars, none c cs start other]

open KpiReport.Decimal

theorem takeDigits_of_not_isDigit {c : Char} (h : c.isDigit = false) (cs : List Char) :
    takeDigits (c :: cs) = ([], c :: cs) := by
  simp [takeDigits, h]

theorem takeDigits_cons {c : Char} (h : c.isDigit = true) (cs : List Char) :
    takeDigits (c :: cs) = (c :: (takeDigits cs).1, (takeDigits cs).2) := by
  simp [takeDigits, h]

theorem takes_takeDigits (h : Scanned previous none ps) : Takes takeDigits ps := by
  induction ps generalizing previous with
  | nil => exact takes_none h [] fun texts _ => rfl
  | cons piece ps ih =>
    cases piece with
    | token t =>
      exact takes_none_of_token h [] fun c cs start _ =>
        takeDigits_of_not_isDigit (isDigit_of_isIdentStart start) cs
    | plain c =>
      cases digit : c.isDigit with
      | false =>
        refine takes_none h [] fun texts _ => ?_
        rw [fill_plain, takeDigits_of_not_isDigit digit]
      | true =>
        have inside := h.tail (isQuote_of_isIdentChar (isIdentChar_of_isDigit digit))
        obtain ⟨ds, rest, next, left, suffix, read⟩ := ih inside
        refine ⟨c :: ds, rest, next, left, suffix.trans (Left.cons _ _),
          fun texts valid => ?_⟩
        rw [fill_plain, takeDigits_cons digit, read texts valid]

theorem takePlaces_of_ne {c : Char} (h : c ≠ '.') (cs : List Char) :
    Token.takePlaces (c :: cs) = ([], c :: cs) := by
  unfold Token.takePlaces
  split
  · rename_i same
    exact absurd (List.cons.inj same).1 h
  · rfl

theorem takePlaces_of_not_isDigit {d : Char} (h : d.isDigit = false) (cs : List Char) :
    Token.takePlaces ('.' :: d :: cs) = ([], '.' :: d :: cs) := by
  simp [Token.takePlaces, h]

theorem takes_takePlaces (h : Scanned previous none ps) : Takes Token.takePlaces ps := by
  cases ps with
  | nil => exact takes_none h [] fun texts _ => rfl
  | cons piece ps =>
    cases piece with
    | token t =>
      refine takes_none_of_token h [] fun c cs start _ => takePlaces_of_ne ?_ cs
      rintro rfl
      exact absurd start (by decide)
    | plain c =>
      by_cases point : c = '.'
      · subst point
        have inside := h.tail (by decide)
        cases ps with
        | nil => exact takes_none h [] fun texts _ => rfl
        | cons piece ps =>
          cases piece with
          | token t =>
            refine takes_none h [] fun texts valid => ?_
            obtain ⟨c, cs, chars, start, -⟩ := valid.fill_token inside.written ps
            rw [fill_plain, chars, takePlaces_of_not_isDigit (isDigit_of_isIdentStart start)]
          | plain d =>
            cases digit : d.isDigit with
            | false =>
              refine takes_none h [] fun texts _ => ?_
              rw [fill_plain, fill_plain, takePlaces_of_not_isDigit digit]
            | true =>
              obtain ⟨ds, rest, next, left, suffix, read⟩ := takes_takeDigits inside
              refine ⟨ds, rest, next, left, suffix.trans (Left.cons _ _),
                fun texts valid => ?_⟩
              rw [← read texts valid, fill_plain, fill_plain, Token.takePlaces, if_pos digit]
      · refine takes_none h [] fun texts _ => ?_
        rw [fill_plain, takePlaces_of_ne point]

theorem takeSign_of_ne {c : Char} (h : ¬ (c = '-' ∨ c = '+')) (cs : List Char) :
    takeSign (c :: cs) = (false, c :: cs) := by
  unfold takeSign
  split
  · rename_i same
    exact absurd (.inl (List.cons.inj same).1) h
  · rename_i same
    exact absurd (.inr (List.cons.inj same).1) h
  · rfl

theorem takes_takeSign (h : Scanned previous none ps) : Takes takeSign ps := by
  cases ps with
  | nil => exact takes_none h false fun texts _ => rfl
  | cons piece ps =>
    cases piece with
    | token t =>
      refine takes_none_of_token h false fun c cs start _ => takeSign_of_ne ?_ cs
      rintro (rfl | rfl) <;> exact absurd start (by decide)
    | plain c =>
      by_cases sign : c = '-' ∨ c = '+'
      · rcases sign with rfl | rfl
        · exact ⟨true, ps, _, h.tail (by decide), Left.cons _ _, fun texts _ => rfl⟩
        · exact ⟨false, ps, _, h.tail (by decide), Left.cons _ _, fun texts _ => rfl⟩
      · refine takes_none h false fun texts _ => ?_
        rw [fill_plain, takeSign_of_ne sign]

theorem takeExponent_of_ne {c : Char} (h : ¬ (c = 'e' ∨ c = 'E')) (cs : List Char) :
    Token.takeExponent (c :: cs) = (0, c :: cs) := by
  rw [Token.takeExponent, if_neg h]

theorem takes_takeExponent (h : Scanned previous none ps) : Takes Token.takeExponent ps := by
  cases ps with
  | nil => exact takes_none h 0 fun texts _ => rfl
  | cons piece ps =>
    cases piece with
    | token t =>
      exact takes_none_of_token h 0 fun c cs _ other => takeExponent_of_ne other cs
    | plain c =>
      by_cases letter : c = 'e' ∨ c = 'E'
      · have inside : Scanned (some c) none ps := by
          refine h.tail ?_
          rcases letter with rfl | rfl <;> decide
        obtain ⟨negative, signed, next, left, suffix, sign⟩ := takes_takeSign inside
        obtain ⟨ds, rest, next, left, suffix', digits⟩ := takes_takeDigits left
        cases ds with
        | nil =>
          refine takes_none h 0 fun texts valid => ?_
          rw [fill_plain, Token.takeExponent, if_pos letter]
          simp only [sign texts valid, digits texts valid]
        | cons d ds =>
          refine ⟨if negative then -(ofDigits (d :: ds) : Int) else ofDigits (d :: ds), rest, next,
            left, (suffix'.trans suffix).trans (Left.cons _ _), fun texts valid => ?_⟩
          rw [fill_plain, Token.takeExponent, if_pos letter]
          simp only [sign texts valid, digits texts valid]
      · refine takes_none h 0 fun texts _ => ?_
        rw [fill_plain, takeExponent_of_ne letter]

theorem takes_takeNumber {c : Char} (digit : c.isDigit = true) (h : Scanned previous none ps) :
    Takes (fun cs => Token.takeNumber (c :: cs)) ps := by
  obtain ⟨ds, left, next, scanned, suffix, whole⟩ := takes_takeDigits h
  obtain ⟨qs, left', next', scanned', suffix', places⟩ := takes_takePlaces scanned
  obtain ⟨n, rest, next'', scanned'', suffix'', exponent⟩ := takes_takeExponent scanned'
  refine ⟨ofPlaces (c :: ds) qs n, rest, next'', scanned'', (suffix''.trans suffix').trans suffix,
    fun texts valid => ?_⟩
  simp only [Token.takeNumber, takeDigits_cons digit, whole texts valid, places texts valid,
    exponent texts valid]

/-- No name follows the first letters of a word. -/
theorem takes_word {c : Char} (word : isIdentChar c = true) (h : Scanned (some c) none ps) :
    Takes (fun cs => (cs.takeWhile isIdentChar, cs.dropWhile isIdentChar)) ps := by
  induction ps generalizing c with
  | nil => exact takes_none h [] fun texts _ => rfl
  | cons piece ps ih =>
    cases piece with
    | token t =>
      cases h with
      | token _ boundary _ _ => simp [atBoundary, word] at boundary
    | plain d =>
      cases inside : isIdentChar d with
      | false =>
        refine takes_none h [] fun texts _ => ?_
        simp [inside]
      | true =>
        obtain ⟨w, rest, next, left, suffix, read⟩ :=
          ih inside (h.tail (isQuote_of_isIdentChar inside))
        refine ⟨d :: w, rest, next, left, suffix.trans (Left.cons _ _),
          fun texts valid => ?_⟩
        have same := read texts valid
        rw [Prod.mk.injEq] at same
        simp [inside, same]

/-! ## Readers that can fail -/

/-- A reader takes the same from the pieces, or fails alike, whatever the texts are. -/
def Reads {α : Type} (read : List Char → Except SyntaxFault (α × List Char)) (ps : List Piece) :
    Prop :=
  ∃ r : Except SyntaxFault (α × List Piece),
    (∀ a rest, r = .ok (a, rest) → ∃ next, Scanned next none rest ∧ Left rest ps) ∧
    ∀ texts, Heads texts → read (fill texts ps) = r.map fun (a, rest) => (a, fill texts rest)

section Reads

variable {α β : Type}

theorem Takes.reads {read : List Char → α × List Char} (h : Takes read ps) :
    Reads (fun cs => .ok (read cs)) ps := by
  obtain ⟨a, rest, next, left, suffix, same⟩ := h
  refine ⟨.ok (a, rest), ?_, fun texts valid => ?_⟩
  · rintro _ _ ⟨rfl, rfl⟩
    exact ⟨next, left, suffix⟩
  · simp only [same texts valid]
    rfl

theorem reads_error {read : List Char → Except SyntaxFault (α × List Char)} (fault : SyntaxFault)
    (h : ∀ texts, Heads texts → read (fill texts ps) = .error fault) : Reads read ps :=
  ⟨.error fault, nofun, h⟩

theorem reads_ok {read : List Char → Except SyntaxFault (α × List Char)} {rest : List Piece}
    {next : Option Char} (a : α) (left : Scanned next none rest) (suffix : Left rest ps)
    (h : ∀ texts, Heads texts → read (fill texts ps) = .ok (a, fill texts rest)) :
    Reads read ps := by
  refine ⟨.ok (a, rest), ?_, h⟩
  rintro _ _ ⟨rfl, rfl⟩
  exact ⟨next, left, suffix⟩

theorem Reads.map {read : List Char → Except SyntaxFault (α × List Char)} (h : Reads read ps)
    (f : α → β) : Reads (fun cs => (read cs).map fun (a, rest) => (f a, rest)) ps := by
  obtain ⟨r, left, same⟩ := h
  refine ⟨r.map fun (a, rest) => (f a, rest), ?_, fun texts valid => ?_⟩
  · intro b rest found
    obtain ⟨⟨a, rest'⟩, given, pair⟩ := map_eq_ok.1 found
    cases pair
    exact left a rest given
  · simp only [same texts valid]
    cases r <;> rfl

/-- What a reader does after some pieces. -/
theorem Reads.after {read : List Char → Except SyntaxFault (α × List Char)} {qs : List Piece}
    (h : Reads read ps) (suffix : Left ps qs)
    {read' : List Char → Except SyntaxFault (α × List Char)}
    (same : ∀ texts, Heads texts → read' (fill texts qs) = read (fill texts ps)) :
    Reads read' qs := by
  obtain ⟨r, left, given⟩ := h
  refine ⟨r, fun a rest found => ?_,
    fun texts valid => (same texts valid).trans (given texts valid)⟩
  obtain ⟨next, scanned, suffix'⟩ := left a rest found
  exact ⟨next, scanned, suffix'.trans suffix⟩

end Reads

theorem takeQuoted_cons {q c : Char} (other : c ≠ '\\') (cs : List Char) :
    Token.takeQuoted q (c :: cs) = if c = q then .ok ([], cs)
      else (Token.takeQuoted q cs).map fun (inside, rest) => (c :: inside, rest) := by
  rw [Token.takeQuoted.eq_def]
  dsimp only
  rw [if_neg other]

theorem reads_takeQuoted {q : Char} (quote : isQuote q = true) (h : Scanned previous (some q) ps) :
    Reads (Token.takeQuoted q) ps := by
  have slash : ¬ '\\' = q := ne_of_isQuote quote (by decide)
  generalize inside : some q = quoting at h
  induction h with
  | nil => exact reads_error .unterminatedText fun texts _ => rfl
  | cut =>
    refine reads_error .unterminatedText fun texts _ => ?_
    rw [fill_plain, fill_nil, Token.takeQuoted, if_neg slash, if_pos rfl]
  | @escaped previous q' e ps rest ih =>
    cases inside
    have suffix : Left ps (.plain '\\' :: .plain e :: ps) := (Left.cons _ _).trans (Left.cons _ _)
    refine ((ih rfl).map (Token.unescape e :: ·)).after suffix fun texts _ => ?_
    rw [fill_plain, fill_plain, Token.takeQuoted, if_neg slash, if_pos rfl]
  | @quoted previous q' c ps other rest ih =>
    cases inside
    by_cases close : c = q
    · rw [if_pos close] at rest
      refine reads_ok [] rest (Left.cons _ _) fun texts _ => ?_
      rw [fill_plain, takeQuoted_cons other, if_pos close]
    · refine ((ih (if_neg close).symm).map (c :: ·)).after (Left.cons _ _) fun texts _ => ?_
      rw [fill_plain, takeQuoted_cons other, if_neg close]
  | opens => cases inside
  | plain => cases inside
  | token => cases inside

theorem ofPair?_of_isIdentStart {d : Char} (h : isIdentStart d = true) (c : Char) :
    Punct.ofPair? c d = none := by
  unfold Punct.ofPair?
  split <;> first | rfl | exact absurd h (by decide)

theorem reads_takePunct {c : Char} (h : Scanned previous none ps) :
    Reads (Token.takePunct c) ps := by
  have single (none : ∀ texts, Heads texts →
      (fill texts ps).head?.bind (Punct.ofPair? c) = Option.none) :
      Reads (Token.takePunct c) ps := by
    cases mark : Punct.ofChar? c with
    | some p =>
      refine reads_ok (.punct p) h (Left.refl ps) fun texts valid => ?_
      simp only [Token.takePunct, none texts valid, mark]
    | none =>
      refine reads_error (.unexpectedCharacter c) fun texts valid => ?_
      simp only [Token.takePunct, none texts valid, mark]
  cases ps with
  | nil => exact single fun texts _ => rfl
  | cons piece ps =>
    cases piece with
    | token t =>
      refine single fun texts valid => ?_
      obtain ⟨d, cs, chars, start, -⟩ := valid.fill_token h.written ps
      rw [chars, List.head?_cons, Option.bind_some, ofPair?_of_isIdentStart start]
    | plain d =>
      cases pair : Punct.ofPair? c d with
      | none => exact single fun texts _ => pair
      | some p =>
        have inside : isQuote d = false := by
          unfold Punct.ofPair? at pair
          split at pair <;> first | decide | cases pair
        refine reads_ok (.punct p) (h.tail inside) (Left.cons _ _) fun texts _ => ?_
        simp only [Token.takePunct, fill_plain, List.head?_cons, Option.bind_some, pair,
          List.tail_cons]

/-- The token that starts with a plain character. -/
theorem reads_next {c : Char} (h : Scanned previous none (.plain c :: ps)) :
    Reads (Token.next c) ps := by
  unfold Token.next
  cases digit : c.isDigit with
  | true =>
    have inside := h.tail (isQuote_of_isIdentChar (isIdentChar_of_isDigit digit))
    exact ((takes_takeNumber digit inside).reads).map Token.number
  | false =>
    cases start : isIdentStart c with
    | true =>
      have word := isIdentChar_of_isIdentStart start
      exact ((takes_word word (h.tail (isQuote_of_isIdentChar word))).reads).map fun cs =>
        Token.name (String.ofList (c :: cs))
    | false =>
      cases quote : isQuote c with
      | true =>
        cases h with
        | plain other _ =>
          rw [quote] at other
          cases other
        | opens _ rest =>
          have opening : c = '\'' ∨ c = '"' := by
            simpa [isQuote] using quote
          simp only [Bool.false_eq_true, if_false, if_pos opening]
          exact (reads_takeQuoted quote rest).map fun inside => Token.text (String.ofList inside)
      | false =>
        have other : ¬ (c = '\'' ∨ c = '"') := by
          simpa [isQuote] using quote
        simp only [Bool.false_eq_true, if_false, if_neg other]
        exact reads_takePunct (h.tail quote)

/-! ## All tokens -/

theorem ofChars_of_isBlank {c : Char} (blank : isBlank c = true) (cs : List Char) :
    Token.ofChars (c :: cs) = Token.ofChars cs := by
  rw [Token.ofChars, if_pos blank]

theorem ofChars_of_next {c : Char} (solid : isBlank c = false) {cs rest : List Char} {token : Token}
    (read : Token.next c cs = .ok (token, rest)) :
    Token.ofChars (c :: cs) = (Token.ofChars rest).map (token :: ·) := by
  rw [Token.ofChars, if_neg (Bool.eq_false_iff.1 solid)]
  split
  · rename_i fault failed
    rw [read] at failed
    cases failed
  · rename_i token' rest' found
    rw [read] at found
    cases found
    rfl

theorem ofChars_of_error {c : Char} (solid : isBlank c = false) {cs : List Char}
    {fault : SyntaxFault} (failed : Token.next c cs = .error fault) :
    Token.ofChars (c :: cs) = .error fault := by
  rw [Token.ofChars, if_neg (Bool.eq_false_iff.1 solid)]
  split
  · rename_i fault' failed'
    rw [failed] at failed'
    cases failed'
    rfl
  · rename_i token rest found
    rw [failed] at found
    cases found

theorem Apart.head_fill (h : Apart ps) (texts : AccountToken → String) :
    ∀ c ∈ (fill texts ps).head?, isIdentChar c = false := by
  intro c first
  cases ps with
  | nil => cases first
  | cons piece ps =>
    obtain ⟨d, rfl, other⟩ := h piece rfl
    cases first
    exact other

theorem takeWhile_append_of_head {p : Char → Bool} {cs rest : List Char} (all : cs.all p = true)
    (stops : ∀ c ∈ rest.head?, p c = false) :
    (cs ++ rest).takeWhile p = cs ∧ (cs ++ rest).dropWhile p = rest := by
  rw [List.all_eq_true] at all
  rw [List.takeWhile_append_of_pos all, List.dropWhile_append_of_pos all]
  cases rest with
  | nil => simp
  | cons c rest => simp [stops c rfl]

theorem eq_of_next_dot {c : Char} {cs rest : List Char}
    (h : Token.next c cs = .ok (.punct .dot, rest)) : c = '.' ∧ rest = cs := by
  unfold Token.next at h
  split at h
  · cases h
  · split at h
    · cases h
    · split at h
      · obtain ⟨_, -, same⟩ := map_eq_ok.1 h
        cases same
      · unfold Token.takePunct at h
        split at h
        · rename_i p pair
          cases h
          obtain ⟨d, -, mark⟩ := Option.bind_eq_some_iff.1 pair
          unfold Punct.ofPair? at mark
          split at mark <;> cases mark
        · split at h
          · rename_i p mark
            cases h
            unfold Punct.ofChar? at mark
            split at mark <;> cases mark
            exact ⟨rfl, rfl⟩
          · cases h

/-- The text is read as some tokens wherever no character of identifiers follows it. -/
def ReadAs (text : String) (tokens : List Token) : Prop :=
  ∀ rest : List Char, (∀ c ∈ rest.head?, isIdentChar c = false) →
    Token.ofChars (text.toList ++ rest) = (Token.ofChars rest).map (tokens ++ ·)

/-- An identifier is read as one token. -/
theorem readAs_of_isIdentifier {name : String} (h : isIdentifier name = true) :
    ReadAs name [.name name] := by
  intro rest ends
  obtain ⟨c, cs, chars, start, all⟩ := exists_of_isIdentifier h
  rw [List.all_cons, Bool.and_eq_true] at all
  have whole : name = String.ofList (c :: cs) := by
    rw [← chars, String.ofList_toList]
  obtain ⟨word, left⟩ := takeWhile_append_of_head all.2 ends
  have read : Token.next c (cs ++ rest) = .ok (.name name, rest) := by
    unfold Token.next
    rw [isDigit_of_isIdentStart start, if_neg Bool.false_ne_true, if_pos start, word, left, whole]
  rw [chars]
  exact ofChars_of_next (isBlank_of_isIdentChar all.1) read

theorem Names.readAs {names : AccountToken → String} (valid : Names names) (t : AccountToken) :
    ReadAs (names t) [.name (names t)] := by
  obtain ⟨c, cs, chars, start, all, -⟩ := valid t
  apply readAs_of_isIdentifier
  rw [isIdentifier, chars]
  exact Bool.and_eq_true_iff.2 ⟨start, all⟩

/-- Which pieces each lexeme is made of: an account token stands for itself, any other lexeme for
plain characters, and a dot for a dot. -/
inductive Lexed : List Piece → List Lexeme → Prop where
  | nil : Lexed [] []
  | blank {c : Char} {ps : List Piece} {ls : List Lexeme} (blank : isBlank c = true)
    (rest : Lexed ps ls) : Lexed (.plain c :: ps) ls
  | account {t : AccountToken} {ps : List Piece} {ls : List Lexeme} (rest : Lexed ps ls) :
    Lexed (.token t :: ps) (.account t :: ls)
  | plain {c : Char} {cs : List Char} {token : Token} {ps : List Piece} {ls : List Lexeme}
    (dot : token = .punct .dot → c = '.' ∧ cs = []) (rest : Lexed ps ls) :
    Lexed (.plain c :: (cs.map .plain ++ ps)) (.plain token :: ls)

/-- A dot is read off a single plain character. -/
theorem eq_of_reads_dot {c : Char} {cs : List Char} {rest : List Piece}
    (read : ∀ texts, Heads texts →
      Token.next c (fill texts (cs.map .plain ++ rest)) = .ok (.punct .dot, fill texts rest)) :
    c = '.' ∧ cs = [] := by
  obtain ⟨point, nothing⟩ := eq_of_next_dot (read _ names_none.heads)
  rw [fill_append, fill_map_plain] at nothing
  exact ⟨point, List.append_left_eq_self.1 nothing.symm⟩

/-- The pieces are read as the same lexemes whatever stands for the account tokens. -/
theorem exists_lexed (ps : List Piece) {before : Option Char} (h : Scanned before none ps) :
    ∃ r : Except SyntaxFault (List Lexeme), (∀ ls, r = .ok ls → Lexed ps ls) ∧
      ∀ texts, Heads texts → ∀ tokens : AccountToken → List Token,
        (∀ t, .token t ∈ ps → ReadAs (texts t) (tokens t)) →
        Token.ofChars (fill texts ps) = r.map (List.flatMap (Lexeme.read tokens)) := by
  match ps, h with
  | [], _ =>
    refine ⟨.ok [], ?_, fun texts _ tokens _ => ?_⟩
    · rintro ls ⟨rfl⟩
      exact .nil
    · rw [fill_nil, Token.ofChars]
      rfl
  | .token t :: ps, h =>
    cases h with
    | token _ _ apart rest =>
      obtain ⟨r, lexed, read⟩ := exists_lexed ps rest
      refine ⟨r.map (.account t :: ·), fun ls found => ?_, fun texts valid tokens each => ?_⟩
      · obtain ⟨more, given, rfl⟩ := map_eq_ok.1 found
        exact .account (lexed more given)
      · have later := read texts valid tokens fun u member => each u (List.mem_cons_of_mem _ member)
        rw [fill_token t, each t List.mem_cons_self _ (apart.head_fill texts), later]
        cases r <;> rfl
  | .plain c :: ps, h =>
    cases blank : isBlank c with
    | true =>
      obtain ⟨r, lexed, read⟩ := exists_lexed ps (h.tail (isQuote_of_isBlank blank))
      refine ⟨r, fun ls found => .blank blank (lexed ls found), fun texts valid tokens each => ?_⟩
      rw [fill_plain, ofChars_of_isBlank blank]
      exact read texts valid tokens fun u member => each u (List.mem_cons_of_mem _ member)
    | false =>
      -- What the first token is and where it ends does not depend on the texts.
      obtain ⟨next, left, same⟩ := reads_next h
      cases next with
      | error fault =>
        refine ⟨.error fault, fun ls found => ?_, fun texts valid _ _ => ?_⟩
        · cases found
        · rw [fill_plain, ofChars_of_error blank (same texts valid)]
          rfl
      | ok taken =>
        obtain ⟨token, rest⟩ := taken
        obtain ⟨next, scanned, cs, rfl⟩ := left token rest rfl
        have dot (mark : token = .punct .dot) : c = '.' ∧ cs = [] := by
          subst mark
          exact eq_of_reads_dot same
        have shorter : rest.length ≤ (cs.map Piece.plain ++ rest).length := by simp
        obtain ⟨r, lexed, read⟩ := exists_lexed rest scanned
        refine ⟨r.map (.plain token :: ·), fun ls found => ?_, fun texts valid tokens each => ?_⟩
        · obtain ⟨more, given, rfl⟩ := map_eq_ok.1 found
          exact .plain dot (lexed more given)
        · have later := read texts valid tokens fun u member =>
            each u (List.mem_cons_of_mem _ (List.mem_append_right _ member))
          rw [fill_plain, ofChars_of_next blank (same texts valid), later]
          cases r <;> rfl
termination_by ps.length

theorem Lexed.mem {ps : List Piece} {ls : List Lexeme} (h : Lexed ps ls) {t : AccountToken}
    (member : .account t ∈ ls) : .token t ∈ ps := by
  induction h with
  | nil => cases member
  | blank _ _ ih => exact List.mem_cons_of_mem _ (ih member)
  | account _ ih =>
    rcases List.mem_cons.1 member with same | member
    · cases same
      exact List.mem_cons_self
    · exact List.mem_cons_of_mem _ (ih member)
  | plain _ _ ih =>
    rcases List.mem_cons.1 member with same | member
    · cases same
    · exact List.mem_cons_of_mem _ (List.mem_append_right _ (ih member))

/-- The lexemes of a formula hold its account tokens, in order. -/
theorem Lexed.accounts {ps : List Piece} {ls : List Lexeme} (h : Lexed ps ls) :
    ls.filterMap Lexeme.account? = ps.filterMap Piece.token? := by
  have plain (cs : List Char) : (cs.map Piece.plain).filterMap Piece.token? = [] := by
    induction cs with
    | nil => rfl
    | cons c cs ih => exact ih
  induction h with
  | nil => rfl
  | blank _ _ ih => exact ih
  | account _ ih => exact congrArg (_ :: ·) ih
  | @plain c cs token ps ls _ _ ih =>
    refine ih.trans ?_
    change _ = List.filterMap Piece.token? (cs.map .plain ++ ps)
    rw [List.filterMap_append, plain, List.nil_append]

/-- The pieces are read as the same lexemes whatever the names are. -/
theorem exists_lexemes (ps : List Piece) {before : Option Char} (h : Scanned before none ps) :
    ∃ r : Except SyntaxFault (List Lexeme), (∀ ls, r = .ok ls → Lexed ps ls) ∧
      ∀ names, Names names →
        Token.ofChars (fill names ps) = r.map (List.map (Lexeme.fill names)) := by
  obtain ⟨r, lexed, read⟩ := exists_lexed ps h
  refine ⟨r, lexed, fun names valid => ?_⟩
  have single : List.flatMap (Lexeme.read fun t => [.name (names t)]) =
      List.map (Lexeme.fill names) := by
    funext ls
    rw [List.map_eq_flatMap]
    congr 1
    funext l
    cases l <;> rfl
  rw [read names valid.heads (fun t => [.name (names t)]) fun t _ => valid.readAs t, single]

end AccountToken

end KpiReport
