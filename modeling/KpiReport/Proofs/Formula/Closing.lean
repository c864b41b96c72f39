import KpiReport.Proofs.Account.Substitution

/-!
# Texts that end with a closing bracket

A text that ends with a closing bracket and is cut into tokens on its own is cut into the same
tokens wherever it stands (`Token.ofChars_closed`): no token goes on behind the bracket, and none
before it looks that far ahead.
-/

namespace KpiReport.Token

open KpiReport.AccountToken
open KpiReport.Decimal
open KpiReport.Text

/-! ## Readers that stop before a bracket -/

/-- The reader takes something of a text before a closing bracket and stops before the bracket,
whatever follows it. -/
def Stops {α : Type} (read : List Char → α × List Char) (xs : List Char) : Prop :=
  ∃ a left, left.length ≤ xs.length ∧ ∀ tail, read (xs ++ ']' :: tail) = (a, left ++ ']' :: tail)

theorem stops_span {p : Char → Bool} (other : p ']' = false) (xs : List Char) :
    Stops (fun cs => (cs.takeWhile p, cs.dropWhile p)) xs := by
  refine ⟨xs.takeWhile p, xs.dropWhile p, (List.dropWhile_sublist p).length_le, fun tail => ?_⟩
  induction xs with
  | nil => simp [other]
  | cons x xs ih =>
    rw [Prod.mk.injEq] at ih
    cases own : p x <;> simp [own, ih.1, ih.2]

theorem stops_takeDigits (xs : List Char) : Stops takeDigits xs :=
  stops_span (by decide) xs

/-- A reader that takes nothing stops before the whole text. -/
theorem stops_none {α : Type} {read : List Char → α × List Char} {xs : List Char} (a : α)
    (none : ∀ tail, read (xs ++ ']' :: tail) = (a, xs ++ ']' :: tail)) : Stops read xs :=
  ⟨a, xs, Nat.le_refl _, none⟩

theorem stops_takePlaces (xs : List Char) : Stops takePlaces xs := by
  cases xs with
  | nil => exact stops_none [] fun _ => takePlaces_of_ne (by decide) _
  | cons c xs =>
    by_cases point : c = '.'
    · subst point
      cases xs with
      | nil => exact stops_none [] fun _ => takePlaces_of_not_isDigit (by decide) _
      | cons d xs =>
        cases digit : d.isDigit with
        | false => exact stops_none [] fun _ => takePlaces_of_not_isDigit digit _
        | true =>
          obtain ⟨ds, left, le, read⟩ := stops_takeDigits (d :: xs)
          refine ⟨ds, left, Nat.le_succ_of_le le, fun tail => ?_⟩
          rw [← read tail]
          exact if_pos digit
    · exact stops_none [] fun _ => takePlaces_of_ne point _

theorem stops_takeSign (xs : List Char) : Stops takeSign xs := by
  cases xs with
  | nil => exact stops_none false fun _ => takeSign_of_ne (by decide) _
  | cons c xs =>
    by_cases sign : c = '-' ∨ c = '+'
    · rcases sign with rfl | rfl
      · exact ⟨true, xs, Nat.le_succ _, fun _ => rfl⟩
      · exact ⟨false, xs, Nat.le_succ _, fun _ => rfl⟩
    · exact stops_none false fun _ => takeSign_of_ne sign _

theorem stops_takeExponent (xs : List Char) : Stops takeExponent xs := by
  cases xs with
  | nil => exact stops_none 0 fun _ => takeExponent_of_ne (by decide) _
  | cons e xs =>
    by_cases letter : e = 'e' ∨ e = 'E'
    · obtain ⟨negative, signed, le, sign⟩ := stops_takeSign xs
      obtain ⟨ds, left, le', digits⟩ := stops_takeDigits signed
      cases ds with
      | nil =>
        refine stops_none 0 fun tail => ?_
        rw [List.cons_append, takeExponent, if_pos letter]
        simp only [sign, digits]
      | cons d ds =>
        refine ⟨if negative then -(ofDigits (d :: ds) : Int) else ofDigits (d :: ds), left,
          Nat.le_succ_of_le (le'.trans le), fun tail => ?_⟩
        rw [List.cons_append, takeExponent, if_pos letter]
        simp only [sign, digits]
    · exact stops_none 0 fun _ => takeExponent_of_ne letter _

theorem stops_takeNumber {c : Char} (digit : c.isDigit = true) (xs : List Char) :
    Stops (fun cs => takeNumber (c :: cs)) xs := by
  obtain ⟨ds, left, le, whole⟩ := stops_takeDigits xs
  obtain ⟨qs, left', le', places⟩ := stops_takePlaces left
  obtain ⟨n, left'', le'', exponent⟩ := stops_takeExponent left'
  refine ⟨ofPlaces (c :: ds) qs n, left'', (le''.trans le').trans le, fun tail => ?_⟩
  simp only [takeNumber, takeDigits_cons digit, whole, places, exponent]

/-! ## Readers that can fail -/

/-- The reader stops before a closing bracket, whatever follows the bracket, or it fails if nothing
does. -/
def StopsOrFails {α : Type} (read : List Char → Except SyntaxFault (α × List Char))
    (xs : List Char) : Prop :=
  (∃ a left, left.length ≤ xs.length ∧
      ∀ tail, read (xs ++ ']' :: tail) = .ok (a, left ++ ']' :: tail)) ∨
    ∃ fault, read (xs ++ [']']) = .error fault

section StopsOrFails

variable {α β : Type} {xs : List Char}

theorem Stops.stopsOrFails {read : List Char → α × List Char} (h : Stops read xs) (f : α → β) :
    StopsOrFails (fun cs => .ok (f (read cs).1, (read cs).2)) xs := by
  obtain ⟨a, left, le, same⟩ := h
  refine .inl ⟨f a, left, le, fun tail => ?_⟩
  simp only [same tail]

theorem StopsOrFails.map {read : List Char → Except SyntaxFault (α × List Char)}
    (h : StopsOrFails read xs) (f : α → β) :
    StopsOrFails (fun cs => (read cs).map fun (a, rest) => (f a, rest)) xs := by
  rcases h with ⟨a, left, le, same⟩ | ⟨fault, failed⟩
  · refine .inl ⟨f a, left, le, fun tail => ?_⟩
    simp only [same tail]
    rfl
  · refine .inr ⟨fault, ?_⟩
    simp only [failed]
    rfl

/-- What a reader does after some characters. -/
theorem StopsOrFails.after {read read' : List Char → Except SyntaxFault (α × List Char)}
    {ys : List Char} (h : StopsOrFails read xs) (le : xs.length ≤ ys.length)
    (same : ∀ tail, read' (ys ++ ']' :: tail) = read (xs ++ ']' :: tail)) :
    StopsOrFails read' ys := by
  rcases h with ⟨a, left, shorter, given⟩ | ⟨fault, failed⟩
  · exact .inl ⟨a, left, shorter.trans le, fun tail => (same tail).trans (given tail)⟩
  · exact .inr ⟨fault, (same []).trans failed⟩

end StopsOrFails

/-- A character that escapes nothing closes the quoted text or belongs to it. -/
theorem StopsOrFails.takeQuoted_cons {q c : Char} {xs : List Char} (other : c ≠ '\\')
    (h : StopsOrFails (takeQuoted q) xs) : StopsOrFails (takeQuoted q) (c :: xs) := by
  by_cases close : c = q
  · refine .inl ⟨[], xs, Nat.le_succ _, fun tail => ?_⟩
    rw [List.cons_append, AccountToken.takeQuoted_cons other, if_pos close]
  · refine (h.map (c :: ·)).after (Nat.le_succ _) fun tail => ?_
    rw [List.cons_append, AccountToken.takeQuoted_cons other, if_neg close]

/-- The bracket closes no quoted text, and escaping it leaves the text open, so that the reader
fails if nothing follows. -/
theorem stopsOrFails_takeQuoted {q : Char} (quote : isQuote q = true) :
    ∀ xs : List Char, StopsOrFails (takeQuoted q) xs
  | [] => by
    refine .inr ⟨.unterminatedText, ?_⟩
    rw [List.nil_append, takeQuoted_cons (by decide), if_neg (ne_of_isQuote quote (by decide))]
    rfl
  | [c] => by
    by_cases slash : c = '\\'
    · subst slash
      refine .inr ⟨.unterminatedText, ?_⟩
      rw [List.singleton_append, takeQuoted, if_neg (ne_of_isQuote quote (by decide)), if_pos rfl]
      rfl
    · exact (stopsOrFails_takeQuoted quote []).takeQuoted_cons slash
  | c :: e :: xs => by
    by_cases slash : c = '\\'
    · subst slash
      have shorter : xs.length ≤ ('\\' :: e :: xs).length := by
        simp only [List.length_cons]
        omega
      refine ((stopsOrFails_takeQuoted quote xs).map (unescape e :: ·)).after shorter fun tail => ?_
      rw [List.cons_append, List.cons_append, takeQuoted,
        if_neg (ne_of_isQuote quote (by decide)), if_pos rfl]
    · exact (stopsOrFails_takeQuoted quote (e :: xs)).takeQuoted_cons slash

theorem ofPair?_of_closeBracket (c : Char) : Punct.ofPair? c ']' = none := by
  unfold Punct.ofPair?
  split <;> first | rfl | exact absurd ‹_› (by decide)

theorem takePunct_closeBracket (cs : List Char) :
    takePunct ']' cs = .ok (.punct .closeBracket, cs) := by
  have single (c : Char) : Punct.ofPair? ']' c = none := by
    unfold Punct.ofPair?
    split <;> first | rfl | exact absurd ‹_› (by decide)
  unfold takePunct
  rw [Option.bind_eq_none_iff.2 fun c _ => single c]
  rfl

theorem stopsOrFails_takePunct (c : Char) (xs : List Char) : StopsOrFails (takePunct c) xs := by
  cases xs with
  | nil =>
    have single (tail : List Char) : ((']' :: tail).head?.bind (Punct.ofPair? c)) = none :=
      ofPair?_of_closeBracket c
    cases mark : Punct.ofChar? c with
    | some p =>
      refine .inl ⟨.punct p, [], Nat.le_refl _, fun tail => ?_⟩
      simp only [List.nil_append, takePunct, single, mark]
    | none =>
      refine .inr ⟨.unexpectedCharacter c, ?_⟩
      simp only [List.nil_append, takePunct, single, mark]
  | cons d xs =>
    cases pair : Punct.ofPair? c d with
    | some p =>
      refine .inl ⟨.punct p, xs, Nat.le_succ _, fun tail => ?_⟩
      simp only [List.cons_append, takePunct, List.head?_cons, Option.bind_some, pair,
        List.tail_cons]
    | none =>
      cases mark : Punct.ofChar? c with
      | some p =>
        refine .inl ⟨.punct p, d :: xs, Nat.le_refl _, fun tail => ?_⟩
        simp only [List.cons_append, takePunct, List.head?_cons, Option.bind_some, pair, mark]
      | none =>
        refine .inr ⟨.unexpectedCharacter c, ?_⟩
        simp only [List.cons_append, takePunct, List.head?_cons, Option.bind_some, pair, mark]

theorem stopsOrFails_next (c : Char) (xs : List Char) : StopsOrFails (next c) xs := by
  unfold next
  cases digit : c.isDigit with
  | true => exact (stops_takeNumber digit xs).stopsOrFails number
  | false =>
    cases start : isIdentStart c with
    | true =>
      exact (stops_span (by decide) xs).stopsOrFails fun word => name (String.ofList (c :: word))
    | false =>
      cases quote : isQuote c with
      | true =>
        have opening : c = '\'' ∨ c = '"' := by simpa [isQuote] using quote
        simp only [Bool.false_eq_true, if_false, if_pos opening]
        exact (stopsOrFails_takeQuoted quote xs).map fun inside => text (String.ofList inside)
      | false =>
        have other : ¬ (c = '\'' ∨ c = '"') := by simpa [isQuote] using quote
        simp only [Bool.false_eq_true, if_false, if_neg other]
        exact stopsOrFails_takePunct c xs

/-! ## All tokens -/

/-- A text that ends with a closing bracket is cut into the same tokens wherever it stands, the last
of which is the bracket. -/
theorem ofChars_closed {xs : List Char} {ts : List Token} (h : ofChars (xs ++ [']']) = .ok ts) :
    (∃ us, ts = us ++ [.punct .closeBracket]) ∧
      ∀ tail, ofChars (xs ++ ']' :: tail) = (ofChars tail).map (ts ++ ·) := by
  match xs with
  | [] =>
    have solid : isBlank ']' = false := by decide
    have read (tail : List Char) : next ']' tail = .ok (.punct .closeBracket, tail) :=
      takePunct_closeBracket tail
    rw [List.nil_append, ofChars_of_next solid (read []), ofChars] at h
    cases h
    refine ⟨⟨[], rfl⟩, fun tail => ?_⟩
    rw [List.nil_append, ofChars_of_next solid (read tail)]
    rfl
  | c :: xs =>
    rw [List.cons_append] at h
    cases blank : isBlank c with
    | true =>
      rw [ofChars_of_isBlank blank] at h
      obtain ⟨last, same⟩ := ofChars_closed h
      refine ⟨last, fun tail => ?_⟩
      rw [List.cons_append, ofChars_of_isBlank blank, same]
    | false =>
      rcases stopsOrFails_next c xs with ⟨token, left, le, read⟩ | ⟨fault, failed⟩
      · rw [ofChars_of_next blank (read [])] at h
        obtain ⟨more, rest, rfl⟩ := map_eq_ok.1 h
        obtain ⟨⟨us, rfl⟩, same⟩ := ofChars_closed rest
        refine ⟨⟨token :: us, rfl⟩, fun tail => ?_⟩
        rw [List.cons_append, ofChars_of_next blank (read tail), same]
        cases ofChars tail <;> rfl
      · rw [ofChars_of_error blank failed] at h
        cases h
termination_by xs.length

end KpiReport.Token
