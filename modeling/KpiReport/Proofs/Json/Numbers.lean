import KpiReport.Json.Printer
import KpiReport.Json.Reader
import KpiReport.Proofs.Decimal.Shortest
import Mathlib.Data.List.TakeWhile

/-!
# JSON numbers are read as they are written

A number is written with a point or an exponent always, so it is never read as a whole number. Its
digits are those of its shortest decimal, wherever the point is put; so what is read is the number
itself (`readNumber?_printNumber`), whatever value follows it (`readNumber?_append`).
-/

namespace KpiReport.Json

open KpiReport.Decimal

/-! ## The parts of a literal -/

/-- Takes a minus sign. -/
def takeMinus : List Char → Bool × List Char
  | '-' :: cs => (true, cs)
  | cs => (false, cs)

/-- Whether digits may stand before the point of a literal. -/
def isWhole (ds : List Char) : Bool :=
  !(ds.isEmpty || (ds.head? == some '0' && 1 < ds.length))

/-- Reads the decimal places of a literal. -/
def readPlaces? : List Char → Option (List Char × List Char)
  | '.' :: cs => if (takeDigits cs).1.isEmpty then none else some (takeDigits cs)
  | cs => some ([], cs)

/-- Reads the exponent of a literal. -/
def readExponent? : List Char → Option (Option Int × List Char)
  | [] => some (none, [])
  | e :: cs =>
    if e == 'e' || e == 'E' then
      let sign := takeSign cs
      let digits := takeDigits sign.2
      if digits.1.isEmpty then none
      else some (some (if sign.1 then -(ofDigits digits.1 : Int) else ofDigits digits.1), digits.2)
    else some (none, e :: cs)

theorem readNumber?_eq (cs : List Char) : readNumber? cs =
    let sign := takeMinus cs
    let digits := takeDigits sign.2
    if isWhole digits.1 then
      (readPlaces? digits.2).bind fun places =>
        (readExponent? places.2).map fun exponent =>
          (ofLiteral sign.1 digits.1 places.1 exponent.1, exponent.2)
    else none := by
  unfold readNumber?
  split
  rename_i negative ds same
  have sign : takeMinus cs = (negative, ds) := same
  rw [sign]
  dsimp only
  split
  · rename_i bad
    rw [isWhole, bad]
    rfl
  · rename_i good
    rw [isWhole, Bool.eq_false_iff.2 good, if_pos (by rfl)]
    split
    · rename_i places found
      rw [found, readPlaces?]
      split
      · rfl
      · grind [readExponent?]
    · rename_i other
      rw [readPlaces?.eq_2 _ other]
      grind [readExponent?]

/-! ## What follows a number -/

/-- What follows a value: the end, a comma or a closing bracket. -/
def Follows (rest : List Char) : Prop :=
  ∀ c ∈ rest.head?, c ∈ [',', ']', '\x7d']

theorem takeDigits_append {rest : List Char} (ends : ∀ c ∈ rest.head?, c.isDigit = false)
    (cs : List Char) :
    takeDigits (cs ++ rest) = ((takeDigits cs).1, (takeDigits cs).2 ++ rest) := by
  induction cs with
  | nil =>
    cases rest with
    | nil => rfl
    | cons c rest => simp [takeDigits, ends c rfl]
  | cons c cs ih =>
    cases digit : c.isDigit with
    | true => simpa [takeDigits, digit] using ih
    | false => simp [takeDigits, digit]

section Follows

variable {rest : List Char} (ends : Follows rest)

include ends

theorem Follows.eq_nil_or :
    rest = [] ∨ ∃ c cs, rest = c :: cs ∧ (c = ',' ∨ c = ']' ∨ c = '\x7d') := by
  cases rest with
  | nil => exact .inl rfl
  | cons c cs =>
    have mark := ends c rfl
    simp only [List.mem_cons, List.not_mem_nil, or_false] at mark
    exact .inr ⟨c, cs, rfl, mark⟩

theorem Follows.not_isDigit : ∀ c ∈ rest.head?, c.isDigit = false := by
  intro c first
  obtain rfl | ⟨d, cs, rfl, rfl | rfl | rfl⟩ := ends.eq_nil_or <;> cases first <;> decide

theorem takeMinus_append (cs : List Char) :
    takeMinus (cs ++ rest) = ((takeMinus cs).1, (takeMinus cs).2 ++ rest) := by
  cases cs with
  | nil => obtain rfl | ⟨d, ds, rfl, rfl | rfl | rfl⟩ := ends.eq_nil_or <;> rfl
  | cons c cs =>
    by_cases minus : c = '-'
    · subst minus
      rfl
    · rw [List.cons_append, takeMinus.eq_2 _ fun _ same => minus (List.cons.inj same).1,
        takeMinus.eq_2 _ fun _ same => minus (List.cons.inj same).1]
      rfl

theorem takeSign_append (cs : List Char) :
    takeSign (cs ++ rest) = ((takeSign cs).1, (takeSign cs).2 ++ rest) := by
  cases cs with
  | nil => obtain rfl | ⟨d, ds, rfl, rfl | rfl | rfl⟩ := ends.eq_nil_or <;> rfl
  | cons c cs =>
    by_cases minus : c = '-'
    · subst minus
      rfl
    · by_cases plus : c = '+'
      · subst plus
        rfl
      · rw [List.cons_append, takeSign.eq_3 _ (fun _ same => minus (List.cons.inj same).1)
          fun _ same => plus (List.cons.inj same).1,
          takeSign.eq_3 _ (fun _ same => minus (List.cons.inj same).1)
          fun _ same => plus (List.cons.inj same).1]
        rfl

theorem readPlaces?_append (cs : List Char) : readPlaces? (cs ++ rest) =
    (readPlaces? cs).map fun read => (read.1, read.2 ++ rest) := by
  cases cs with
  | nil => obtain rfl | ⟨d, ds, rfl, rfl | rfl | rfl⟩ := ends.eq_nil_or <;> rfl
  | cons c cs =>
    by_cases point : c = '.'
    · subst point
      rw [List.cons_append, readPlaces?, readPlaces?, takeDigits_append ends.not_isDigit]
      dsimp only
      split <;> rfl
    · rw [List.cons_append, readPlaces?.eq_2 _ fun _ same => point (List.cons.inj same).1,
        readPlaces?.eq_2 _ fun _ same => point (List.cons.inj same).1]
      rfl

theorem readExponent?_append (cs : List Char) : readExponent? (cs ++ rest) =
    (readExponent? cs).map fun read => (read.1, read.2 ++ rest) := by
  cases cs with
  | nil => obtain rfl | ⟨d, ds, rfl, rfl | rfl | rfl⟩ := ends.eq_nil_or <;> rfl
  | cons e cs =>
    rw [List.cons_append, readExponent?, readExponent?]
    dsimp only
    rw [takeSign_append ends, takeDigits_append ends.not_isDigit]
    split
    · split <;> rfl
    · rfl

/-- A number is read whatever value follows it. -/
theorem readNumber?_append (cs : List Char) :
    readNumber? (cs ++ rest) = (readNumber? cs).map fun read => (read.1, read.2 ++ rest) := by
  rw [readNumber?_eq, readNumber?_eq]
  dsimp only
  rw [takeMinus_append ends, takeDigits_append ends.not_isDigit]
  dsimp only
  split
  · rw [readPlaces?_append ends]
    cases readPlaces? (takeDigits (takeMinus cs).2).2 with
    | none => rfl
    | some places =>
      dsimp only [Option.map_some, Option.bind_some]
      rw [readExponent?_append ends]
      cases readExponent? places.2 with
      | none => rfl
      | some exponent => rfl
  · rfl

end Follows

/-- A number starts with a minus sign or a digit. -/
theorem exists_of_readNumber? {cs rest : List Char} {value : Json}
    (h : readNumber? cs = some (value, rest)) :
    ∃ c ds, cs = c :: ds ∧ (c = '-' ∨ c.isDigit = true) := by
  rw [readNumber?_eq] at h
  cases cs with
  | nil => cases h
  | cons c cs =>
    refine ⟨c, cs, rfl, ?_⟩
    by_cases minus : c = '-'
    · exact .inl minus
    · right
      rw [takeMinus.eq_2 _ fun _ same => minus (List.cons.inj same).1] at h
      dsimp only at h
      split at h
      · rename_i whole
        cases digit : c.isDigit with
        | true => rfl
        | false =>
          simp [takeDigits, digit, isWhole] at whole
      · cases h

/-! ## Written numbers -/

theorem takeDigits_of_all {ds rest : List Char} (all : ∀ c ∈ ds, c.isDigit = true)
    (ends : ∀ c ∈ rest.head?, c.isDigit = false) : takeDigits (ds ++ rest) = (ds, rest) := by
  have own : takeDigits ds = (ds, []) := by
    rw [takeDigits, List.takeWhile_eq_self_iff.2 all, List.dropWhile_eq_nil_iff.2 all]
  rw [takeDigits_append ends, own, List.nil_append]

namespace Numeral

/-- The digits before the point are those of a whole number, and there are digits only. -/
structure Valid (numeral : Numeral) : Prop where
  whole : isWhole numeral.whole = true
  all : ∀ c ∈ numeral.whole ++ numeral.places, c.isDigit = true

theorem head_scaled (exponent : Option Int) :
    ∀ c ∈ (scaled exponent).head?, c.isDigit = false ∧ c ≠ '.' := by
  cases exponent with
  | none => nofun
  | some power =>
    rintro c ⟨⟩
    decide

theorem takeSign_sign (negative : Bool) (n : ℕ) :
    takeSign (sign negative ++ digits n) = (negative, digits n) := by
  cases negative with
  | true => rfl
  | false =>
    obtain ⟨c, cs, same⟩ := List.exists_cons_of_ne_nil (digits_ne_nil n)
    have listed : c ∈ digits n := by
      rw [same]
      exact List.mem_cons_self
    have digit : c.isDigit = true := isDigit_of_mem_digits listed
    change takeSign (digits n) = _
    rw [same]
    refine takeSign.eq_3 _ ?_ ?_ <;> rintro ds ⟨⟩ <;> exact absurd digit (by decide)

theorem readExponent?_scaled (exponent : Option Int) :
    readExponent? (scaled exponent) = some (exponent, []) := by
  cases exponent with
  | none => rfl
  | some power =>
    have taken : takeDigits (digits power.natAbs ++ []) = (digits power.natAbs, []) :=
      takeDigits_of_all (fun c => isDigit_of_mem_digits) nofun
    rw [List.append_nil] at taken
    have value : (if power < 0 then -(power.natAbs : ℤ) else power.natAbs) = power := by
      split <;> omega
    rw [scaled, readExponent?, if_pos (by decide), takeSign_sign]
    dsimp only
    rw [taken, List.isEmpty_eq_false_iff.2 (digits_ne_nil _), if_neg Bool.false_ne_true,
      ofDigits_digits]
    simp only [decide_eq_true_eq, value]

theorem readPlaces?_pointed {places rest : List Char} (all : ∀ c ∈ places, c.isDigit = true)
    (ends : ∀ c ∈ rest.head?, c.isDigit = false ∧ c ≠ '.') :
    readPlaces? (pointed places ++ rest) = some (places, rest) := by
  cases places with
  | nil =>
    change readPlaces? rest = _
    refine readPlaces?.eq_2 _ ?_
    rintro cs rfl
    exact (ends '.' rfl).2 rfl
  | cons c cs =>
    have taken := takeDigits_of_all all fun c first => (ends c first).1
    change readPlaces? ('.' :: (c :: cs ++ rest)) = _
    rw [readPlaces?, taken]
    rfl

/-- A written number is taken apart into its parts. -/
theorem readNumber?_chars (negative : Bool) {numeral : Numeral} (valid : numeral.Valid) :
    readNumber? (sign negative ++ numeral.chars) =
      some (ofLiteral negative numeral.whole numeral.places numeral.exponent, []) := by
  have all := valid.all
  rw [List.forall_mem_append] at all
  have ends : ∀ c ∈ (pointed numeral.places ++ scaled numeral.exponent).head?,
      c.isDigit = false := by
    unfold pointed
    split
    · exact fun c first => (head_scaled _ c first).1
    · rintro c ⟨⟩
      decide
  have whole := takeDigits_of_all all.1 ends
  have minus : takeMinus (sign negative ++ numeral.chars) = (negative, numeral.chars) := by
    cases negative with
    | true => rfl
    | false =>
      change takeMinus numeral.chars = _
      refine takeMinus.eq_2 _ ?_
      intro cs same
      have positive := valid.whole
      rw [isWhole] at positive
      cases digits : numeral.whole with
      | nil =>
        rw [digits] at positive
        cases positive
      | cons c ds =>
        rw [Numeral.chars, digits] at same
        cases same
        exact absurd (all.1 '-' (by rw [digits]; exact List.mem_cons_self)) (by decide)
  rw [readNumber?_eq, minus]
  dsimp only
  rw [Numeral.chars, whole]
  dsimp only
  rw [if_pos valid.whole, readPlaces?_pointed all.2 (head_scaled _), Option.bind_some]
  dsimp only
  rw [readExponent?_scaled]
  rfl

section Decimal

theorem isWhole_of_head {ds : List Char} (nonempty : ds ≠ []) (first : ds.head? ≠ some '0') :
    isWhole ds = true := by
  rw [isWhole, List.isEmpty_eq_false_iff.2 nonempty, beq_eq_false_iff_ne.2 first]
  rfl

variable (n : ℕ) (power : ℤ)

/-- Wherever its point is put, a decimal keeps its value. -/
theorem value_ofDecimal :
    (ofDigits ((ofDecimal n power).whole ++ (ofDecimal n power).places) : ℚ) *
      10 ^ ((ofDecimal n power).exponent.getD 0 - (ofDecimal n power).places.length) =
        n * 10 ^ power := by
  have length : 0 < (digits n).length := Nat.length_toDigits_pos
  unfold ofDecimal
  dsimp only
  split
  · have exponent : ((digits n).length : ℤ) + power - 1 - ((digits n).length - 1 : ℕ) = power := by
      omega
    rw [List.take_append_drop, ofDigits_digits, List.length_drop, Option.getD_some, exponent]
  · split
    · rename_i whole
      obtain ⟨k, rfl⟩ := Int.eq_ofNat_of_zero_le whole
      have zeros : ofDigits (List.replicate (k : ℤ).toNat '0' ++ ['0']) = 0 := ofDigits_zeros _ _
      rw [List.append_assoc, ofDigits_append, zeros, ofDigits_digits, List.length_append,
        List.length_replicate, Int.toNat_natCast, zpow_natCast]
      push_cast
      rw [pow_add]
      norm_num
      ring
    · rename_i fraction
      split
      · have exponent : 0 - (((digits n).length - ((digits n).length + power).toNat : ℕ) : ℤ) =
            power := by omega
        rw [List.take_append_drop, ofDigits_digits, List.length_drop, Option.getD_none, exponent]
      · have exponent : 0 - (((-((digits n).length + power)).toNat + (digits n).length : ℕ) : ℤ) =
            power := by omega
        have zeros := ofDigits_zeros ((-((digits n).length + power)).toNat + 1) (digits n)
        rw [List.replicate_succ, List.cons_append] at zeros
        rw [List.singleton_append, zeros, ofDigits_digits, List.length_append,
          List.length_replicate, Option.getD_none, exponent]

variable {n power}

theorem valid_ofDecimal (unsplit : 0 < n ∨ power = 0) : (ofDecimal n power).Valid := by
  have all : ∀ c ∈ digits n, c.isDigit = true := fun c => isDigit_of_mem_digits
  have zeros (k : ℕ) : ∀ c ∈ List.replicate k '0', c.isDigit = true := by
    intro c zero
    rw [List.eq_of_mem_replicate zero]
    decide
  obtain ⟨c, cs, same⟩ := List.exists_cons_of_ne_nil (digits_ne_nil n)
  unfold ofDecimal
  dsimp only
  split
  · refine ⟨?_, by rwa [List.take_append_drop]⟩
    rw [same]
    simp [isWhole]
  · split
    · rename_i whole
      refine ⟨?_, ?_⟩
      · rcases Nat.eq_zero_or_pos n with rfl | positive
        · obtain rfl : power = 0 := by omega
          decide
        · have first := head_digits positive
          refine isWhole_of_head (List.append_ne_nil_of_left_ne_nil (digits_ne_nil n) _) ?_
          rw [same] at first ⊢
          exact first
      · rw [List.append_assoc, List.forall_mem_append, List.forall_mem_append]
        exact ⟨all, zeros _, zeros 1⟩
    · rename_i fraction
      split
      · rename_i inside
        refine ⟨?_, by rwa [List.take_append_drop]⟩
        have positive : 0 < n := unsplit.resolve_right fun zero => fraction zero.ge
        obtain ⟨k, point⟩ : ∃ k, ((digits n).length + power).toNat = k + 1 :=
          ⟨((digits n).length + power).toNat - 1, by omega⟩
        have first := head_digits positive
        rw [point, same, List.take_succ_cons]
        rw [same] at first
        exact isWhole_of_head (List.cons_ne_nil _ _) first
      · refine ⟨rfl, ?_⟩
        rw [List.singleton_append, List.forall_mem_cons, List.forall_mem_append]
        exact ⟨rfl, zeros _, all⟩

variable (n power)

/-- A decimal is not written as a whole number is. -/
theorem not_whole_ofDecimal :
    ((ofDecimal n power).places.isEmpty && (ofDecimal n power).exponent.isNone) = false := by
  unfold ofDecimal
  dsimp only
  split
  · exact Bool.and_false _
  · split
    · rfl
    · rename_i fraction
      split
      · have more : (digits n).drop ((digits n).length + power).toNat ≠ [] := by
          rw [ne_eq, List.drop_eq_nil_iff]
          omega
        rw [List.isEmpty_eq_false_iff.2 more]
        rfl
      · rw [List.isEmpty_eq_false_iff.2 (List.append_ne_nil_of_right_ne_nil _ (digits_ne_nil n))]
        rfl

end Decimal

end Numeral

/-- A literal with a point or an exponent is the double whose parts its digits give, with its
sign. -/
theorem ofLiteral_eq {negative : Bool} {m : ℕ} {e : ℤ} {x : Float} {numeral : Numeral}
    (other : (numeral.places.isEmpty && numeral.exponent.isNone) = false)
    (parts : Parts.ofFloat x = .finite negative m e)
    (read : Parts.ofFloat (ofPlaces numeral.whole numeral.places (numeral.exponent.getD 0)) =
      .finite false m e) :
    ofLiteral negative numeral.whole numeral.places numeral.exponent = .number x := by
  have finite : isFinite (ofPlaces numeral.whole numeral.places (numeral.exponent.getD 0)) =
      true := by rw [isFinite, read]
  unfold ofLiteral
  dsimp only
  simp only [other, Bool.false_and, Bool.false_eq_true, if_false, finite, if_true]
  cases negative with
  | false => exact congrArg Json.number (Parts.eq_of_ofFloat_finite read parts)
  | true => exact congrArg Json.number (Parts.eq_of_ofFloat_finite (ofFloat_neg read) parts)

/-- **A finite number is read as it is written.** -/
theorem readNumber?_printNumber {x : Float} (finite : isFinite x = true) :
    readNumber? (printNumber x).toList = some (.number x, []) := by
  obtain ⟨negative, m, e, parts⟩ : ∃ negative m e, Parts.ofFloat x = .finite negative m e := by
    unfold isFinite at finite
    split at finite
    · exact ⟨_, _, _, ‹_›⟩
    · cases finite
  obtain ⟨c, great⟩ := Parts.canonical_of_ofFloat parts
  unfold printNumber
  rw [parts]
  dsimp only
  generalize chosen : (if m = 0 then (0, 0) else shortestDecimal m e) = decimal
  have unsplit : 0 < decimal.1 ∨ decimal.2 = 0 := by
    rw [← chosen]
    split
    · exact .inr rfl
    · exact .inl (shortestDecimal_pos (Nat.pos_of_ne_zero ‹_›) c.mantissa_lt)
  have read : Parts.ofFloat (ofScaled decimal.1 decimal.2) = .finite false m e := by
    rw [← chosen]
    split
    · rename_i zero
      subst zero
      obtain rfl := c.eq_leastExponent (by decide)
      rfl
    · exact ofFloat_shortestDecimal (Nat.pos_of_ne_zero ‹_›) c great
  rw [← ofScaled_congr (Numeral.value_ofDecimal decimal.1 decimal.2)] at read
  rw [String.toList_ofList, Numeral.readNumber?_chars negative (Numeral.valid_ofDecimal unsplit),
    ofLiteral_eq (Numeral.not_whole_ofDecimal _ _) parts read]

end KpiReport.Json
