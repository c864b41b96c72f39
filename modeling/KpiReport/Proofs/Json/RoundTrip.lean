import KpiReport.Json.Codec
import KpiReport.Proofs.Json.Numbers

/-!
# JSON values are read as they are written

The reader takes apart what the printer puts together (`Json.read?_print`): texts with all their
characters, finite numbers, lists and objects in any nesting. The reader works with fuel, of which a
value needs no more than it has characters. So the proof is by induction on the fuel, for values,
items and fields at once (`Json.ReadsBack`).

What other modules use of a codec is stated as `Json.Codec.Faithful`, which the codec of this
library is (`Json.faithful_codec`).
-/

namespace KpiReport.Json

open KpiReport.Decimal

/-! ## Texts -/

theorem hexUnit?_controlCode (c : Char) (control : c.toNat < 0x20) :
    ∃ a b d e, controlCode c = [a, b, d, e] ∧ hexUnit? a b d e = some c.toNat := by
  have all : ∀ n : Fin 0x20, List.replicate (4 - (Nat.toDigits 16 n).length) '0' ++
      Nat.toDigits 16 n = ['0', '0', Nat.digitChar (n / 16), Nat.digitChar (n % 16)] ∧
      hexUnit? '0' '0' (Nat.digitChar (n / 16)) (Nat.digitChar (n % 16)) = some n.val := by
    decide
  obtain ⟨written, read⟩ := all ⟨c.toNat, control⟩
  exact ⟨_, _, _, _, written, read⟩

theorem escaped?_of_mem_escapes :
    ∀ escape ∈ escapes, escaped? escape.2 = some escape.1 ∧ escape.2 ≠ 'u' := by
  decide

theorem not_special_of_lookup {c : Char} (none : List.lookup c escapes = none) :
    c ≠ '"' ∧ c ≠ '\\' := by
  constructor
  · rintro rfl
    cases none
  · rintro rfl
    cases none

/-- A character inside a text is read as it is written. -/
theorem readUnits?_printChar (c : Char) (rest : List Char) :
    readUnits? (printChar c ++ rest) =
      (readUnits? rest).map fun read => (c.toNat :: read.1, read.2) := by
  unfold printChar
  split
  · rename_i letter found
    obtain ⟨before, after, same, -⟩ := List.lookup_eq_some_iff.1 found
    have member : (c, letter) ∈ escapes := by
      rw [same]
      exact List.mem_append_right _ List.mem_cons_self
    obtain ⟨escaped, other⟩ := escaped?_of_mem_escapes _ member
    rw [List.cons_append, List.singleton_append, readUnits?.eq_4 _ _ fun _ _ _ _ _ same =>
      absurd same other, escaped]
    cases readUnits? rest <;> rfl
  · rename_i plain
    obtain ⟨quote, backslash⟩ := not_special_of_lookup plain
    split
    · rename_i control
      obtain ⟨a, b, d, e, code, unit⟩ := hexUnit?_controlCode c control
      rw [code]
      cases more : readUnits? rest <;> simp [readUnits?, unit, more]
    · rename_i shown
      rw [List.singleton_append, readUnits?.eq_5 _ _ quote]
      · rw [if_neg shown]
        cases readUnits? rest <;> rfl
      · exact fun _ _ _ _ _ same => absurd same backslash
      · exact fun _ _ same => absurd same backslash

theorem charsOfUnits?_toNat (cs : List Char) : charsOfUnits? (cs.map Char.toNat) = some cs := by
  have whole (c : Char) : isLeading c.toNat = false ∧ isTrailing c.toNat = false := by
    have valid := c.valid
    have value : c.toNat = c.val.toNat := rfl
    rw [UInt32.isValidChar, Nat.isValidChar, ← value] at valid
    simp only [isLeading, isTrailing, Bool.and_eq_false_iff, decide_eq_false_iff_not]
    omega
  induction cs with
  | nil => rfl
  | cons c cs ih =>
    cases cs with
    | nil => simp [charsOfUnits?, whole c]
    | cons d cs =>
      rw [List.map_cons] at ih
      rw [List.map_cons, List.map_cons, charsOfUnits?, (whole c).1, (whole c).2, ih]
      simp

/-- A text is read up to its closing quote. -/
theorem readText?_printText (s : String) (rest : List Char) :
    readText? (s.toList.flatMap printChar ++ '"' :: rest) = some (some s, rest) := by
  have units (cs : List Char) :
      readUnits? (cs.flatMap printChar ++ '"' :: rest) = some (cs.map Char.toNat, rest) := by
    induction cs with
    | nil => rw [List.flatMap_nil, List.nil_append, readUnits?, List.map_nil]
    | cons c cs ih =>
      rw [List.flatMap_cons, List.append_assoc, readUnits?_printChar, ih]
      rfl
  rw [readText?, units, Option.map_some]
  dsimp only
  rw [charsOfUnits?_toNat, Option.map_some, String.ofList_toList]

theorem toList_printText (s : String) :
    (printText s).toList = '"' :: (s.toList.flatMap printChar ++ ['"']) :=
  String.toList_ofList

/-! ## Values -/

mutual

/-- The value is made of texts, truth values, finite numbers that are no integers, lists, and
objects without repeated names. -/
def Plain : Json → Prop
  | .null => True
  | .bool _ => True
  | .text _ => True
  | .number x => isFinite x = true
  | .list items => PlainItems items
  | .object fields => (fields.map Prod.fst).Nodup ∧ PlainFields fields
  | .integer _ => False
  | .outOfRange => False

/-- The items of a list are plain. -/
def PlainItems : List Json → Prop
  | [] => True
  | item :: items => Plain item ∧ PlainItems items

/-- The values of the fields of an object are plain. -/
def PlainFields : List (String × Json) → Prop
  | [] => True
  | (_, value) :: fields => Plain value ∧ PlainFields fields

end

theorem skipSpace_cons {c : Char} (solid : isSpace c = false) (cs : List Char) :
    skipSpace (c :: cs) = c :: cs :=
  List.dropWhile_cons_of_neg (Bool.eq_false_iff.1 solid)

/-- The characters with which values start. -/
def StartsValue (c : Char) : Prop :=
  c ∈ ['n', 't', 'f', '"', '[', '\x7b', '-'] ∨ c.isDigit = true

theorem StartsValue.solid {c : Char} (h : StartsValue c) : isSpace c = false ∧ c ≠ ']' := by
  rcases h with mark | digit
  · simp only [List.mem_cons, List.not_mem_nil, or_false] at mark
    rcases mark with rfl | rfl | rfl | rfl | rfl | rfl | rfl <;> decide
  · constructor
    · rw [Bool.eq_false_iff]
      intro space
      simp only [isSpace, Bool.or_eq_true, beq_iff_eq] at space
      rcases space with ((rfl | rfl) | rfl) | rfl <;> cases digit
    · rintro rfl
      cases digit

/-- Some parts with commas between them. -/
def joined (parts : List String) : List Char :=
  (String.intercalate "," parts).toList

theorem joined_singleton (part : String) : joined [part] = part.toList := by
  rw [joined, String.toList_intercalate]
  simp [List.intercalate]

theorem joined_cons (part next : String) (parts : List String) :
    joined (part :: next :: parts) = part.toList ++ ',' :: joined (next :: parts) := by
  rw [joined, joined, String.toList_intercalate, String.toList_intercalate]
  simp [List.intercalate]

/-- Some parts with commas between them start with the first part. -/
theorem exists_joined (part : String) (parts : List String) (rest : List Char) :
    ∃ rest', joined (part :: parts) ++ rest = part.toList ++ rest' := by
  cases parts with
  | nil => exact ⟨rest, by rw [joined_singleton]⟩
  | cons next parts =>
    rw [joined_cons, List.append_assoc]
    exact ⟨_, rfl⟩

theorem toList_print_list (items : List Json) :
    (print (.list items)).toList = '[' :: (joined (printItems items) ++ [']']) := by
  rw [print, String.toList_append, String.toList_append]
  rfl

theorem toList_print_object (fields : List (String × Json)) :
    (print (.object fields)).toList = '\x7b' :: (joined (printFields fields) ++ ['\x7d']) := by
  rw [print, String.toList_append, String.toList_append]
  rfl

theorem startsValue_of_mark {c : Char} (h : c ∈ ['n', 't', 'f', '"', '[', '\x7b', '-']) :
    StartsValue c :=
  .inl h

theorem exists_print {j : Json} (h : Plain j) :
    ∃ c cs, (print j).toList = c :: cs ∧ StartsValue c := by
  cases j with
  | null => exact ⟨'n', _, rfl, startsValue_of_mark (by decide)⟩
  | bool b =>
    cases b with
    | true => exact ⟨'t', _, rfl, startsValue_of_mark (by decide)⟩
    | false => exact ⟨'f', _, rfl, startsValue_of_mark (by decide)⟩
  | number x =>
    obtain ⟨c, cs, same, minus | digit⟩ := exists_of_readNumber? (readNumber?_printNumber h)
    · exact ⟨c, cs, same, startsValue_of_mark (by simp [minus])⟩
    · exact ⟨c, cs, same, .inr digit⟩
  | text s => exact ⟨'"', _, toList_printText s, startsValue_of_mark (by decide)⟩
  | list items => exact ⟨'[', _, toList_print_list items, startsValue_of_mark (by decide)⟩
  | object fields => exact ⟨'\x7b', _, toList_print_object fields, startsValue_of_mark (by decide)⟩
  | integer n => exact h.elim
  | outOfRange => exact h.elim

theorem readValue?_number {c : Char} (start : c = '-' ∨ c.isDigit = true) (fuel : Nat)
    (cs : List Char) : readValue? (fuel + 1) (c :: cs) = readNumber? (c :: cs) := by
  have solid : StartsValue c := start.imp (fun same => by simp [same]) id
  have other : ∀ d ∈ ['n', 't', 'f', '"', '[', '\x7b'], c ≠ d := by
    rintro d member rfl
    rcases start with rfl | digit
    · exact absurd member (by decide)
    · simp only [List.mem_cons, List.not_mem_nil, or_false] at member
      rcases member with rfl | rfl | rfl | rfl | rfl | rfl <;> cases digit
  rw [readValue?, skipSpace_cons solid.solid.1]
  split <;> rename_i same <;> cases same
  · exact absurd rfl (other _ (by decide))
  · exact absurd rfl (other _ (by decide))
  · exact absurd rfl (other _ (by decide))
  · exact absurd rfl (other _ (by decide))
  · exact absurd rfl (other _ (by decide))
  · exact absurd rfl (other _ (by decide))
  · rfl

theorem follows_cons {c : Char} (mark : c ∈ [',', ']', '\x7d']) (rest : List Char) :
    Follows (c :: rest) := by
  rintro d ⟨⟩
  exact mark

/-- Fields as the reader finds them, with names that are texts. -/
def named (fields : List (String × Json)) : List (Option String × Json) :=
  fields.map fun field => (some field.1, field.2)

/-- What is written is read back with some fuel: values, and the items and the fields of lists and
objects up to their closing brackets. -/
structure ReadsBack (fuel : Nat) : Prop where
  value : ∀ (j : Json) (rest : List Char), Plain j → Follows rest →
    (print j).toList.length ≤ fuel →
    readValue? fuel ((print j).toList ++ rest) = some (j, rest)
  items : ∀ (item : Json) (items : List Json) (rest : List Char), Plain item →
    PlainItems items → (joined (printItems (item :: items))).length < fuel →
    readItems? fuel (joined (printItems (item :: items)) ++ ']' :: rest) =
      some (item :: items, rest)
  fields : ∀ (name : String) (value : Json) (fields : List (String × Json)) (rest : List Char),
    Plain value → PlainFields fields →
    (joined (printFields ((name, value) :: fields))).length < fuel →
    readFields? fuel (joined (printFields ((name, value) :: fields)) ++ '\x7d' :: rest) =
      some (named ((name, value) :: fields), rest)

theorem ofReadFields_named (fields : List (String × Json)) :
    ofReadFields (named fields) = .object fields := by
  have each : (named fields).mapM
      (fun field : Option String × Json => field.1.map fun name => (name, field.2)) =
        some fields := by
    induction fields with
    | nil => rfl
    | cons field fields ih =>
      rw [named, List.map_cons, ← named, List.mapM_cons, ih]
      rfl
  unfold ofReadFields
  rw [each]

theorem readValue?_bracket (fuel : Nat) (cs : List Char) : readValue? (fuel + 1) ('[' :: cs) =
    match skipSpace cs with
    | ']' :: rest => some (.list [], rest)
    | rest => (readItems? fuel rest).map fun read => (.list read.1, read.2) := by
  rw [readValue?, skipSpace_cons (by decide)]
  rfl

theorem readValue?_brace (fuel : Nat) (cs : List Char) : readValue? (fuel + 1) ('\x7b' :: cs) =
    match skipSpace cs with
    | '\x7d' :: rest => some (.object [], rest)
    | rest => (readFields? fuel rest).map fun read => (ofReadFields read.1, read.2) := by
  rw [readValue?, skipSpace_cons (by decide)]
  rfl

theorem readValue?_quote (fuel : Nat) (cs : List Char) : readValue? (fuel + 1) ('"' :: cs) =
    (readText? cs).map fun read => (ofReadText read.1, read.2) := by
  rw [readValue?, skipSpace_cons (by decide)]
  rfl

theorem readValue?_null (fuel : Nat) (rest : List Char) :
    readValue? (fuel + 1) ("null".toList ++ rest) = some (.null, rest) := by
  change readValue? (fuel + 1) ('n' :: _) = _
  rw [readValue?, skipSpace_cons (by decide)]
  rfl

theorem readValue?_bool (b : Bool) (fuel : Nat) (rest : List Char) :
    readValue? (fuel + 1) ((print (.bool b)).toList ++ rest) = some (.bool b, rest) := by
  cases b with
  | true =>
    change readValue? (fuel + 1) ('t' :: _) = _
    rw [readValue?, skipSpace_cons (by decide)]
    rfl
  | false =>
    change readValue? (fuel + 1) ('f' :: _) = _
    rw [readValue?, skipSpace_cons (by decide)]
    rfl

theorem readItems?_next {fuel : Nat} {cs rest rest' : List Char} {item : Json}
    {items : List Json} (read : readValue? fuel cs = some (item, ',' :: rest))
    (more : readItems? fuel rest = some (items, rest')) :
    readItems? (fuel + 1) cs = some (item :: items, rest') := by
  have comma : skipSpace (',' :: rest) = ',' :: rest := skipSpace_cons (by decide) rest
  rw [readItems?]
  simp only [read, comma, more, Option.bind_eq_bind, Option.bind_some]
  rfl

theorem readItems?_last {fuel : Nat} {cs rest : List Char} {item : Json}
    (read : readValue? fuel cs = some (item, ']' :: rest)) :
    readItems? (fuel + 1) cs = some ([item], rest) := by
  have bracket : skipSpace (']' :: rest) = ']' :: rest := skipSpace_cons (by decide) rest
  rw [readItems?]
  simp only [read, bracket, Option.bind_eq_bind, Option.bind_some]
  rfl

theorem readFields?_next {fuel : Nat} {cs rest rest' : List Char} {name : String} {value : Json}
    {fields : List (Option String × Json)} (read : readValue? fuel cs = some (value, ',' :: rest))
    (more : readFields? fuel rest = some (fields, rest')) :
    readFields? (fuel + 1) ((printText name).toList ++ ':' :: cs) =
      some ((some name, value) :: fields, rest') := by
  have comma : skipSpace (',' :: rest) = ',' :: rest := skipSpace_cons (by decide) rest
  have colon : skipSpace (':' :: cs) = ':' :: cs := skipSpace_cons (by decide) cs
  rw [toList_printText, List.cons_append, List.append_assoc, List.singleton_append, readFields?,
    skipSpace_cons (by decide)]
  simp only [readText?_printText, read, comma, colon, more, Option.bind_eq_bind, Option.bind_some]
  rfl

theorem readFields?_last {fuel : Nat} {cs rest : List Char} {name : String} {value : Json}
    (read : readValue? fuel cs = some (value, '\x7d' :: rest)) :
    readFields? (fuel + 1) ((printText name).toList ++ ':' :: cs) =
      some ([(some name, value)], rest) := by
  have brace : skipSpace ('\x7d' :: rest) = '\x7d' :: rest := skipSpace_cons (by decide) rest
  have colon : skipSpace (':' :: cs) = ':' :: cs := skipSpace_cons (by decide) cs
  rw [toList_printText, List.cons_append, List.append_assoc, List.singleton_append, readFields?,
    skipSpace_cons (by decide)]
  simp only [readText?_printText, read, brace, colon, Option.bind_eq_bind, Option.bind_some]
  rfl

/-- A field as it is written. -/
theorem toList_printField (name : String) (value : Json) :
    (printText name ++ ":" ++ print value).toList =
      (printText name).toList ++ ':' :: (print value).toList := by
  rw [String.toList_append, String.toList_append, List.append_assoc]
  rfl

theorem exists_joined_printItems {item : Json} (h : Plain item) (items : List Json)
    (rest : List Char) : ∃ c cs, joined (printItems (item :: items)) ++ rest = c :: cs ∧
      isSpace c = false ∧ c ≠ ']' := by
  obtain ⟨c, cs, same, start⟩ := exists_print h
  obtain ⟨rest', first⟩ := exists_joined (print item) (printItems items) rest
  refine ⟨c, cs ++ rest', ?_, start.solid⟩
  rw [printItems, first, same, List.cons_append]

theorem exists_joined_printFields (name : String) (value : Json) (fields : List (String × Json))
    (rest : List Char) :
    ∃ cs, joined (printFields ((name, value) :: fields)) ++ rest = '"' :: cs := by
  obtain ⟨rest', first⟩ :=
    exists_joined (printText name ++ ":" ++ print value) (printFields fields) rest
  rw [printFields, first, toList_printField, toList_printText, List.append_assoc, List.cons_append]
  exact ⟨_, rfl⟩

namespace ReadsBack

variable {fuel : Nat} (h : ReadsBack fuel)

include h

theorem list_succ (items : List Json) (rest : List Char) (plain : PlainItems items)
    (room : (print (.list items)).toList.length ≤ fuel + 1) :
    readValue? (fuel + 1) ((print (.list items)).toList ++ rest) =
      some (.list items, rest) := by
  rw [toList_print_list] at room ⊢
  rw [List.length_cons, List.length_append, List.length_singleton] at room
  rw [List.cons_append, List.append_assoc, List.singleton_append, readValue?_bracket]
  cases items with
  | nil => rfl
  | cons item items =>
    obtain ⟨c, cs, same, solid, other⟩ := exists_joined_printItems plain.1 items (']' :: rest)
    have read := h.items item items rest plain.1 plain.2 (by omega)
    rw [same] at read ⊢
    rw [skipSpace_cons solid]
    split
    · rename_i same
      cases same
      exact absurd rfl other
    · rw [read]
      rfl

theorem object_succ (fields : List (String × Json)) (rest : List Char)
    (plain : PlainFields fields)
    (room : (print (.object fields)).toList.length ≤ fuel + 1) :
    readValue? (fuel + 1) ((print (.object fields)).toList ++ rest) =
      some (.object fields, rest) := by
  rw [toList_print_object] at room ⊢
  rw [List.length_cons, List.length_append, List.length_singleton] at room
  rw [List.cons_append, List.append_assoc, List.singleton_append, readValue?_brace]
  cases fields with
  | nil => rfl
  | cons field fields =>
    obtain ⟨name, value⟩ := field
    obtain ⟨cs, same⟩ := exists_joined_printFields name value fields ('\x7d' :: rest)
    have read := h.fields name value fields rest plain.1 plain.2 (by omega)
    rw [same] at read ⊢
    rw [skipSpace_cons (by decide)]
    change (readFields? fuel _).map _ = _
    rw [read, Option.map_some, ofReadFields_named]

theorem value_succ (j : Json) (rest : List Char) (plain : Plain j) (ends : Follows rest)
    (room : (print j).toList.length ≤ fuel + 1) :
    readValue? (fuel + 1) ((print j).toList ++ rest) = some (j, rest) := by
  cases j with
  | null => exact readValue?_null fuel rest
  | bool b => exact readValue?_bool b fuel rest
  | number x =>
    have read := readNumber?_printNumber plain
    obtain ⟨c, cs, same, start⟩ := exists_of_readNumber? read
    rw [print, same, List.cons_append, readValue?_number start, ← List.cons_append,
      ← same, readNumber?_append ends, read]
    rfl
  | text s =>
    rw [print, toList_printText, List.cons_append, List.append_assoc, List.singleton_append,
      readValue?_quote, readText?_printText]
    rfl
  | list items => exact h.list_succ items rest plain room
  | object fields => exact h.object_succ fields rest plain.2 room
  | integer n => exact plain.elim
  | outOfRange => exact plain.elim

theorem items_succ (item : Json) (items : List Json) (rest : List Char) (plain : Plain item)
    (more : PlainItems items)
    (room : (joined (printItems (item :: items))).length < fuel + 1) :
    readItems? (fuel + 1) (joined (printItems (item :: items)) ++ ']' :: rest) =
      some (item :: items, rest) := by
  cases items with
  | nil =>
    rw [printItems, printItems, joined_singleton] at room ⊢
    exact readItems?_last (h.value item _ plain (follows_cons (by decide) rest) (by omega))
  | cons next items =>
    rw [printItems, printItems, joined_cons, ← printItems] at room ⊢
    rw [List.length_append, List.length_cons] at room
    rw [List.append_assoc, List.cons_append]
    exact readItems?_next (h.value item _ plain (follows_cons (by decide) _) (by omega))
      (h.items next items rest more.1 more.2 (by omega))

theorem fields_succ (name : String) (value : Json) (fields : List (String × Json))
    (rest : List Char) (plain : Plain value) (more : PlainFields fields)
    (room : (joined (printFields ((name, value) :: fields))).length < fuel + 1) :
    readFields? (fuel + 1) (joined (printFields ((name, value) :: fields)) ++ '\x7d' :: rest) =
      some (named ((name, value) :: fields), rest) := by
  cases fields with
  | nil =>
    rw [printFields, printFields, joined_singleton, toList_printField] at room ⊢
    rw [List.length_append, List.length_cons] at room
    rw [List.append_assoc, List.cons_append]
    exact readFields?_last (h.value value _ plain (follows_cons (by decide) rest) (by omega))
  | cons next fields =>
    obtain ⟨name', value'⟩ := next
    rw [printFields, printFields, joined_cons, ← printFields, toList_printField] at room ⊢
    rw [List.length_append, List.length_append, List.length_cons, List.length_cons] at room
    rw [List.append_assoc, List.append_assoc, List.cons_append, List.cons_append]
    exact readFields?_next (h.value value _ plain (follows_cons (by decide) _) (by omega))
      (h.fields name' value' fields rest more.1 more.2 (by omega))

end ReadsBack

theorem readsBack (fuel : Nat) : ReadsBack fuel := by
  induction fuel with
  | zero =>
    refine ⟨fun j rest plain _ room => ?_, ?_, ?_⟩
    · obtain ⟨c, cs, same, -⟩ := exists_print plain
      rw [same] at room
      cases room
    · intro item items rest _ _ room
      cases room
    · intro name value fields rest _ _ room
      cases room
  | succ fuel ih => exact ⟨ih.value_succ, ih.items_succ, ih.fields_succ⟩

/-- **A plain value is read as it is written.** -/
theorem read?_print {j : Json} (plain : Plain j) : read? (print j) = some j := by
  have value := (readsBack (2 * (print j).toList.length + 2)).value j [] plain nofun (by omega)
  rw [List.append_nil] at value
  rw [read?]
  simp only [value]
  rfl

/-! ## Codecs -/

/-- Plain values are read as they are written unless they are too deep, and too deep ones are not
read. -/
structure Codec.Faithful (codec : Codec) : Prop where
  read?_print : ∀ j, Plain j → j.depth ≤ deepest → codec.read? (codec.print j) = some j
  read?_deeper : ∀ j, Plain j → deepest < j.depth → codec.read? (codec.print j) = none

theorem faithful_codec : codec.Faithful where
  read?_print j plain shallow := by
    change (Json.read? (Json.print j)).filter _ = _
    rw [Json.read?_print plain, Option.filter_some, if_pos (decide_eq_true shallow)]
  read?_deeper j plain deep := by
    change (Json.read? (Json.print j)).filter _ = _
    rw [Json.read?_print plain, Option.filter_some]
    exact if_neg fun shallow => absurd (of_decide_eq_true shallow) (Nat.not_le.2 deep)

end KpiReport.Json
