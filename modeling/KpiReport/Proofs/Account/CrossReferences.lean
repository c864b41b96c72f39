import KpiReport.Proofs.Account.OwnNames
import KpiReport.Proofs.Account.SelectorText
import Mathlib.Data.List.Chain

/-!
# References in a formula and in its substituted text

References are looked for twice: in a formula as it is written, where account tokens are cut into
tokens like everything else, and in its text with names for its account tokens. The two agree but
for references to the names, as long as no account token is part of a reference
(`Registry.references_sublist`, `Registry.references_eq`).
-/

namespace KpiReport

open KpiReport.Text

/-! ## Dots next to account tokens -/

namespace AccountToken

/-- Whether some account token follows a dot, blank characters apart; before the pieces stands a dot
iff `afterDot`. -/
def followsDot (afterDot : Bool) : List Piece → Bool
  | [] => false
  | .token _ :: ps => afterDot || followsDot false ps
  | .plain c :: ps => followsDot (c == '.' || afterDot && isBlank c) ps

/-- Whether a dot follows some account token that is a single word, blank characters apart; before
the pieces stands such an account token iff `afterWord`. -/
def precedesDot (afterWord : Bool) : List Piece → Bool
  | [] => false
  | .token t :: ps => precedesDot (isIdentifier t.text) ps
  | .plain c :: ps => afterWord && c == '.' || precedesDot (afterWord && isBlank c) ps

end AccountToken

namespace Lexeme

/-- A dot among tokens. -/
def dot : Lexeme := .plain (.punct .dot)

/-- No account token directly follows a dot. -/
def NoneAfterDot (lexemes : List Lexeme) : Prop :=
  lexemes.IsChain fun l m => l = dot → m.account? = none

/-- No dot directly follows an account token that is a single word. -/
def NoneBeforeDot (lexemes : List Lexeme) : Prop :=
  lexemes.IsChain fun l m => m = dot → ∀ t, l = account t → isIdentifier t.text = false

end Lexeme

namespace AccountToken

theorem exists_followsDot (afterDot : Bool) (cs : List Char) (ps : List Piece) :
    ∃ afterDot', followsDot afterDot (cs.map .plain ++ ps) = followsDot afterDot' ps := by
  induction cs generalizing afterDot with
  | nil => exact ⟨afterDot, rfl⟩
  | cons c cs ih => exact ih _

theorem exists_precedesDot {afterWord : Bool} {cs : List Char} {ps : List Piece}
    (none : precedesDot afterWord (cs.map .plain ++ ps) = false) :
    ∃ afterWord', precedesDot afterWord' ps = false := by
  induction cs generalizing afterWord with
  | nil => exact ⟨afterWord, none⟩
  | cons c cs ih => exact ih (Bool.or_eq_false_iff.1 none).2

theorem not_isBlank_dot {c : Char} (blank : isBlank c = true) : (c == '.') = false := by
  rw [beq_eq_false_iff_ne]
  rintro rfl
  exact absurd blank (by decide)

theorem Lexed.noneAfterDot {ps : List Piece} {ls : List Lexeme} (h : Lexed ps ls)
    {afterDot : Bool} (none : followsDot afterDot ps = false) :
    (afterDot = true → ∀ l ∈ ls.head?, l.account? = .none) ∧ Lexeme.NoneAfterDot ls := by
  induction h generalizing afterDot with
  | nil => exact ⟨fun _ => nofun, .nil⟩
  | blank blank _ ih =>
    rw [followsDot, not_isBlank_dot blank, Bool.false_or, blank, Bool.and_true] at none
    exact ih none
  | account _ ih =>
    rw [followsDot, Bool.or_eq_false_iff] at none
    refine ⟨fun start => absurd (start.symm.trans none.1) (by decide), ?_⟩
    exact List.isChain_cons.2 ⟨fun l _ => nofun, (ih none.2).2⟩
  | @plain c cs token ps ls dot _ ih =>
    refine ⟨fun _ l first => ?_, List.isChain_cons.2 ⟨fun l first same => ?_, ?_⟩⟩
    · cases first
      rfl
    · cases same
      obtain ⟨rfl, rfl⟩ := dot rfl
      exact (ih none).1 rfl l first
    · obtain ⟨afterDot', rest⟩ := exists_followsDot (c == '.' || afterDot && isBlank c) cs ps
      exact (ih (rest.symm.trans none)).2

theorem Lexed.noneBeforeDot {ps : List Piece} {ls : List Lexeme} (h : Lexed ps ls)
    {afterWord : Bool} (none : precedesDot afterWord ps = false) :
    (afterWord = true → Lexeme.dot ∉ ls.head?) ∧ Lexeme.NoneBeforeDot ls := by
  induction h generalizing afterWord with
  | nil => exact ⟨fun _ => nofun, .nil⟩
  | blank blank _ ih =>
    rw [precedesDot, not_isBlank_dot blank, Bool.and_false, Bool.false_or, blank,
      Bool.and_true] at none
    exact ih none
  | @account t ps ls _ ih =>
    refine ⟨fun _ => nofun, List.isChain_cons.2 ⟨?_, (ih none).2⟩⟩
    rintro l first rfl u same
    cases same
    rw [Bool.eq_false_iff]
    exact fun word => (ih none).1 word first
  | @plain c cs token ps ls dot _ ih =>
    rw [precedesDot, Bool.or_eq_false_iff] at none
    obtain ⟨before, rest⟩ := none
    obtain ⟨afterWord', rest⟩ := exists_precedesDot rest
    refine ⟨fun start first => ?_, List.isChain_cons.2 ⟨fun _ _ _ _ => nofun, (ih rest).2⟩⟩
    cases first
    rw [(dot rfl).1, start] at before
    exact absurd before (by decide)

end AccountToken

/-! ## One reference after the other -/

namespace Token

/-- The reference that starts with a token, what follows the token being given. -/
def reference? (afterDot : Bool) : Token → List Token → Option (String × String)
  | name base, punct .dot :: name attr :: _ => if afterDot then none else some (base, attr)
  | _, _ => none

theorem mem_reference? {afterDot : Bool} {t : Token} {ts : List Token}
    {reference : String × String} : reference ∈ reference? afterDot t ts ↔
      afterDot = false ∧ t = .name reference.1 ∧
        ∃ us, ts = .punct .dot :: .name reference.2 :: us := by
  constructor
  · intro h
    unfold reference? at h
    split at h
    · rename_i base attr us
      split at h
      · cases h
      · rename_i start
        cases h
        exact ⟨Bool.eq_false_iff.2 start, rfl, us, rfl⟩
    · cases h
  · rintro ⟨rfl, rfl, us, rfl⟩
    rfl

theorem reference?_congr {t : Token} {ts us : List Token} (same : ∀ attr,
      (∃ vs, ts = .punct .dot :: .name attr :: vs) ↔ ∃ vs, us = .punct .dot :: .name attr :: vs)
    (afterDot : Bool) : reference? afterDot t ts = reference? afterDot t us := by
  apply Option.ext
  intro reference
  rw [← Option.mem_def, ← Option.mem_def, mem_reference?, mem_reference?, same]

theorem reference?_eq_none {t : Token} {ts : List Token} (other : ∀ us, ts ≠ .punct .dot :: us)
    (afterDot : Bool) : reference? afterDot t ts = none := by
  rw [Option.eq_none_iff_forall_not_mem]
  intro reference member
  obtain ⟨-, -, us, follows⟩ := mem_reference?.1 member
  exact other _ follows

theorem references_cons (afterDot : Bool) (t : Token) (ts : List Token) :
    references afterDot (t :: ts) =
      (reference? afterDot t ts).toList ++ references (t == .punct .dot) ts := by
  rw [references.eq_def]
  dsimp only
  split
  · rw [reference?]
    split <;> rfl
  · rename_i other
    have none : reference? afterDot t ts = none := by
      rw [Option.eq_none_iff_forall_not_mem]
      intro reference member
      obtain ⟨-, named, us, follows⟩ := mem_reference?.1 member
      exact other _ _ us named follows
    rw [none]
    rfl

/-- A closing bracket ends all references. -/
theorem references_append_closeBracket (us vs : List Token) (afterDot : Bool) :
    references afterDot (us ++ .punct .closeBracket :: vs) =
      references afterDot (us ++ [.punct .closeBracket]) ++ references false vs := by
  induction us generalizing afterDot with
  | nil => rfl
  | cons t us ih =>
    have same : reference? afterDot t (us ++ .punct .closeBracket :: vs) =
        reference? afterDot t (us ++ [.punct .closeBracket]) := by
      apply reference?_congr
      intro attr
      rcases us with _ | ⟨u, _ | ⟨v, us⟩⟩ <;> simp
    rw [List.cons_append, List.cons_append, references_cons, references_cons, ih, same,
      List.append_assoc]

end Token

/-! ## References among lexemes -/

namespace Lexeme

variable {tokens tokens' : AccountToken → List Token}

/-- The account tokens are read as tokens that start with a word. -/
def StartsWord (tokens : AccountToken → List Token) (ls : List Lexeme) : Prop :=
  ∀ t, .account t ∈ ls → ∃ s us, tokens t = .name s :: us

theorem head?_read {ls : List Lexeme} (words : StartsWord tokens ls)
    (other : dot ∉ ls.head?) (us : List Token) : ls.flatMap (read tokens) ≠ .punct .dot :: us := by
  intro same
  cases ls with
  | nil => cases same
  | cons l ls =>
    rw [List.flatMap_cons] at same
    cases l with
    | plain t =>
      cases same
      exact other rfl
    | account t =>
      obtain ⟨s, us, read⟩ := words t List.mem_cons_self
      rw [Lexeme.read, read] at same
      cases same

/-- Which reference starts with a token of a formula does not depend on what the account tokens are
read as. -/
theorem reference?_read {ls : List Lexeme} (words : StartsWord tokens ls)
    (words' : StartsWord tokens' ls) (none : NoneAfterDot ls) (afterDot : Bool) (t : Token) :
    Token.reference? afterDot t (ls.flatMap (read tokens)) =
      Token.reference? afterDot t (ls.flatMap (read tokens')) := by
  apply Token.reference?_congr
  intro attr
  by_cases point : dot ∈ ls.head?
  · obtain ⟨rest, rfl⟩ := List.head?_eq_some_iff.1 point
    cases rest with
    | nil => rfl
    | cons l rest =>
      cases l with
      | plain u => simp [read, dot]
      | account u =>
        have first := (List.isChain_cons.1 none).1 (.account u) rfl rfl
        cases first
  · constructor
    · rintro ⟨vs, same⟩
      exact absurd same (head?_read words point _)
    · rintro ⟨vs, same⟩
      exact absurd same (head?_read words' point _)

/-- What the text of an account token is read as: one word, or a word and more up to a closing
bracket. -/
inductive Delimited (t : AccountToken) : List Token → Prop where
  | word (identifier : isIdentifier t.text = true) : Delimited t [.name t.text]
  | brackets (s : String) (us : List Token) :
    Delimited t (.name s :: (us ++ [.punct .closeBracket]))

theorem Delimited.startsWord {ls : List Lexeme}
    (h : ∀ t, .account t ∈ ls → Delimited t (tokens t)) : StartsWord tokens ls := by
  intro t member
  have own := h t member
  generalize tokens t = us at own
  cases own with
  | word _ => exact ⟨_, _, rfl⟩
  | brackets s us => exact ⟨_, _, rfl⟩

/-- The references after an account token are found whatever it is read as, and no others if its
text holds none and no dot follows it where it is one word. -/
theorem Delimited.references {t : AccountToken} {us : List Token} (h : Delimited t us)
    (vs : List Token) : ∃ more, Token.references false (us ++ vs) =
      more ++ Token.references false vs ∧ (Token.references false us = [] →
        (isIdentifier t.text = true → ∀ ws, vs ≠ .punct .dot :: ws) → more = []) := by
  cases h with
  | word identifier =>
    refine ⟨(Token.reference? false (.name t.text) vs).toList, Token.references_cons _ _ _,
      fun _ other => ?_⟩
    rw [Token.reference?_eq_none (other identifier)]
    rfl
  | brackets s us =>
    refine ⟨Token.references false (.name s :: (us ++ [.punct .closeBracket])), ?_,
      fun none _ => none⟩
    have closed := Token.references_append_closeBracket (.name s :: us) vs false
    rwa [List.append_cons] at closed

/-- The reference is to no balance. -/
def shown (reference : String × String) : Bool :=
  !Registry.isAccountName reference.1

section References

variable {own : AccountToken → List Token} {names : AccountToken → String} {ls : List Lexeme}
  {afterDot : Bool} (delimited : ∀ t, .account t ∈ ls → Delimited t (own t))
  (hidden : ∀ t, Registry.isAccountName (names t) = true) (none : NoneAfterDot ls)
  (start : afterDot = true → ∀ l ∈ ls.head?, l.account? = .none)

/-- With names for its account tokens, a formula holds the references that start with one of the
names, and others. -/
theorem filter_references_name {s : String} (hidden : Registry.isAccountName s = true)
    (ts : List Token) (afterDot : Bool) :
    (Token.references afterDot (.name s :: ts)).filter shown =
      (Token.references false ts).filter shown := by
  have dropped : (Token.reference? afterDot (.name s) ts).toList.filter shown = [] := by
    rw [List.filter_eq_nil_iff]
    intro reference member
    obtain ⟨-, named, -⟩ := Token.mem_reference?.1 (Option.mem_toList.1 member)
    cases named
    rw [shown, hidden]
    decide
  rw [Token.references_cons, List.filter_append, dropped]
  rfl

theorem filter_reference? {t : Token}
    (word : ∀ s, t = .name s → Registry.isAccountName s = false) (ts : List Token)
    (afterDot : Bool) : (Token.reference? afterDot t ts).toList.filter shown =
      (Token.reference? afterDot t ts).toList := by
  refine List.filter_eq_self.2 fun reference member => ?_
  obtain ⟨-, named, -⟩ := Token.mem_reference?.1 (Option.mem_toList.1 member)
  rw [shown, word _ named]
  rfl

include delimited hidden none start

/-- The references of a formula with names for its account tokens, those to a name apart, are also
references of the formula as it is written. -/
theorem references_sublist :
    ((Token.references afterDot (ls.flatMap (read fun t => [.name (names t)]))).filter
      shown).Sublist (Token.references afterDot (ls.flatMap (read own))) := by
  induction ls generalizing afterDot with
  | nil => exact List.Sublist.refl _
  | cons l ls ih =>
    have later := fun t member => delimited t (List.mem_cons_of_mem _ member)
    obtain ⟨next, rest⟩ := List.isChain_cons.1 none
    rw [List.flatMap_cons, List.flatMap_cons]
    cases l with
    | plain t =>
      have same := reference?_read (Delimited.startsWord later)
        (fun t _ => ⟨names t, [], rfl⟩) rest afterDot t
      rw [read, read, List.singleton_append, List.singleton_append, Token.references_cons,
        Token.references_cons, List.filter_append, same]
      refine List.Sublist.append List.filter_sublist (ih later rest fun point => ?_)
      rw [beq_iff_eq] at point
      subst point
      exact fun m first => next m first rfl
    | account t =>
      -- An account token follows no dot, so its text is read as if the formula started there.
      obtain rfl : afterDot = false := by
        rw [Bool.eq_false_iff]
        intro point
        cases start point (.account t) rfl
      obtain ⟨more, found, -⟩ :=
        (delimited t List.mem_cons_self).references (ls.flatMap (read own))
      rw [read, read, List.singleton_append, filter_references_name (hidden t), found]
      refine (ih later rest ?_).trans (List.sublist_append_right _ _)
      intro point
      cases point

/-- They are all references of the formula as it is written, if no other word of it is of the form
of a name, the texts of its account tokens hold no references, and none of them that is one word is
followed by a dot. -/
theorem references_eq (words : ∀ s, .plain (.name s) ∈ ls → Registry.isAccountName s = false)
    (quiet : ∀ t, .account t ∈ ls → Token.references false (own t) = [])
    (before : NoneBeforeDot ls) :
    Token.references afterDot (ls.flatMap (read own)) =
      (Token.references afterDot (ls.flatMap (read fun t => [.name (names t)]))).filter shown := by
  induction ls generalizing afterDot with
  | nil => rfl
  | cons l ls ih =>
    have later := fun t member => delimited t (List.mem_cons_of_mem _ member)
    have words' := fun s member => words s (List.mem_cons_of_mem _ member)
    have quiet' := fun t member => quiet t (List.mem_cons_of_mem _ member)
    obtain ⟨next, rest⟩ := List.isChain_cons.1 none
    obtain ⟨next', rest'⟩ := List.isChain_cons.1 before
    rw [List.flatMap_cons, List.flatMap_cons]
    cases l with
    | plain t =>
      have same := reference?_read (Delimited.startsWord later)
        (fun t _ => ⟨names t, [], rfl⟩) rest afterDot t
      have word (s : String) (named : t = .name s) : Registry.isAccountName s = false :=
        words s (named ▸ List.mem_cons_self)
      rw [read, read, List.singleton_append, List.singleton_append, Token.references_cons,
        Token.references_cons, List.filter_append, filter_reference? word, same]
      refine congrArg _ (ih later rest (fun point => ?_) words' quiet' rest')
      rw [beq_iff_eq] at point
      subst point
      exact fun m first => next m first rfl
    | account t =>
      obtain rfl : afterDot = false := by
        rw [Bool.eq_false_iff]
        intro point
        cases start point (.account t) rfl
      -- References to the name are dropped, so none may start in the text of the token.
      obtain ⟨more, found, empty⟩ :=
        (delimited t List.mem_cons_self).references (ls.flatMap (read own))
      have none : more = [] := by
        refine empty (quiet t List.mem_cons_self) fun identifier ws => ?_
        refine head?_read (Delimited.startsWord later) (fun point => ?_) ws
        rw [next' dot point rfl t rfl] at identifier
        cases identifier
      rw [read, read, List.singleton_append, filter_references_name (hidden t), found, none,
        List.nil_append]
      exact ih later rest (fun point => nomatch point) words' quiet' rest'

end References

end Lexeme

/-! ## References of a formula -/

namespace AccountToken

/-- The tokens of the text of an account token. -/
def tokens (t : AccountToken) : List Token :=
  match Token.ofText t.text with
  | .ok ts => ts
  | .error _ => []

theorem tokens_eq {t : AccountToken} {ts : List Token} (cut : Token.ofText t.text = .ok ts) :
    t.tokens = ts := by
  rw [tokens, cut]

theorem Written.delimited {t : AccountToken} (h : t.Written) {ts : List Token}
    (cut : Token.ofText t.text = .ok ts) : Lexeme.Delimited t ts := by
  rcases h.shape.closed with identifier | ⟨xs, closed⟩
  · have single := readAs_of_isIdentifier identifier [] nofun
    rw [List.append_nil, Token.ofChars] at single
    cases cut.symm.trans single
    exact .word identifier
  · obtain ⟨d, ds, chars, start, -⟩ := h.shape.start
    have read : Token.next d ds =
        .ok (.name (String.ofList (d :: ds.takeWhile isIdentChar)), ds.dropWhile isIdentChar) := by
      unfold Token.next
      rw [isDigit_of_isIdentStart start, if_neg Bool.false_ne_true, if_pos start]
    have solid := isBlank_of_isIdentChar (isIdentChar_of_isIdentStart start)
    rw [Token.ofText, closed] at cut
    obtain ⟨us, last⟩ := (Token.ofChars_closed cut).1
    rw [← closed, chars, ofChars_of_next solid read] at cut
    obtain ⟨more, -, rfl⟩ := map_eq_ok.1 cut
    cases us with
    | nil => cases last
    | cons u us =>
      cases last
      exact .brackets _ us

/-- Account tokens that are no part of references: none is directly followed by a character of
identifiers, none follows a dot, and the text of each one with an inline filter can be cut into
tokens of formulas. -/
structure Separate (pieces : List Piece) : Prop where
  apart : SetApart pieces
  noneAfterDot : followsDot false pieces = false
  filters : ∀ t, .token t ∈ pieces → t.filter ≠ [] → ∃ ts, Token.ofText t.text = .ok ts

/-- Where there are no account tokens, none is part of a reference. -/
theorem separate_plain (cs : List Char) : Separate (cs.map .plain) where
  apart := by
    induction cs with
    | nil => exact setApart_nil
    | cons c cs ih => exact ih.cons_plain c
  noneAfterDot := by
    obtain ⟨afterDot, same⟩ := exists_followsDot false cs []
    rwa [List.append_nil] at same
  filters := fun t member _ => by
    obtain ⟨c, -, same⟩ := List.mem_map.1 member
    cases same

/-- Account tokens that can be told apart in a formula as it is written: moreover no other word is
of the form of their names, none of them that is one word is followed by a dot, and no inline filter
holds a reference. -/
structure Legible (pieces : List Piece) : Prop where
  apart : SetApart pieces
  noneAfterDot : followsDot false pieces = false
  noneBeforeDot : precedesDot false pieces = false
  words : ∀ ts, Token.ofChars (fill (fun _ => "None") pieces) = .ok ts →
    Token.Words (Registry.isAccountName · = false) ts
  filters : ∀ t, .token t ∈ pieces → t.filter ≠ [] → dottedReferences t.text = .ok []

theorem Legible.quiet {formula : String} {pieces : List Piece} (h : Legible pieces)
    (scanned : scan formula = .ok pieces) {t : AccountToken} (member : .token t ∈ pieces) :
    dottedReferences t.text = .ok [] := by
  by_cases none : t.filter = []
  · exact (written_of_scanFrom scanned member).dottedReferences_text none
  · exact h.filters t member none

theorem Legible.separate {pieces : List Piece} (h : Legible pieces) : Separate pieces where
  apart := h.apart
  noneAfterDot := h.noneAfterDot
  filters := fun t member filtered => by
    obtain ⟨ts, cut, -⟩ := map_eq_ok.1 (h.filters t member filtered)
    exact ⟨ts, cut⟩

variable {formula : String} {pieces : List Piece}

theorem Separate.ofText_text (h : Separate pieces) (scanned : scan formula = .ok pieces)
    {t : AccountToken} (member : .token t ∈ pieces) : Token.ofText t.text = .ok t.tokens := by
  have cut : ∃ ts, Token.ofText t.text = .ok ts := by
    by_cases none : t.filter = []
    · have quiet := (written_of_scanFrom scanned member).dottedReferences_text none
      obtain ⟨ts, cut, -⟩ := map_eq_ok.1 quiet
      exact ⟨ts, cut⟩
    · exact h.filters t member none
  obtain ⟨ts, cut⟩ := cut
  rw [tokens_eq cut, cut]

/-- A formula and the formula with names for its account tokens are cut into the same lexemes. -/
theorem Separate.exists_lexemes (h : Separate pieces) (scanned : scan formula = .ok pieces) :
    ∃ r : Except SyntaxFault (List Lexeme), (∀ ls, r = .ok ls → Lexed pieces ls) ∧
      Token.ofText formula = r.map (List.flatMap (Lexeme.read tokens)) ∧
      ∀ names, Names names → Token.ofChars (fill names pieces) =
        r.map (List.flatMap (Lexeme.read fun t => [.name (names t)])) := by
  obtain ⟨r, lexed, read⟩ := exists_lexed pieces (scanned_of_scanFrom scanned h.apart)
  refine ⟨r, lexed, ?_, fun names valid => ?_⟩
  · have each (t : AccountToken) (member : .token t ∈ pieces) : ReadAs t.text t.tokens :=
      (written_of_scanFrom scanned member).readAs (h.ofText_text scanned member)
    rw [Token.ofText, ← fill_text_of_scan scanned, read text heads_text tokens each]
  · exact read names valid.heads _ fun t _ => valid.readAs t

theorem Separate.delimited (h : Separate pieces) (scanned : scan formula = .ok pieces)
    {ls : List Lexeme} (lexed : Lexed pieces ls) (t : AccountToken) (member : .account t ∈ ls) :
    Lexeme.Delimited t t.tokens :=
  (written_of_scanFrom scanned (lexed.mem member)).delimited
    (h.ofText_text scanned (lexed.mem member))

end AccountToken

namespace Registry

variable {registry : Registry} {formula text : String} {references : List (String × String)}
  (h : registry.substitute formula = .ok text) (found : dottedReferences text = .ok references)

include h found

/-- A formula holds all references of its substituted text but those to balances. -/
theorem references_sublist
    (separate : ∀ pieces, AccountToken.scan formula = .ok pieces → AccountToken.Separate pieces) :
    ∃ written, dottedReferences formula = .ok written ∧
      (references.filter Lexeme.shown).Sublist written := by
  obtain ⟨pieces, scanned, filled⟩ := substitute_eq_ok h
  have separate := separate pieces scanned
  obtain ⟨r, lexed, raw, read⟩ := separate.exists_lexemes scanned
  rw [dottedReferences, Token.ofText, filled, read _ registry.names_nameOf] at found
  obtain ⟨ts, cut, rfl⟩ := map_eq_ok.1 found
  obtain ⟨ls, same, rfl⟩ := map_eq_ok.1 cut
  have lexed := lexed ls same
  rw [dottedReferences, raw, same]
  refine ⟨_, rfl, ?_⟩
  exact Lexeme.references_sublist (separate.delimited scanned lexed) registry.isAccountName_nameOf
    (lexed.noneAfterDot separate.noneAfterDot).2
    fun point => absurd point Bool.false_ne_true

/-- A formula holds the references of its substituted text but those to balances, and no others. -/
theorem references_eq
    (legible : ∀ pieces, AccountToken.scan formula = .ok pieces → AccountToken.Legible pieces) :
    dottedReferences formula = .ok (references.filter Lexeme.shown) := by
  obtain ⟨pieces, scanned, filled⟩ := substitute_eq_ok h
  have legible := legible pieces scanned
  have separate := legible.separate
  obtain ⟨r, lexed, raw, read⟩ := separate.exists_lexemes scanned
  rw [dottedReferences, Token.ofText, filled, read _ registry.names_nameOf] at found
  obtain ⟨ts, cut, rfl⟩ := map_eq_ok.1 found
  obtain ⟨ls, same, rfl⟩ := map_eq_ok.1 cut
  have lexed := lexed ls same
  rw [dottedReferences, raw, same]
  have words (s : String) (member : .plain (.name s) ∈ ls) : isAccountName s = false := by
    have cut := read _ AccountToken.names_none
    rw [same] at cut
    exact legible.words _ cut s (List.mem_flatMap.2 ⟨_, member, List.mem_singleton_self _⟩)
  have quiet (t : AccountToken) (member : .account t ∈ ls) :
      Token.references false t.tokens = [] := by
    have none := legible.quiet scanned (lexed.mem member)
    rw [dottedReferences, separate.ofText_text scanned (lexed.mem member)] at none
    exact Except.ok.inj none
  exact congrArg Except.ok (Lexeme.references_eq (separate.delimited scanned lexed)
    registry.isAccountName_nameOf (lexed.noneAfterDot legible.noneAfterDot).2
    (fun point => absurd point Bool.false_ne_true) words quiet
    (lexed.noneBeforeDot legible.noneBeforeDot).2)

end Registry

end KpiReport
