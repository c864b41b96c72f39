import KpiReport.Proofs.Account.Registration
import KpiReport.Proofs.Account.Substitution
import KpiReport.Proofs.Evaluation.FirstScope
import KpiReport.Proofs.Formula.Privacy

/-!
# From one registry to another

With another registry, a formula gets other private names for its account tokens. Passing from the
names of the one to the names of the other (`Registry.crossover`) changes private names only, and is
all that tells the two formulas apart: they are cut into the same tokens up to it
(`Registry.ofText_crossover`).
-/

namespace KpiReport

open KpiReport.Text

/-- A formula that keeps clear of private names: no account token is directly followed by a
character of identifiers, and with `None` for each account token the formula writes no private
name. -/
def AccountToken.Plain (formula : String) : Prop :=
  ∀ pieces, scan formula = .ok pieces → SetApart pieces ∧
    ∀ ts, Token.ofChars (fill (fun _ => "None") pieces) = .ok ts →
      Token.Words (Template.isPrivate · = false) ts

theorem AccountToken.plain_of_scan {formula : String} {pieces : List Piece} {ts : List Token}
    (scanned : scan formula = .ok pieces) (apart : SetApart pieces)
    (cut : Token.ofChars (fill (fun _ => "None") pieces) = .ok ts)
    (shown : Token.Words (Template.isPrivate · = false) ts) : Plain formula := by
  intro pieces' scanned'
  cases scanned.symm.trans scanned'
  refine ⟨apart, fun ts' cut' => ?_⟩
  cases cut.symm.trans cut'
  exact shown

namespace Registry

variable {registry registry' : Registry}

/-- The private name of an account token, that of the first position if it is not registered. -/
def nameOf (registry : Registry) (token : AccountToken) : String :=
  privateName ((registry.index? token.text).getD 0)

theorem isPrivate_nameOf (registry : Registry) (token : AccountToken) :
    Template.isPrivate (registry.nameOf token) = true :=
  isPrivate_privateName _

theorem nameOf_of_index? {token : AccountToken} {index : Nat}
    (known : registry.index? token.text = some index) :
    registry.nameOf token = privateName index := by
  rw [nameOf, known]
  rfl

theorem index?_of_mem {token : AccountToken} (member : token ∈ registry.tokens) :
    ∃ index, registry.index? token.text = some index := by
  cases found : registry.index? token.text with
  | none => exact absurd (List.mem_map_of_mem member) (index?_eq_none_iff.1 found)
  | some index => exact ⟨index, rfl⟩

theorem names_nameOf (registry : Registry) : AccountToken.Names registry.nameOf := by
  intro token
  refine ⟨'_', _, toList_privateName _, by decide, ?_, by decide⟩
  rw [List.all_eq_true]
  intro c member
  rcases List.mem_append.1 member with letter | digit
  · have all : ("_acc_".toList).all isIdentChar = true := by decide
    exact List.all_eq_true.1 all c letter
  · exact AccountToken.isIdentChar_of_isDigit
      (Nat.isDigit_of_mem_toDigits (by decide) (by decide) digit)

/-- What a formula becomes: each account token is registered and gives way to its name. -/
theorem substitute_eq_ok {formula text : String} (h : registry.substitute formula = .ok text) :
    ∃ pieces, AccountToken.scan formula = .ok pieces ∧
      text.toList = AccountToken.fill registry.nameOf pieces := by
  unfold substitute at h
  split at h
  · cases h
  · rename_i pieces scanned
    obtain ⟨texts, replaced, rfl⟩ := map_eq_ok.1 h
    refine ⟨pieces, scanned, ?_⟩
    have each := mapM_eq_ok.1 replaced
    clear replaced h scanned
    rw [String.toList_ofList]
    induction each with
    | nil => rfl
    | @cons piece chars pieces texts first _ ih =>
      rw [List.flatten_cons, ih, AccountToken.fill, AccountToken.fill, List.flatMap_cons]
      congr 1
      cases piece with
      | plain c =>
        cases first
        rfl
      | token token =>
        obtain ⟨index, found, rfl⟩ := map_eq_ok.1 first
        rw [Piece.fill, nameOf_of_index? (eq_some_of_index found)]

/-- The names of one registry, replaced by those that their tokens have in another one. -/
def crossover (registry registry' : Registry) (name : String) : String :=
  match registry.tokens.find? fun token => registry.nameOf token == name with
  | some token => registry'.nameOf token
  | none => name

theorem changesPrivate_crossover (registry registry' : Registry) :
    ChangesPrivate (registry.crossover registry') := by
  intro name
  unfold crossover
  split
  · rename_i token found
    have named := List.find?_some found
    rw [beq_iff_eq] at named
    exact .inr ⟨named ▸ isPrivate_nameOf registry token, isPrivate_nameOf registry' token⟩
  · exact .inl rfl

theorem crossover_nameOf {token : AccountToken} (member : token ∈ registry.tokens)
    (registry' : Registry) :
    registry.crossover registry' (registry.nameOf token) = registry'.nameOf token := by
  unfold crossover
  split
  · rename_i other found
    have named := List.find?_some found
    rw [beq_iff_eq] at named
    obtain ⟨index, known⟩ := index?_of_mem member
    obtain ⟨index', known'⟩ := index?_of_mem (List.mem_of_find?_eq_some found)
    rw [nameOf_of_index? known, nameOf_of_index? known'] at named
    obtain rfl := privateName_injective named
    -- both texts are that of the token at the position
    obtain ⟨stored, stands, text⟩ := index?_eq_some known
    obtain ⟨stored', stands', text'⟩ := index?_eq_some known'
    cases stands.symm.trans stands'
    rw [nameOf, nameOf, ← text, ← text']
  · rename_i absent
    have own := List.find?_eq_none.1 absent token member
    simp at own

/-- A word of a formula whose account tokens have been replaced: no private name, or that of one of
the account tokens. -/
def Wrote (registry : Registry) (formula name : String) : Prop :=
  Template.isPrivate name = false ∨ ∃ tokens, AccountToken.tokensOf formula = .ok tokens ∧
    ∃ token ∈ tokens, name = registry.nameOf token

section Texts

variable {formula text : String} (plain : AccountToken.Plain formula)
  (h : registry.substitute formula = .ok text)

include plain h

/-- A formula with names for its account tokens is cut into lexemes that do not depend on the names,
and no other lexeme is a private name. -/
theorem exists_lexemes_of_substitute : ∃ pieces,
    AccountToken.scan formula = .ok pieces ∧ ∃ r : Except SyntaxFault (List Lexeme),
      (∀ lexemes, r = .ok lexemes → AccountToken.Lexed pieces lexemes) ∧
      (∀ lexemes, r = .ok lexemes → ∀ name, .plain (.name name) ∈ lexemes →
        Template.isPrivate name = false) ∧
      ∀ registry : Registry, Token.ofChars (AccountToken.fill registry.nameOf pieces) =
        r.map (List.map (Lexeme.fill registry.nameOf)) := by
  obtain ⟨pieces, scanned, -⟩ := substitute_eq_ok h
  obtain ⟨apart, shown⟩ := plain pieces scanned
  obtain ⟨r, lexed, read⟩ :=
    AccountToken.exists_lexemes pieces (AccountToken.scanned_of_scanFrom scanned apart)
  refine ⟨pieces, scanned, r, lexed, fun lexemes found name member => ?_,
    fun registry => read _ registry.names_nameOf⟩
  have words := shown (lexemes.map (Lexeme.fill fun _ => "None")) (by
    rw [read _ AccountToken.names_none, found]
    rfl)
  exact words name (List.mem_map.2 ⟨_, member, rfl⟩)

theorem words_of_substitute {ts : List Token} (cut : Token.ofText text = .ok ts) :
    Token.Words (registry.Wrote formula) ts := by
  obtain ⟨pieces, scanned, r, lexed, shown, read⟩ := exists_lexemes_of_substitute plain h
  obtain ⟨pieces', scanned', filled⟩ := substitute_eq_ok h
  cases scanned.symm.trans scanned'
  rw [Token.ofText, filled, read] at cut
  obtain ⟨lexemes, found, rfl⟩ := map_eq_ok.1 cut
  intro name member
  obtain ⟨lexeme, inside, same⟩ := List.mem_map.1 member
  cases lexeme with
  | plain token =>
    obtain rfl : token = .name name := same
    exact .inl (shown lexemes found name inside)
  | account token =>
    cases same
    refine .inr ⟨_, map_eq_ok.2 ⟨pieces, scanned, rfl⟩, token, ?_, rfl⟩
    exact List.mem_filterMap.2 ⟨_, (lexed lexemes found).mem inside, rfl⟩

/-- A formula is cut into the same tokens with another registry, up to the private names. -/
theorem ofText_crossover
    (known : ∀ tokens, AccountToken.tokensOf formula = .ok tokens →
      ∀ token ∈ tokens, token ∈ registry.tokens)
    {text' : String} (h' : registry'.substitute formula = .ok text') :
    Token.ofText text' =
      (Token.ofText text).map (List.map (Token.rename (registry.crossover registry'))) := by
  obtain ⟨pieces, scanned, r, lexed, shown, read⟩ := exists_lexemes_of_substitute plain h
  obtain ⟨pieces', scanned', filled⟩ := substitute_eq_ok h
  cases scanned.symm.trans scanned'
  obtain ⟨pieces'', scanned'', filled'⟩ := substitute_eq_ok h'
  cases scanned.symm.trans scanned''
  have registered := known _ (map_eq_ok.2 ⟨pieces, scanned, rfl⟩)
  rw [Token.ofText, Token.ofText, filled, filled', read, read]
  cases found : r with
  | error fault => rfl
  | ok lexemes =>
    have same : ∀ lexeme ∈ lexemes, Lexeme.fill registry'.nameOf lexeme =
        (Lexeme.fill registry.nameOf lexeme).rename (registry.crossover registry') := by
      intro lexeme inside
      cases lexeme with
      | account token =>
        have own : token ∈ pieces.filterMap Piece.token? :=
          List.mem_filterMap.2 ⟨_, (lexed lexemes found).mem inside, rfl⟩
        exact congrArg Token.name (crossover_nameOf (registered token own) registry').symm
      | plain token =>
        cases token with
        | name name =>
          have clear := shown lexemes found name inside
          exact congrArg Token.name
            ((changesPrivate_crossover registry registry').eq_of_not_isPrivate clear).symm
        | _ => rfl
    change Except.ok _ = Except.ok _
    rw [List.map_map, List.map_congr_left same]
    rfl

end Texts

end Registry

end KpiReport
