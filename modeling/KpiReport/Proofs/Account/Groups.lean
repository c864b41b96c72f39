import KpiReport.Proofs.Account.Counting
import Mathlib.Data.List.Perm.Basic

/-!
# Groups of tokens

Tokens are put into groups one after the other, each into the first one that has its mode and its
inline filter. Every token with accounts is in one of the groups, in which it belongs, and no two
groups have the same mode and filter (`TokenGroup.ofTokens_groups`). So on the accounts of a token
the lines of its group are the lines that the token counts (`TokenGroup.Fits.agrees`).
-/

namespace KpiReport

namespace TokenGroup

/-- A token belongs to a group: it has the mode of the group, and its inline filter is the group's
or is the same. -/
def Fits (group : TokenGroup) (token : AccountToken) : Prop :=
  token.mode = group.mode ∧
    (token.filter = group.filter ∨ Filter.same group.filter token.filter = true)

theorem Fits.matches_filter {group : TokenGroup} {token : AccountToken} (h : group.Fits token)
    (record : String → FieldValue) :
    Filter.matches record group.filter = Filter.matches record token.filter := by
  rcases h.2 with same | same
  · rw [same]
  · exact Filter.matches_of_same record same

/-- The mode and the inline filter for which the ledger is asked. -/
def key (group : TokenGroup) : Mode × Filter :=
  (group.mode, group.filter)

/-- Two pairs of a mode and an inline filter are different. -/
def Apart (a b : Mode × Filter) : Prop :=
  ¬ (a.1 = b.1 ∧ Filter.same a.2 b.2 = true)

theorem admits_iff {group : TokenGroup} {token : AccountToken} :
    group.admits token = true ↔ ¬ Apart group.key (token.mode, token.filter) := by
  simp [admits, Apart, key]

/-- What holds of the groups of some tokens: each token is in one of them, in which it belongs, the
mode and the inline filter of a group are those of one of its tokens, and no two groups have the
same. -/
structure Groups (members : List ResolvedToken) (groups : List TokenGroup) : Prop where
  members : (groups.flatMap TokenGroup.members).Perm members
  fits : ∀ group ∈ groups, ∀ member ∈ group.members, group.Fits member.token
  owned : ∀ group ∈ groups, ∃ member ∈ group.members,
    group.key = (member.token.mode, member.token.filter)
  apart : (groups.map key).Pairwise Apart

theorem mem_keys_place {groups : List TokenGroup} {member : ResolvedToken} {k : Mode × Filter}
    (h : k ∈ (place groups member).map key) :
    k ∈ groups.map key ∨ k = (member.token.mode, member.token.filter) := by
  induction groups with
  | nil => exact Or.inr (List.mem_singleton.1 h)
  | cons group groups ih =>
    rw [place] at h
    split at h
    · exact Or.inl h
    · rcases List.mem_cons.1 h with rfl | h
      · exact Or.inl List.mem_cons_self
      · exact (ih h).imp_left (List.mem_cons_of_mem _)

theorem place_groups {groups : List TokenGroup} {members : List ResolvedToken}
    (h : Groups members groups) (member : ResolvedToken) :
    Groups (member :: members) (place groups member) := by
  induction groups generalizing members with
  | nil =>
    have none : members = [] := h.members.symm.eq_nil
    subst none
    refine ⟨.refl _, ?_, ?_, List.pairwise_singleton _ _⟩
    · simp [place, Fits]
    · simp [place, key]
  | cons group groups ih =>
    obtain ⟨fit, fits⟩ := List.forall_mem_cons.1 h.fits
    obtain ⟨⟨owner, belongs, own⟩, rest⟩ := List.forall_mem_cons.1 h.owned
    obtain ⟨apart, aparts⟩ := List.pairwise_cons.1 h.apart
    have all : (group.members ++ groups.flatMap TokenGroup.members).Perm members := h.members
    rw [place]
    split
    · rename_i admitted
      refine ⟨?_, List.forall_mem_cons.2 ⟨?_, fits⟩, List.forall_mem_cons.2 ⟨?_, rest⟩, h.apart⟩
      · rw [List.flatMap_cons, List.append_assoc, List.singleton_append]
        exact List.perm_middle.trans (all.cons member)
      · intro other inside
        rcases List.mem_append.1 inside with inside | new
        · exact fit other inside
        · rw [List.mem_singleton.1 new]
          simp only [admits, Bool.and_eq_true, beq_iff_eq] at admitted
          exact ⟨admitted.1.symm, Or.inr admitted.2⟩
      · exact ⟨owner, List.mem_append_left _ belongs, own⟩
    · rename_i other
      rw [admits_iff, not_not] at other
      have placed := ih ⟨.refl _, fits, rest, aparts⟩
      refine ⟨?_, List.forall_mem_cons.2 ⟨fit, placed.fits⟩,
        List.forall_mem_cons.2 ⟨⟨owner, belongs, own⟩, placed.owned⟩,
        List.pairwise_cons.2 ⟨fun k known => ?_, placed.apart⟩⟩
      · rw [List.flatMap_cons]
        refine (placed.members.append_left _).trans ?_
        exact List.perm_middle.trans (all.cons member)
      · rcases mem_keys_place known with old | rfl
        · exact apart k old
        · exact other

/-- The groups of some tokens hold those that have accounts. -/
theorem ofTokens_groups (members : List ResolvedToken) :
    Groups (members.filter fun member => !member.accounts.isEmpty) (ofTokens members) := by
  have all (kept known : List ResolvedToken) (groups : List TokenGroup) (h : Groups known groups) :
      Groups (kept.reverse ++ known) (kept.foldl place groups) := by
    induction kept generalizing known groups with
    | nil => exact h
    | cons member kept ih =>
      rw [List.reverse_cons, List.append_assoc, List.foldl_cons]
      exact ih _ _ (place_groups h member)
  have groups := all (members.filter fun member => !member.accounts.isEmpty) [] []
    ⟨.refl _, nofun, nofun, List.Pairwise.nil⟩
  rw [List.append_nil] at groups
  exact ⟨groups.members.trans (List.reverse_perm _), groups.fits, groups.owned, groups.apart⟩

/-- On the accounts of a token, the lines of its group are those that it counts. -/
theorem Fits.agrees {group : TokenGroup} {member : ResolvedToken} (fit : group.Fits member.token)
    (inside : member ∈ group.members) {bounds : Bounds} {target : TargetMove} {extra : Filter}
    (line : MoveLine) (own : line.account ∈ member.accounts) :
    Filter.matches line.field (group.lineFilter bounds (commonFilter target extra)) =
      member.counts bounds target extra line := by
  have shared : group.accounts.contains line.account = true :=
    List.contains_iff_mem.2 (mem_distinctNames.2 (List.mem_flatMap.2 ⟨member, inside, own⟩))
  have owned : member.accounts.contains line.account = true := List.contains_iff_mem.2 own
  rw [lineFilter_matches, ResolvedToken.counts, shared, owned, fit.1, fit.matches_filter]

end TokenGroup

end KpiReport
