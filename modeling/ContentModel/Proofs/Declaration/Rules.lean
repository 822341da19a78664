import ContentModel.Proofs.Declaration.Elaboration

/-!
This module contains what a declared mapping rule has to keep, and the proofs that the problems with
the rules of a mapping come up exactly when some rule does not keep it.
-/

namespace ContentModel

def RuleDraft.Complete (draft : RuleDraft) : Prop :=
  (draft.read.isSome ∧ draft.write.isSome)
    ∨ (draft.read = none ∧ draft.write = none ∧ draft.target.isSome)

def MappingEntry.rule? : MappingEntry → Option RuleDraft
  | .rule draft => some draft
  | .group .. => none

namespace RuleDraft

theorem complete_eq_ok {draft : RuleDraft} (h : draft.Complete) :
    ∃ rule, draft.complete = .ok rule := by
  unfold complete
  rcases h with ⟨hread, hwrite⟩ | ⟨hread, hwrite, htarget⟩
  . rcases Option.isSome_iff_exists.mp hread with ⟨read, hread⟩
    rcases Option.isSome_iff_exists.mp hwrite with ⟨write, hwrite⟩
    simp [hread, hwrite]
  . rcases Option.isSome_iff_exists.mp htarget with ⟨target, htarget⟩
    simp [hread, hwrite, htarget]

theorem complete_eq_error {draft : RuleDraft} (h : ¬ draft.Complete) :
    ∃ problem, draft.complete = .error problem ∧ problem.isError = true := by
  unfold complete
  unfold Complete at h
  split
  . next hread hwrite => simp [hread, hwrite] at h
  . next hread hwrite =>
    split
    . next htarget => simp [hread, hwrite, htarget] at h
    . exact ⟨_, rfl, rfl⟩
  . exact ⟨_, rfl, rfl⟩

end RuleDraft

namespace MappingEntry

open Problem (NoError)

theorem noError_elaborate_iff (entries : List MappingEntry) (n : Nat) :
    NoError (elaborate n entries).2 ↔ ∀ draft ∈ entries.filterMap rule?, draft.Complete := by
  induction entries generalizing n with
  | nil => simp [elaborate]
  | cons entry rest ih =>
    cases entry with
    | rule draft =>
      rw [elaborate, List.filterMap_cons_some (by rfl), List.forall_mem_cons]
      by_cases h : draft.Complete
      . rcases RuleDraft.complete_eq_ok h with ⟨rule, heq⟩
        simp [heq, h, ih]
      . rcases RuleDraft.complete_eq_error h with ⟨problem, heq, herror⟩
        simp [heq, h, herror]
    | group functions fields =>
      rw [elaborate, List.filterMap_cons_none (by rfl)]
      exact ih (n + 1)

theorem forall_problem?_elaborate_iff (attributes : List Attribute) (entries : List MappingEntry)
    (n : Nat) :
    (∀ rule ∈ (elaborate n entries).1, rule.problem? attributes = none)
      ↔ ∀ draft ∈ entries.filterMap rule?, ∀ rule, draft.complete = .ok rule →
          rule.problem? attributes = none := by
  induction entries generalizing n with
  | nil => simp [elaborate]
  | cons entry rest ih =>
    cases entry with
    | rule draft =>
      rw [elaborate, List.filterMap_cons_some (by rfl), List.forall_mem_cons]
      cases h : draft.complete with
      | ok rule => simp [ih]
      | error problem => simp [ih]
    | group functions fields =>
      rw [elaborate, List.filterMap_cons_none (by rfl)]
      dsimp only
      rw [List.forall_mem_append, ih (n + 1)]
      -- The rules of a group name no attribute.
      have hgroup : ∀ rule ∈ fields.map (fun field => (⟨field, .group ⟨n⟩ functions, none⟩ : Rule)),
          rule.problem? attributes = none := by
        intro rule hrule
        rcases List.mem_map.mp hrule with ⟨field, hfield, rfl⟩
        rfl
      exact and_iff_right hgroup

end MappingEntry

namespace Rule

theorem isError_of_problem? {attributes : List Attribute} {rule : Rule} {problem : Problem}
    (h : rule.problem? attributes = some problem) : problem.isError = true := by
  unfold problem? at h
  split at h
  . split at h
    . cases h
      rfl
    . split at h
      . cases h
      . cases h
        rfl
  . split at h
    . split at h
      . cases h
      . cases h
        rfl
    . cases h

end Rule

namespace RuleDraft

/--
What the rule names is declared: its delegate, with a model type, or else its target.
-/
def Linked (draft : RuleDraft) (attributes : List Attribute) : Prop :=
  (∀ delegate, draft.delegate = some delegate →
    ∃ a ∈ attributes, a.name = delegate ∧ a.type.model?.isSome)
  ∧ (draft.delegate = none → draft.read = none → draft.write = none →
    ∃ a ∈ attributes, draft.target = some a.name)

theorem find?_name_eq_some {attributes : List Attribute}
    (hdistinct : (attributes.map (·.name)).Nodup) {a : Attribute} (ha : a ∈ attributes) :
    attributes.find? (·.name == a.name) = some a := by
  induction attributes with
  | nil => cases ha
  | cons head rest ih =>
    rw [List.map_cons, List.nodup_cons] at hdistinct
    rcases List.mem_cons.mp ha with rfl | ha
    . simp
    . have hne : head.name ≠ a.name := by
        intro heq
        exact hdistinct.1 (heq ▸ List.mem_map_of_mem ha)
      rw [List.find?_cons_of_neg (by simpa using hne)]
      exact ih hdistinct.2 ha

theorem delegate?_of_complete_eq_ok {draft : RuleDraft} {rule : Rule}
    (h : draft.complete = .ok rule) : rule.delegate? = draft.delegate := by
  unfold complete at h
  split at h
  . cases h
    rfl
  . split at h
    . cases h
      rfl
    . cases h
  . cases h

theorem problem?_eq_none_iff {draft : RuleDraft} {rule : Rule} (h : draft.complete = .ok rule)
    {attributes : List Attribute} (hdistinct : (attributes.map (·.name)).Nodup) :
    rule.problem? attributes = none ↔ draft.Linked attributes := by
  unfold Rule.problem? Linked
  rw [delegate?_of_complete_eq_ok h]
  cases hdelegate : draft.delegate with
  | some delegate =>
    simp only [Option.some.injEq, forall_eq', reduceCtorEq, false_implies, and_true]
    constructor
    . intro hproblem
      split at hproblem
      . cases hproblem
      . next a hfind =>
        have hmem := List.mem_of_find?_eq_some hfind
        have hname := List.find?_some hfind
        split at hproblem
        . next hmodel => exact ⟨a, hmem, by simpa using hname, hmodel⟩
        . cases hproblem
    . rintro ⟨a, hmem, rfl, hmodel⟩
      rw [find?_name_eq_some hdistinct hmem]
      simp [hmodel]
  | none =>
    simp only [reduceCtorEq, false_implies, implies_true, true_and, forall_const]
    unfold complete at h
    split at h
    . next hread hwrite =>
      cases h
      simp [hread]
    . next hread hwrite =>
      split at h
      . next target htarget =>
        cases h
        simp [hread, hwrite, htarget, @eq_comm _ target]
      . cases h
    . cases h

end RuleDraft

end ContentModel
