import ContentModel.Proofs.Declaration.Rules

/-!
This module contains what one item does to a draft and what all items of a declaration leave behind
in it: the content is that of the blocks, the mappings are those of the mapping items, and there is no
error exactly when no item brought one.
-/

namespace ContentModel

namespace Item

def block? : Item → Option Block
  | .block declared => some declared
  | _ => none

def mapping? : Item → Option (Format × List MappingEntry)
  | .mapping format entries => some (format, entries)
  | _ => none

end Item

namespace Draft

open Problem (NoError)

theorem add_block_of_none {kind : ModelKind} {draft : Draft} {block : Block}
    (h : (block.elaborate draft.scope).1 = none) :
    draft.add kind (.block block)
      = { draft with problems := draft.problems ++ (block.elaborate draft.scope).2 } := by
  simp only [add]
  split
  . next heq => rw [heq]
  . next heq => simp [heq] at h

theorem add_block_of_some {kind : ModelKind} {draft : Draft} {block : Block} {content : Content}
    (h : (block.elaborate draft.scope).1 = some content) :
    draft.add kind (.block block)
      = { draft with
          scope := draft.scope.add content
          content := draft.content ++ [content]
          problems := draft.problems ++ (block.elaborate draft.scope).2 } := by
  simp only [add]
  split
  . next heq => simp [heq] at h
  . next heq =>
    rw [heq] at h ⊢
    cases h
    rfl

theorem add_noRoot_of_group {kind : ModelKind} (h : kind = .group) (draft : Draft) :
    draft.add kind .noRoot = { draft with noRoot := true } := by
  rw [add, if_pos h]

theorem add_noRoot_of_ne_group {kind : ModelKind} (h : kind ≠ .group) (draft : Draft) :
    draft.add kind .noRoot
      = { draft with problems := draft.problems ++ [.misplacedNoRoot] } := by
  rw [add, if_neg h]

theorem content_foldl (kind : ModelKind) (items : List Item) (draft : Draft) :
    (items.foldl (Draft.add kind) draft).content
      = draft.content ++ (Block.elaborateAll draft.scope (items.filterMap Item.block?)).1 := by
  induction items generalizing draft with
  | nil => simp [Block.elaborateAll]
  | cons item rest ih =>
    rw [List.foldl_cons, ih]
    cases item with
    | block block =>
      rw [List.filterMap_cons_some (by rfl)]
      cases h : (block.elaborate draft.scope).1 with
      | none => rw [add_block_of_none h, Block.elaborateAll_cons_of_none h]
      | some content =>
        rw [add_block_of_some h, Block.elaborateAll_cons_of_some h]
        simp
    | mapping format entries => rfl
    | rootName name => rfl
    | noRoot =>
      rw [List.filterMap_cons_none (by rfl)]
      by_cases h : kind = .group
      . rw [add_noRoot_of_group h]
      . rw [add_noRoot_of_ne_group h]

theorem noError_problems_foldl_iff (kind : ModelKind) (items : List Item) (draft : Draft) :
    NoError (items.foldl (Draft.add kind) draft).problems
      ↔ NoError draft.problems
        ∧ NoError (Block.elaborateAll draft.scope (items.filterMap Item.block?)).2
        ∧ (∀ mapping ∈ items.filterMap Item.mapping?,
            ∀ rule ∈ mapping.2.filterMap MappingEntry.rule?, rule.Complete)
        ∧ (.noRoot ∈ items → kind = .group) := by
  induction items generalizing draft with
  | nil => simp [Block.elaborateAll]
  | cons item rest ih =>
    rw [List.foldl_cons, ih]
    cases item with
    | block block =>
      rw [List.filterMap_cons_some (by rfl), List.filterMap_cons_none (by rfl)]
      cases h : (block.elaborate draft.scope).1 with
      | none =>
        rw [add_block_of_none h, Block.elaborateAll_cons_of_none h]
        simp [and_assoc]
      | some content =>
        rw [add_block_of_some h, Block.elaborateAll_cons_of_some h]
        simp [and_assoc]
    | mapping format entries =>
      rw [List.filterMap_cons_none (by rfl), List.filterMap_cons_some (by rfl)]
      simp only [add]
      rw [Problem.noError_append, MappingEntry.noError_elaborate_iff, List.forall_mem_cons]
      simp only [List.mem_cons, reduceCtorEq, false_or, and_assoc, and_left_comm]
    | rootName name =>
      rw [List.filterMap_cons_none (by rfl), List.filterMap_cons_none (by rfl)]
      simp [add]
    | noRoot =>
      rw [List.filterMap_cons_none (by rfl), List.filterMap_cons_none (by rfl)]
      by_cases h : kind = .group
      . rw [add_noRoot_of_group h]
        simp [h]
      . rw [add_noRoot_of_ne_group h]
        simp [h, Problem.isError, Problem.severity]

theorem forall_problem?_addRules_iff (attributes : List Attribute) (format : Format)
    (rules : List Rule) (mappings : List Mapping) :
    (∀ mapping ∈ addRules format rules mappings, ∀ rule ∈ mapping.rules,
        rule.problem? attributes = none)
      ↔ (∀ mapping ∈ mappings, ∀ rule ∈ mapping.rules, rule.problem? attributes = none)
        ∧ ∀ rule ∈ rules, rule.problem? attributes = none := by
  induction mappings with
  | nil => simp [addRules]
  | cons mapping rest ih =>
    rw [addRules]
    split
    . simp only [List.forall_mem_cons, List.forall_mem_append]
      grind
    . simp only [List.forall_mem_cons, ih, and_assoc]

theorem forall_problem?_foldl_iff (attributes : List Attribute) (kind : ModelKind)
    (items : List Item) (draft : Draft) :
    (∀ mapping ∈ (items.foldl (Draft.add kind) draft).mappings, ∀ rule ∈ mapping.rules,
        rule.problem? attributes = none)
      ↔ (∀ mapping ∈ draft.mappings, ∀ rule ∈ mapping.rules, rule.problem? attributes = none)
        ∧ ∀ mapping ∈ items.filterMap Item.mapping?,
            ∀ rule ∈ mapping.2.filterMap MappingEntry.rule?, ∀ complete,
              rule.complete = .ok complete → complete.problem? attributes = none := by
  induction items generalizing draft with
  | nil => simp
  | cons item rest ih =>
    rw [List.foldl_cons, ih]
    cases item with
    | block block =>
      rw [List.filterMap_cons_none (by rfl)]
      cases h : (block.elaborate draft.scope).1 with
      | none => rw [add_block_of_none h]
      | some content => rw [add_block_of_some h]
    | mapping format entries =>
      rw [List.filterMap_cons_some (by rfl), List.forall_mem_cons]
      simp only [add]
      rw [forall_problem?_addRules_iff, MappingEntry.forall_problem?_elaborate_iff, and_assoc]
    | rootName name => rfl
    | noRoot =>
      rw [List.filterMap_cons_none (by rfl)]
      by_cases h : kind = .group
      . rw [add_noRoot_of_group h]
      . rw [add_noRoot_of_ne_group h]

def addMapping (state : List Mapping × Nat) (mapping : Format × List MappingEntry) :
    List Mapping × Nat :=
  (addRules mapping.1 (MappingEntry.elaborate state.2 mapping.2).1 state.1,
    state.2 + mapping.2.countP MappingEntry.isGroup)

theorem mappings_foldl (kind : ModelKind) (items : List Item) (draft : Draft) :
    ((items.foldl (Draft.add kind) draft).mappings, (items.foldl (Draft.add kind) draft).nextGroup)
      = (items.filterMap Item.mapping?).foldl addMapping (draft.mappings, draft.nextGroup) := by
  induction items generalizing draft with
  | nil => rfl
  | cons item rest ih =>
    rw [List.foldl_cons, ih]
    cases item with
    | block block =>
      rw [List.filterMap_cons_none (by rfl)]
      cases h : (block.elaborate draft.scope).1 with
      | none => rw [add_block_of_none h]
      | some content => rw [add_block_of_some h]
    | mapping format entries => rfl
    | rootName name => rfl
    | noRoot =>
      rw [List.filterMap_cons_none (by rfl)]
      by_cases h : kind = .group
      . rw [add_noRoot_of_group h]
      . rw [add_noRoot_of_ne_group h]

theorem noError_mappingProblems_iff (draft : Draft) :
    NoError draft.mappingProblems
      ↔ ∀ mapping ∈ draft.mappings, ∀ rule ∈ mapping.rules,
          rule.problem? (Content.leavesAll draft.content) = none := by
  unfold mappingProblems
  constructor
  . intro h mapping hmapping rule hrule
    cases hproblem : rule.problem? (Content.leavesAll draft.content) with
    | none => rfl
    | some problem =>
      have herror := Rule.isError_of_problem? hproblem
      rw [h problem (by grind)] at herror
      cases herror
  . intro h problem hmem
    rcases List.mem_flatMap.mp hmem with ⟨mapping, hmapping, hmem⟩
    rcases List.mem_filterMap.mp hmem with ⟨rule, hrule, hproblem⟩
    rw [h mapping hmapping rule hrule] at hproblem
    cases hproblem

end Draft

end ContentModel
