import Mathlib.Logic.Basic
import ContentModel.Proofs.Declaration.Acceptance

/-!
This module contains what happens to a declaration when something is deleted from it that was refused.
One error goes, and nothing else changes.
-/

namespace ContentModel

/--
Some error of the first list is not in the second one, which is the same otherwise.
-/
def Problem.ErrorGone (problems rest : List Problem) : Prop :=
  ∃ before problem after, problems = before ++ problem :: after ∧ rest = before ++ after
    ∧ problem.isError = true

namespace Problem.ErrorGone

variable {problems rest : List Problem}

theorem single {problem : Problem} (h : problem.isError = true) : ErrorGone [problem] [] :=
  ⟨[], problem, [], rfl, rfl, h⟩

theorem concat {problem : Problem} (h : problem.isError = true) (problems : List Problem) :
    ErrorGone (problems ++ [problem]) problems :=
  ⟨problems, problem, [], rfl, (List.append_nil problems).symm, h⟩

theorem append_left (h : ErrorGone problems rest) (others : List Problem) :
    ErrorGone (others ++ problems) (others ++ rest) := by
  rcases h with ⟨before, problem, after, rfl, rfl, herror⟩
  refine ⟨others ++ before, problem, after, ?_, ?_, herror⟩
  . rw [List.append_assoc]
  . rw [List.append_assoc]

theorem append_right (h : ErrorGone problems rest) (others : List Problem) :
    ErrorGone (problems ++ others) (rest ++ others) := by
  rcases h with ⟨before, problem, after, rfl, rfl, herror⟩
  refine ⟨before, problem, after ++ others, ?_, ?_, herror⟩
  . rw [List.append_assoc, List.cons_append]
  . rw [List.append_assoc]

end Problem.ErrorGone

open Problem (ErrorGone NoError)

namespace Scope

/--
An attribute is refused in a group, with an inverted range, or when its name is taken; a particle is
refused when its bounds are out of order or it may not stand here.
-/
def Refuses (scope : Scope) : Block → Prop
  | .leaf a => scope.parent = some .group ∨ a.occurs.isInverted = true ∨ a.name ∈ scope.names
  | .particle kind _ => ¬ kind.InOrder ∨ ¬ scope.Admits [some kind.particleKind]

/--
The scope behind a block, whether the block was refused or not.
-/
def after (scope : Scope) (block : Block) : Scope :=
  match (block.elaborate scope).1 with
  | none => scope
  | some content => scope.add content

theorem refuses_leaf_iff {scope : Scope} {a : Attribute} :
    scope.Refuses (.leaf a) ↔ scope.refuseAttribute? a ≠ none := by
  rw [Ne, refuseAttribute?_eq_none_iff, Refuses, not_and_or, not_and_or, not_not, not_not]
  rw [Bool.not_eq_false]

theorem admits_singleton_iff {scope : Scope} {kind : ParticleKind} :
    scope.Admits [some kind] ↔ scope.refuseParticle? kind = none := by
  have h := scope.admits_cons (.particle kind []) []
  rw [Content.kind?] at h
  rw [h]
  exact and_iff_left (admits_nil _)

end Scope

namespace Block

variable {scope : Scope} {block : Block} {kind : BlockKind} {children rest : List Block}

/--
What stands in a refused particle is not looked at.
-/
theorem elaborate_particle_of_refuses (h : scope.Refuses (.particle kind children)) :
    ∃ problem, problem.isError = true
      ∧ ∀ others, elaborate scope (.particle kind others) = (none, [problem]) := by
  by_cases hkind : kind.InOrder
  . rw [Scope.Refuses, Scope.admits_singleton_iff] at h
    rcases Option.ne_none_iff_exists'.mp (h.resolve_left (not_not.mpr hkind))
      with ⟨problem, hproblem⟩
    refine ⟨problem, Scope.isError_of_refuseParticle? hproblem, ?_⟩
    intro others
    rw [elaborate, BlockKind.resolve_of_inOrder hkind]
    dsimp only
    rw [hproblem]
  . rcases BlockKind.resolve_of_not_inOrder hkind with ⟨problem, hproblem, herror⟩
    refine ⟨problem, herror, ?_⟩
    intro others
    rw [elaborate, hproblem]

theorem elaborate_of_refuses (h : scope.Refuses block) :
    ∃ problem, block.elaborate scope = (none, [problem]) ∧ problem.isError = true := by
  cases block with
  | leaf a =>
    rw [Scope.refuses_leaf_iff, Option.ne_none_iff_exists'] at h
    rcases h with ⟨problem, hproblem⟩
    refine ⟨problem, ?_, Scope.isError_of_refuseAttribute? hproblem⟩
    rw [elaborate, hproblem]
  | particle kind children =>
    rcases elaborate_particle_of_refuses h with ⟨problem, herror, helaborate⟩
    exact ⟨problem, helaborate children, herror⟩

theorem elaborate_leaf_of_not_refuses {a : Attribute} (h : ¬ scope.Refuses (.leaf a)) :
    elaborate scope (.leaf a) = (some (.leaf a), []) := by
  rw [Scope.refuses_leaf_iff, not_not] at h
  rw [elaborate, h]

theorem elaborate_particle_of_not_refuses (h : ¬ scope.Refuses (.particle kind children)) :
    elaborate scope (.particle kind children)
      = (some (.particle kind.particleKind (elaborateAll (scope.enter kind.particleKind) children).1),
          (elaborateAll (scope.enter kind.particleKind) children).2
            ++ if (elaborateAll (scope.enter kind.particleKind) children).1.isEmpty then
              [.emptyParticle kind.particleKind] else []) := by
  rw [Scope.Refuses, not_or, not_not, not_not, Scope.admits_singleton_iff] at h
  rw [elaborate, BlockKind.resolve_of_inOrder h.1]
  dsimp only
  rw [h.2]

theorem elaborateAll_cons (scope : Scope) (block : Block) (rest : List Block) :
    elaborateAll scope (block :: rest)
      = ((block.elaborate scope).1.toList ++ (elaborateAll (scope.after block) rest).1,
          (block.elaborate scope).2 ++ (elaborateAll (scope.after block) rest).2) := by
  unfold Scope.after
  cases h : (block.elaborate scope).1 with
  | none => exact elaborateAll_cons_of_none h rest
  | some content => exact elaborateAll_cons_of_some h rest

/--
One block is deleted that is refused where it stands.
-/
inductive Drops : Scope → List Block → List Block → Prop where
  | here {scope : Scope} {block : Block} {rest : List Block} (h : scope.Refuses block) :
      Drops scope (block :: rest) rest
  | inside {scope : Scope} {kind : BlockKind} {children children' rest : List Block}
      (h : ¬ scope.Refuses (.particle kind children))
      (hdrops : Drops (scope.enter kind.particleKind) children children') :
      Drops scope (.particle kind children :: rest) (.particle kind children' :: rest)
  | later {scope : Scope} {block : Block} {rest rest' : List Block}
      (hdrops : Drops (scope.after block) rest rest') : Drops scope (block :: rest) (block :: rest')

/--
The elaborations have the same trees, and one error is gone.
-/
def Lighter {α : Type} (result rest : α × List Problem) : Prop :=
  rest.1 = result.1 ∧ ErrorGone result.2 rest.2

theorem lighter_particle {children' : List Block}
    (h : ¬ scope.Refuses (.particle kind children))
    (hchildren : Lighter (elaborateAll (scope.enter kind.particleKind) children)
      (elaborateAll (scope.enter kind.particleKind) children')) :
    Lighter (elaborate scope (.particle kind children))
      (elaborate scope (.particle kind children')) := by
  have h' : ¬ scope.Refuses (.particle kind children') := h
  rw [elaborate_particle_of_not_refuses h, elaborate_particle_of_not_refuses h', hchildren.1]
  exact ⟨rfl, hchildren.2.append_right _⟩

theorem lighter_of_drops {blocks blocks' : List Block} (h : Drops scope blocks blocks') :
    Lighter (elaborateAll scope blocks) (elaborateAll scope blocks') := by
  induction h with
  | @here scope block rest h =>
    rcases elaborate_of_refuses h with ⟨problem, hblock, herror⟩
    rw [elaborateAll_cons, Scope.after, hblock]
    exact ⟨rfl, (ErrorGone.single herror).append_right _⟩
  | @inside scope kind children children' rest h hdrops ih =>
    have hblock := lighter_particle h ih
    rw [elaborateAll_cons, elaborateAll_cons, Scope.after, Scope.after, hblock.1]
    exact ⟨rfl, hblock.2.append_right _⟩
  | @later scope block rest rest' hdrops ih =>
    rw [elaborateAll_cons, elaborateAll_cons, ih.1]
    exact ⟨rfl, ih.2.append_left _⟩

mutual

/--
The errors with a block come from a block that was refused: itself or one that stands in it.
-/
theorem refuses_or_exists_drops (block : Block) (scope : Scope)
    (h : ¬ NoError (block.elaborate scope).2) :
    scope.Refuses block ∨ ∃ kind children children', block = .particle kind children
      ∧ ¬ scope.Refuses block ∧ Drops (scope.enter kind.particleKind) children children' := by
  by_cases hrefuses : scope.Refuses block
  . exact .inl hrefuses
  . cases block with
    | leaf a =>
      rw [elaborate_leaf_of_not_refuses hrefuses] at h
      exact absurd Problem.noError_nil h
    | particle kind children =>
      rw [elaborate_particle_of_not_refuses hrefuses, Problem.noError_append, not_and_or] at h
      rcases h with h | h
      . rcases exists_drops children _ h with ⟨children', hdrops⟩
        exact .inr ⟨kind, children, children', rfl, hrefuses, hdrops⟩
      . refine absurd ?_ h
        split <;> simp [Problem.isError, Problem.severity]

theorem exists_drops (blocks : List Block) (scope : Scope)
    (h : ¬ NoError (elaborateAll scope blocks).2) : ∃ blocks', Drops scope blocks blocks' := by
  cases blocks with
  | nil => exact absurd Problem.noError_nil h
  | cons block rest =>
    rw [elaborateAll_cons, Problem.noError_append, not_and_or] at h
    rcases h with h | h
    . rcases refuses_or_exists_drops block scope h
        with hrefuses | ⟨kind, children, children', rfl, hrefuses, hdrops⟩
      . exact ⟨rest, .here hrefuses⟩
      . exact ⟨_, .inside hrefuses hdrops⟩
    . rcases exists_drops rest _ h with ⟨rest', hdrops⟩
      exact ⟨_, .later hdrops⟩

end

mutual

theorem fresh_elaborate (block : Block) (scope : Scope) :
    scope.Fresh ((Content.leavesAll (block.elaborate scope).1.toList).map (·.name)) := by
  by_cases h : scope.Refuses block
  . rcases elaborate_of_refuses h with ⟨problem, hblock, _⟩
    rw [hblock]
    simp [Scope.Fresh]
  . cases block with
    | leaf a =>
      rw [elaborate_leaf_of_not_refuses h]
      simp only [Scope.Refuses, not_or] at h
      simp [Scope.Fresh, Content.leaves, h]
    | particle kind children =>
      rw [elaborate_particle_of_not_refuses h]
      -- A particle starts with the names of the scope around it.
      have hchildren := fresh_elaborateAll children (scope.enter kind.particleKind)
      rw [Option.toList_some, Content.leavesAll_cons, Content.leavesAll_nil, List.append_nil]
      exact hchildren

theorem fresh_elaborateAll (blocks : List Block) (scope : Scope) :
    scope.Fresh ((Content.leavesAll (elaborateAll scope blocks).1).map (·.name)) := by
  cases blocks with
  | nil => simp [elaborateAll, Scope.Fresh]
  | cons block rest =>
    have hblock := fresh_elaborate block scope
    have hrest := fresh_elaborateAll rest (scope.after block)
    rw [elaborateAll_cons]
    unfold Scope.after at hrest ⊢
    cases hcontent : (block.elaborate scope).1 with
    | none =>
      rw [hcontent] at hrest
      exact hrest
    | some content =>
      rw [hcontent] at hblock hrest
      rw [Option.toList_some, List.singleton_append, Content.leavesAll_cons, List.map_append]
      rw [Scope.fresh_append]
      refine ⟨?_, hrest⟩
      simpa using hblock

end

end Block

namespace MappingEntry

theorem elaborate_append (n : Nat) (entries others : List MappingEntry) :
    elaborate n (entries ++ others)
      = ((elaborate n entries).1 ++ (elaborate (n + entries.countP isGroup) others).1,
          (elaborate n entries).2 ++ (elaborate (n + entries.countP isGroup) others).2) := by
  induction entries generalizing n with
  | nil => rfl
  | cons entry rest ih =>
    cases entry with
    | rule draft =>
      rw [List.cons_append, elaborate, elaborate, ih, List.countP_cons_of_neg (by simp [isGroup])]
      cases draft.complete <;> rfl
    | group functions fields =>
      rw [List.cons_append, elaborate, elaborate, ih, List.countP_cons_of_pos (by rfl)]
      rw [Nat.add_right_comm n 1, ← Nat.add_assoc]
      simp

end MappingEntry

namespace Mapping

/--
The rule is missing from the second list, which is the same otherwise.
-/
inductive RuleGone (rule : Rule) : List Mapping → List Mapping → Prop where
  | here {format : Format} {front back : List Rule} {rest : List Mapping} :
      RuleGone rule (⟨format, front ++ rule :: back⟩ :: rest) (⟨format, front ++ back⟩ :: rest)
  | later {mapping : Mapping} {rest rest' : List Mapping} (h : RuleGone rule rest rest') :
      RuleGone rule (mapping :: rest) (mapping :: rest')

namespace RuleGone

variable {rule : Rule} {mappings mappings' : List Mapping}

theorem of_addRules (format : Format) (front back : List Rule) (mappings : List Mapping) :
    RuleGone rule (Draft.addRules format (front ++ rule :: back) mappings)
      (Draft.addRules format (front ++ back) mappings) := by
  induction mappings with
  | nil => exact .here
  | cons mapping rest ih =>
    rw [Draft.addRules, Draft.addRules]
    split
    . rw [← List.append_assoc, ← List.append_assoc]
      exact .here
    . exact .later ih

theorem addRules (h : RuleGone rule mappings mappings') (format : Format) (rules : List Rule) :
    RuleGone rule (Draft.addRules format rules mappings) (Draft.addRules format rules mappings') := by
  induction h with
  | @here other front back rest =>
    rw [Draft.addRules, Draft.addRules]
    dsimp only
    split
    . rw [List.append_assoc, List.append_assoc, List.cons_append]
      exact .here
    . exact .here
  | @later mapping rest rest' h ih =>
    rw [Draft.addRules, Draft.addRules]
    split
    . exact .later h
    . exact .later ih

theorem errorGone (h : RuleGone rule mappings mappings') {attributes : List Attribute}
    {problem : Problem} (hproblem : rule.problem? attributes = some problem) :
    ErrorGone (mappings.flatMap fun mapping => mapping.rules.filterMap (·.problem? attributes))
      (mappings'.flatMap fun mapping => mapping.rules.filterMap (·.problem? attributes)) := by
  induction h with
  | here =>
    rw [List.flatMap_cons, List.flatMap_cons]
    apply ErrorGone.append_right
    rw [List.filterMap_append, List.filterMap_append, List.filterMap_cons_some hproblem]
    apply ErrorGone.append_left
    apply (ErrorGone.single (Rule.isError_of_problem? hproblem)).append_right
  | later h ih =>
    rw [List.flatMap_cons, List.flatMap_cons]
    apply ih.append_left

end RuleGone

end Mapping

namespace Draft

variable {kind : ModelKind} {attributes : List Attribute} {draft rest : Draft}

theorem add_block (kind : ModelKind) (draft : Draft) (block : Block) :
    draft.add kind (.block block)
      = { draft with
          scope := draft.scope.after block
          content := draft.content ++ (block.elaborate draft.scope).1.toList
          problems := draft.problems ++ (block.elaborate draft.scope).2 } := by
  unfold Scope.after
  cases h : (block.elaborate draft.scope).1 with
  | none =>
    rw [add_block_of_none h]
    simp
  | some content => rw [add_block_of_some h, Option.toList_some]

/--
One call of a declaration is deleted that is refused where it stands: an attribute or a particle, a
rule that lacks something or names the wrong attributes, or a misplaced `no_root`.
-/
inductive Drops (kind : ModelKind) (attributes : List Attribute) :
    Draft → List Item → List Item → Prop where
  | block {draft : Draft} {block : Block} {items : List Item} (h : draft.scope.Refuses block) :
      Drops kind attributes draft (.block block :: items) items
  | inside {draft : Draft} {particle : BlockKind} {children children' : List Block}
      {items : List Item} (h : ¬ draft.scope.Refuses (.particle particle children))
      (hdrops : Block.Drops (draft.scope.enter particle.particleKind) children children') :
      Drops kind attributes draft (.block (.particle particle children) :: items)
        (.block (.particle particle children') :: items)
  | rule {draft : Draft} {format : Format} {front back : List MappingEntry} {rule : RuleDraft}
      {items : List Item} (h : ¬ (rule.Complete ∧ rule.Linked attributes)) :
      Drops kind attributes draft (.mapping format (front ++ .rule rule :: back) :: items)
        (.mapping format (front ++ back) :: items)
  | noRoot {draft : Draft} {items : List Item} (h : kind ≠ .group) :
      Drops kind attributes draft (.noRoot :: items) items
  | later {draft : Draft} {item : Item} {items items' : List Item}
      (hdrops : Drops kind attributes (draft.add kind item) items items') :
      Drops kind attributes draft (item :: items) (item :: items')

/--
The drafts differ in one thing: an error is gone, or a rule is gone that names the wrong attributes.
-/
structure Lighter (attributes : List Attribute) (draft rest : Draft) : Prop where
  scope_eq : rest.scope = draft.scope
  content_eq : rest.content = draft.content
  nextGroup_eq : rest.nextGroup = draft.nextGroup
  rootName_eq : rest.rootName = draft.rootName
  noRoot_eq : rest.noRoot = draft.noRoot
  gone : (ErrorGone draft.problems rest.problems ∧ rest.mappings = draft.mappings)
    ∨ (rest.problems = draft.problems ∧ ∃ rule problem, rule.problem? attributes = some problem
      ∧ Mapping.RuleGone rule draft.mappings rest.mappings)

theorem Lighter.add (h : Lighter attributes draft rest) (kind : ModelKind) (item : Item) :
    Lighter attributes (draft.add kind item) (rest.add kind item) := by
  rcases draft with ⟨scope, content, mappings, nextGroup, rootName, noRoot, problems⟩
  rcases rest with ⟨scope', content', mappings', nextGroup', rootName', noRoot', problems'⟩
  rcases h with ⟨hscope, hcontent, hnext, hroot, hnoRoot, hgone⟩
  dsimp only at hscope hcontent hnext hroot hnoRoot hgone
  subst hscope hcontent hnext hroot hnoRoot
  -- Whatever an item adds to the problems or to the mappings, it adds to both drafts.
  have happend (others : List Problem) :
      (ErrorGone (problems ++ others) (problems' ++ others) ∧ mappings' = mappings)
        ∨ (problems' ++ others = problems ++ others ∧ ∃ rule problem,
          rule.problem? attributes = some problem ∧ Mapping.RuleGone rule mappings mappings') := by
    rcases hgone with ⟨hgone, hmappings⟩ | ⟨hproblems, hgone⟩
    . exact .inl ⟨hgone.append_right others, hmappings⟩
    . exact .inr ⟨congrArg (· ++ others) hproblems, hgone⟩
  cases item with
  | block block =>
    rw [add_block, add_block]
    exact ⟨rfl, rfl, rfl, rfl, rfl, happend _⟩
  | mapping format entries =>
    refine ⟨rfl, rfl, rfl, rfl, rfl, ?_⟩
    rcases happend (MappingEntry.elaborate nextGroup' entries).2
      with ⟨hproblems, hmappings⟩ | ⟨hproblems, rule, problem, hproblem, hrule⟩
    . exact .inl ⟨hproblems, congrArg (addRules format _) hmappings⟩
    . exact .inr ⟨hproblems, rule, problem, hproblem, hrule.addRules format _⟩
  | rootName name => exact ⟨rfl, rfl, rfl, rfl, rfl, hgone⟩
  | noRoot =>
    by_cases hkind : kind = .group
    . rw [add_noRoot_of_group hkind, add_noRoot_of_group hkind]
      exact ⟨rfl, rfl, rfl, rfl, rfl, hgone⟩
    . rw [add_noRoot_of_ne_group hkind, add_noRoot_of_ne_group hkind]
      exact ⟨rfl, rfl, rfl, rfl, rfl, happend _⟩

theorem Lighter.foldl (h : Lighter attributes draft rest) (kind : ModelKind) (items : List Item) :
    Lighter attributes (items.foldl (Draft.add kind) draft) (items.foldl (Draft.add kind) rest) := by
  induction items generalizing draft rest with
  | nil => exact h
  | cons item items ih => exact ih (h.add kind item)

theorem lighter_mapping (hdistinct : (attributes.map (·.name)).Nodup) {rule : RuleDraft}
    (h : ¬ (rule.Complete ∧ rule.Linked attributes)) (draft : Draft) (format : Format)
    (front back : List MappingEntry) :
    Lighter attributes (draft.add kind (.mapping format (front ++ .rule rule :: back)))
      (draft.add kind (.mapping format (front ++ back))) := by
  have hcount : (front ++ .rule rule :: back).countP MappingEntry.isGroup
      = (front ++ back).countP MappingEntry.isGroup := by
    rw [List.countP_append, List.countP_append]
    rw [List.countP_cons_of_neg (by simp [MappingEntry.isGroup])]
  simp only [add, MappingEntry.elaborate_append, hcount, MappingEntry.elaborate]
  by_cases hcomplete : rule.Complete
  . rcases RuleDraft.complete_eq_ok hcomplete with ⟨complete, heq⟩
    have hproblem : complete.problem? attributes ≠ none := by
      intro hnone
      exact h ⟨hcomplete, (RuleDraft.problem?_eq_none_iff heq hdistinct).mp hnone⟩
    rcases Option.ne_none_iff_exists'.mp hproblem with ⟨problem, hproblem⟩
    rw [heq]
    refine ⟨rfl, rfl, rfl, rfl, rfl, .inr ⟨rfl, complete, problem, hproblem, ?_⟩⟩
    apply Mapping.RuleGone.of_addRules
  . rcases RuleDraft.complete_eq_error hcomplete with ⟨problem, heq, herror⟩
    rw [heq]
    refine ⟨rfl, rfl, rfl, rfl, rfl, .inl ⟨?_, rfl⟩⟩
    apply ErrorGone.append_left
    apply ErrorGone.append_left
    apply (ErrorGone.single herror).append_right

theorem lighter_of_drops (hdistinct : (attributes.map (·.name)).Nodup) {items items' : List Item}
    (h : Drops kind attributes draft items items') :
    Lighter attributes (items.foldl (Draft.add kind) draft) (items'.foldl (Draft.add kind) draft) := by
  induction h with
  | @block draft block items h =>
    rcases Block.elaborate_of_refuses h with ⟨problem, hblock, herror⟩
    refine Lighter.foldl ?_ kind items
    rw [add_block, Scope.after, hblock]
    refine ⟨rfl, ?_, rfl, rfl, rfl, .inl ⟨ErrorGone.concat herror _, rfl⟩⟩
    rw [Option.toList_none, List.append_nil]
  | @inside draft particle children children' items h hdrops =>
    have hblock := Block.lighter_particle h (Block.lighter_of_drops hdrops)
    refine Lighter.foldl ?_ kind items
    rw [add_block, add_block, Scope.after, Scope.after, hblock.1]
    exact ⟨rfl, rfl, rfl, rfl, rfl, .inl ⟨hblock.2.append_left _, rfl⟩⟩
  | rule h => exact (lighter_mapping hdistinct h _ _ _ _).foldl kind _
  | @noRoot draft items h =>
    refine Lighter.foldl ?_ kind items
    rw [add_noRoot_of_ne_group h]
    exact ⟨rfl, rfl, rfl, rfl, rfl, .inl ⟨ErrorGone.concat rfl _, rfl⟩⟩
  | later hdrops ih => exact ih

theorem exists_drops_rule {items : List Item} {format : Format} {entries : List MappingEntry}
    (hitem : .mapping format entries ∈ items) {rule : RuleDraft}
    (hrule : rule ∈ entries.filterMap MappingEntry.rule?)
    (h : ¬ (rule.Complete ∧ rule.Linked attributes)) (draft : Draft) :
    ∃ items', Drops kind attributes draft items items' := by
  induction items generalizing draft with
  | nil => cases hitem
  | cons item rest ih =>
    rcases List.mem_cons.mp hitem with rfl | hitem
    . rcases List.mem_filterMap.mp hrule with ⟨entry, hentry, heq⟩
      cases entry with
      | rule declared =>
        cases heq
        rcases List.append_of_mem hentry with ⟨front, back, rfl⟩
        exact ⟨_, .rule h⟩
      | group functions fields => cases heq
    . rcases ih hitem (draft.add kind item) with ⟨items', hdrops⟩
      exact ⟨_, .later hdrops⟩

/--
The errors that come up item by item come from a call that was refused.
-/
theorem exists_drops {items : List Item} (hdraft : NoError draft.problems)
    (h : ¬ NoError (items.foldl (Draft.add kind) draft).problems) :
    ∃ items', Drops kind attributes draft items items' := by
  induction items generalizing draft with
  | nil => exact absurd hdraft h
  | cons item rest ih =>
    by_cases hitem : NoError (draft.add kind item).problems
    . rcases ih hitem h with ⟨rest', hdrops⟩
      exact ⟨_, .later hdrops⟩
    . cases item with
      | block block =>
        rw [add_block, Problem.noError_append, not_and_or] at hitem
        have hblock := hitem.resolve_left (not_not.mpr hdraft)
        rcases Block.refuses_or_exists_drops block draft.scope hblock
          with hrefuses | ⟨particle, children, children', rfl, hrefuses, hdrops⟩
        . exact ⟨rest, .block hrefuses⟩
        . exact ⟨_, .inside hrefuses hdrops⟩
      | mapping format entries =>
        have helaborate : ¬ NoError (MappingEntry.elaborate draft.nextGroup entries).2 := by
          intro hno
          exact hitem ((Problem.noError_append _ _).mpr ⟨hdraft, hno⟩)
        rw [MappingEntry.noError_elaborate_iff] at helaborate
        simp only [not_forall, exists_prop] at helaborate
        rcases helaborate with ⟨rule, hrule, hcomplete⟩
        exact exists_drops_rule List.mem_cons_self hrule (fun h => hcomplete h.1) draft
      | rootName name => exact absurd hdraft hitem
      | noRoot =>
        by_cases hkind : kind = .group
        . rw [add_noRoot_of_group hkind] at hitem
          exact absurd hdraft hitem
        . exact ⟨rest, .noRoot hkind⟩

end Draft

namespace Declaration

/--
The attributes that were accepted, in declaration order.
-/
def accepted (declaration : Declaration) : List Attribute :=
  Content.leavesAll declaration.draft.content

theorem distinct_accepted (declaration : Declaration) :
    (declaration.accepted.map (·.name)).Nodup := by
  unfold accepted
  rw [content_draft]
  exact (Block.fresh_elaborateAll declaration.blocks .top).1

/--
The items are those of the declaration without one call that is refused.
-/
def Drops (declaration : Declaration) (items : List Item) : Prop :=
  Draft.Drops declaration.kind declaration.accepted {} declaration.items items

theorem errorGone_problems {declaration : Declaration} {items : List Item}
    (h : declaration.Drops items) :
    ErrorGone declaration.problems ({ declaration with items } : Declaration).problems := by
  have hlighter := Draft.lighter_of_drops declaration.distinct_accepted h
  change Draft.Lighter _ declaration.draft ({ declaration with items } : Declaration).draft at hlighter
  unfold problems
  rcases hlighter.gone with ⟨hgone, hmappings⟩ | ⟨hproblems, rule, problem, hproblem, hgone⟩
  . have hsame : ({ declaration with items } : Declaration).draft.mappingProblems
        = declaration.draft.mappingProblems := by
      unfold Draft.mappingProblems
      rw [hmappings, hlighter.content_eq]
    rw [hsame]
    exact hgone.append_right _
  . rw [hproblems]
    apply ErrorGone.append_left
    unfold Draft.mappingProblems
    rw [hlighter.content_eq]
    exact hgone.errorGone hproblem

/--
A declaration fails exactly when some call of it is refused.
-/
theorem exists_build_eq_error_iff (declaration : Declaration) :
    (∃ e, declaration.build.value = .error e) ↔ ∃ items, declaration.Drops items := by
  have hfails : (∃ e, declaration.build.value = .error e) ↔ ¬ NoError declaration.problems := by
    rw [← not_iff_not, not_not]
    constructor
    . intro h
      cases hbuild : declaration.build.value with
      | ok model => exact ((build_eq_ok_iff declaration model).mp hbuild).1
      | error e => exact absurd ⟨e, hbuild⟩ h
    . rintro hno ⟨e, he⟩
      rw [(build_eq_ok_iff declaration _).mpr ⟨hno, rfl⟩] at he
      cases he
  rw [hfails]
  constructor
  . intro h
    rw [problems, Problem.noError_append, not_and_or] at h
    rcases h with h | h
    . exact Draft.exists_drops Problem.noError_nil h
    . rw [noError_mappingProblems_draft_iff] at h
      simp only [not_forall, exists_prop] at h
      rcases h with ⟨draft, hdraft, rule, hcomplete, hproblem⟩
      rcases List.mem_flatMap.mp hdraft with ⟨mapping, hmapping, hrule⟩
      rcases List.mem_filterMap.mp hmapping with ⟨item, hitem, heq⟩
      have hlinked : ¬ (draft.Complete ∧ draft.Linked declaration.accepted) := by
        intro hdraft
        apply hproblem
        exact (RuleDraft.problem?_eq_none_iff hcomplete declaration.distinct_accepted).mpr hdraft.2
      cases item with
      | mapping format entries =>
        cases heq
        exact Draft.exists_drops_rule hitem hrule hlinked {}
      | block block => cases heq
      | rootName name => cases heq
      | noRoot => cases heq
  . rintro ⟨items, hdrops⟩ hno
    rcases errorGone_problems hdrops with ⟨before, problem, after, hproblems, _, herror⟩
    rw [hno problem (by simp [hproblems])] at herror
    cases herror

end Declaration

end ContentModel
