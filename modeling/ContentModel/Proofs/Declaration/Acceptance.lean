import ContentModel.Proofs.Declaration.Draft

/-!
This module contains the conditions under which a declaration is accepted, each one a condition on
what is written down, and the proof that `Declaration.build` makes a model exactly under them.
-/

namespace ContentModel

namespace Declaration

def blocks (declaration : Declaration) : List Block := declaration.items.filterMap Item.block?

/--
All attributes that are declared anywhere, in declaration order.
-/
def attributes (declaration : Declaration) : List Attribute :=
  Block.attributesAll declaration.blocks

/--
All particles that are declared anywhere in pre-order, each with what stands directly in it.
-/
def particles (declaration : Declaration) : List (BlockKind × List Block) :=
  Block.particlesAll declaration.blocks

def mappings (declaration : Declaration) : List (Format × List MappingEntry) :=
  declaration.items.filterMap Item.mapping?

def rules (declaration : Declaration) : List RuleDraft :=
  declaration.mappings.flatMap fun mapping => mapping.2.filterMap MappingEntry.rule?

structure Acceptable (declaration : Declaration) : Prop where
  distinct : (declaration.attributes.map (·.name)).Nodup
  ranges : ∀ a ∈ declaration.attributes, ∀ max, a.occurs.max = some max → a.occurs.min ≤ max
  bounds : ∀ min max children, (.choice (some (min, max)), children) ∈ declaration.particles →
    1 ≤ min ∧ min ≤ max
  nesting : ∀ kind children, (kind, children) ∈ declaration.particles →
    kind.particleKind.Holds (children.map Block.kind?)
  noRoot : .noRoot ∈ declaration.items → declaration.kind = .group
  complete : ∀ draft ∈ declaration.rules, draft.Complete
  delegates : ∀ draft ∈ declaration.rules, ∀ delegate, draft.delegate = some delegate →
    ∃ a ∈ declaration.attributes, a.name = delegate ∧ a.type.model?.isSome
  targets : ∀ draft ∈ declaration.rules,
    draft.delegate = none → draft.read = none → draft.write = none →
      ∃ a ∈ declaration.attributes, draft.target = some a.name

open Problem (NoError)

theorem build_eq_ok_iff (declaration : Declaration) (model : Model) :
    declaration.build.value = .ok model
      ↔ NoError declaration.problems ∧ model = declaration.model := by
  unfold build
  split
  . next h =>
    have herror : ¬ NoError declaration.problems := by
      intro hno
      rcases List.any_eq_true.mp h with ⟨problem, hmem, herror⟩
      rw [hno problem hmem] at herror
      cases herror
    simp [herror]
  . next h =>
    have hno : NoError declaration.problems := by
      intro problem hmem
      rw [Bool.not_eq_true, List.any_eq_false] at h
      simpa using h problem hmem
    simp [hno, eq_comm]

theorem content_draft (declaration : Declaration) :
    declaration.draft.content = (Block.elaborateAll .top declaration.blocks).1 :=
  Draft.content_foldl declaration.kind declaration.items {}

theorem forall_mem_rules_iff (declaration : Declaration) (p : RuleDraft → Prop) :
    (∀ mapping ∈ declaration.mappings, ∀ rule ∈ mapping.2.filterMap MappingEntry.rule?, p rule)
      ↔ ∀ rule ∈ declaration.rules, p rule := by
  constructor
  . intro h rule hmem
    rcases List.mem_flatMap.mp hmem with ⟨mapping, hmapping, hrule⟩
    exact h mapping hmapping rule hrule
  . intro h mapping hmapping rule hrule
    exact h rule (List.mem_flatMap.mpr ⟨mapping, hmapping, hrule⟩)

theorem noError_blocks_iff (declaration : Declaration) :
    NoError (Block.elaborateAll .top declaration.blocks).2
      ↔ Block.SoundAll declaration.blocks ∧ (declaration.attributes.map (·.name)).Nodup := by
  rw [Block.noError_elaborateAll_iff]
  have hadmits : Scope.top.Admits (declaration.blocks.map Block.kind?) := trivial
  have hfresh (names : List String) : Scope.top.Fresh names ↔ names.Nodup := by
    simp [Scope.Fresh, Scope.top]
  rw [hfresh]
  exact and_iff_right hadmits

theorem noError_problems_draft_iff (declaration : Declaration) :
    NoError declaration.draft.problems
      ↔ NoError (Block.elaborateAll .top declaration.blocks).2
        ∧ (∀ rule ∈ declaration.rules, rule.Complete)
        ∧ (.noRoot ∈ declaration.items → declaration.kind = .group) := by
  unfold draft
  rw [Draft.noError_problems_foldl_iff, ← forall_mem_rules_iff]
  exact and_iff_right Problem.noError_nil

theorem leavesAll_content_draft {declaration : Declaration}
    (h : NoError (Block.elaborateAll .top declaration.blocks).2) :
    Content.leavesAll declaration.draft.content = declaration.attributes := by
  rw [content_draft, Block.elaborateAll_of_noError _ _ h, Block.leavesAll_contentAll]
  rfl

theorem noError_mappingProblems_draft_iff (declaration : Declaration) :
    NoError declaration.draft.mappingProblems
      ↔ ∀ draft ∈ declaration.rules, ∀ rule, draft.complete = .ok rule →
          rule.problem? (Content.leavesAll declaration.draft.content) = none := by
  rw [Draft.noError_mappingProblems_iff, ← forall_mem_rules_iff]
  generalize Content.leavesAll declaration.draft.content = attributes
  unfold draft
  rw [Draft.forall_problem?_foldl_iff]
  exact and_iff_right (by intro mapping hmem; cases hmem)

theorem forall_problem?_iff {declaration : Declaration}
    (hcomplete : ∀ rule ∈ declaration.rules, rule.Complete)
    (hdistinct : (declaration.attributes.map (·.name)).Nodup) :
    (∀ draft ∈ declaration.rules, ∀ rule, draft.complete = .ok rule →
        rule.problem? declaration.attributes = none)
      ↔ ∀ draft ∈ declaration.rules, draft.Linked declaration.attributes := by
  constructor
  . intro h draft hmem
    rcases RuleDraft.complete_eq_ok (hcomplete draft hmem) with ⟨rule, heq⟩
    exact (RuleDraft.problem?_eq_none_iff heq hdistinct).mp (h draft hmem rule heq)
  . intro h draft hmem rule heq
    exact (RuleDraft.problem?_eq_none_iff heq hdistinct).mpr (h draft hmem)

theorem isInverted_eq_false_iff (occurs : Occurs) :
    occurs.isInverted = false ↔ ∀ max, occurs.max = some max → occurs.min ≤ max := by
  unfold Occurs.isInverted
  cases occurs.max <;> simp

theorem acceptable_of_noError {declaration : Declaration} (h : NoError declaration.problems) :
    declaration.Acceptable := by
  unfold problems at h
  rw [Problem.noError_append, noError_problems_draft_iff] at h
  rcases h with ⟨⟨hblocks, hcomplete, hroot⟩, hmappings⟩
  rw [noError_mappingProblems_draft_iff, leavesAll_content_draft hblocks] at hmappings
  rw [noError_blocks_iff, Block.soundAll_iff] at hblocks
  rcases hblocks with ⟨⟨hranges, hparticles⟩, hdistinct⟩
  rw [forall_problem?_iff hcomplete hdistinct] at hmappings
  constructor
  case distinct => exact hdistinct
  case ranges =>
    intro a ha
    exact (isInverted_eq_false_iff a.occurs).mp (hranges a ha)
  case bounds =>
    intro min max children hmem
    exact (hparticles _ children hmem).1
  case nesting =>
    intro kind children hmem
    exact (hparticles kind children hmem).2
  case noRoot => exact hroot
  case complete => exact hcomplete
  case delegates =>
    intro draft hmem
    exact (hmappings draft hmem).1
  case targets =>
    intro draft hmem
    exact (hmappings draft hmem).2

theorem inOrder_of_acceptable {declaration : Declaration} (h : declaration.Acceptable)
    {kind : BlockKind} {children : List Block} (hmem : (kind, children) ∈ declaration.particles) :
    kind.InOrder := by
  unfold BlockKind.InOrder
  split
  . exact h.bounds _ _ children hmem
  . trivial

theorem Acceptable.soundAll {declaration : Declaration} (h : declaration.Acceptable) :
    Block.SoundAll declaration.blocks := by
  rw [Block.soundAll_iff]
  constructor
  . intro a ha
    exact (isInverted_eq_false_iff a.occurs).mpr (h.ranges a ha)
  . intro kind children hmem
    exact ⟨inOrder_of_acceptable h hmem, h.nesting kind children hmem⟩

theorem noError_of_acceptable {declaration : Declaration} (h : declaration.Acceptable) :
    NoError declaration.problems := by
  have hblocks : NoError (Block.elaborateAll .top declaration.blocks).2 := by
    rw [noError_blocks_iff]
    exact ⟨h.soundAll, h.distinct⟩
  unfold problems
  rw [Problem.noError_append, noError_problems_draft_iff]
  rw [noError_mappingProblems_draft_iff, leavesAll_content_draft hblocks]
  rw [forall_problem?_iff h.complete h.distinct]
  refine ⟨⟨hblocks, h.complete, h.noRoot⟩, ?_⟩
  intro draft hmem
  exact ⟨h.delegates draft hmem, h.targets draft hmem⟩

theorem exists_build_eq_ok_iff (declaration : Declaration) :
    (∃ model, declaration.build.value = .ok model) ↔ declaration.Acceptable := by
  constructor
  . rintro ⟨model, hbuild⟩
    exact acceptable_of_noError ((build_eq_ok_iff declaration model).mp hbuild).1
  . intro h
    exact ⟨declaration.model, (build_eq_ok_iff _ _).mpr ⟨noError_of_acceptable h, rfl⟩⟩

theorem Acceptable.perm {declaration : Declaration} (h : declaration.Acceptable)
    {items : List Item} (hperm : declaration.items.Perm items) :
    ({ declaration with items } : Declaration).Acceptable := by
  have hblocks := hperm.filterMap Item.block?
  have hattributes : declaration.attributes.Perm ({ declaration with items } : Declaration).attributes := by
    unfold attributes
    rw [Block.attributesAll_eq_flatMap, Block.attributesAll_eq_flatMap]
    exact hblocks.flatMap_right _
  have hparticles : declaration.particles.Perm ({ declaration with items } : Declaration).particles := by
    unfold particles
    rw [Block.particlesAll_eq_flatMap, Block.particlesAll_eq_flatMap]
    exact hblocks.flatMap_right _
  have hrules : declaration.rules.Perm ({ declaration with items } : Declaration).rules :=
    (hperm.filterMap Item.mapping?).flatMap_right _
  constructor
  case distinct => exact (hattributes.map _).nodup_iff.mp h.distinct
  case ranges =>
    intro a ha
    exact h.ranges a (hattributes.mem_iff.mpr ha)
  case bounds =>
    intro min max children hmem
    exact h.bounds min max children (hparticles.mem_iff.mpr hmem)
  case nesting =>
    intro kind children hmem
    exact h.nesting kind children (hparticles.mem_iff.mpr hmem)
  case noRoot =>
    intro hmem
    exact h.noRoot (hperm.mem_iff.mpr hmem)
  case complete =>
    intro draft hmem
    exact h.complete draft (hrules.mem_iff.mpr hmem)
  case delegates =>
    intro draft hmem delegate hdelegate
    rcases h.delegates draft (hrules.mem_iff.mpr hmem) delegate hdelegate with ⟨a, ha, hmodel⟩
    exact ⟨a, hattributes.mem_iff.mp ha, hmodel⟩
  case targets =>
    intro draft hmem hdelegate hread hwrite
    rcases h.targets draft (hrules.mem_iff.mpr hmem) hdelegate hread hwrite with ⟨a, ha, htarget⟩
    exact ⟨a, hattributes.mem_iff.mp ha, htarget⟩

theorem mappingProblems_draft_congr {declaration other : Declaration}
    (hblocks : other.blocks = declaration.blocks)
    (hmappings : other.mappings = declaration.mappings) :
    other.draft.mappingProblems = declaration.draft.mappingProblems := by
  have hdraft : other.draft.mappings = declaration.draft.mappings := by
    have h := Draft.mappings_foldl declaration.kind declaration.items {}
    have h' := Draft.mappings_foldl other.kind other.items {}
    change _ = List.foldl _ _ other.mappings at h'
    rw [hmappings] at h'
    exact congrArg Prod.fst (h'.trans h.symm)
  unfold Draft.mappingProblems
  rw [hdraft, content_draft, content_draft, hblocks]

/--
A declaration is accepted exactly when it keeps the conditions. In which order its items stand does
not matter, and the rules are held against the attributes in the same way wherever the mappings stand
among the blocks.
-/
theorem build_accepts_iff (declaration : Declaration) :
    ((∃ model, declaration.build.value = .ok model) ↔ declaration.Acceptable)
      ∧ (∀ items, declaration.items.Perm items →
          ((∃ model, ({ declaration with items } : Declaration).build.value = .ok model)
            ↔ ∃ model, declaration.build.value = .ok model))
      ∧ ∀ items, items.filterMap Item.block? = declaration.blocks →
          items.filterMap Item.mapping? = declaration.mappings →
          ({ declaration with items } : Declaration).draft.mappingProblems
            = declaration.draft.mappingProblems := by
  refine ⟨exists_build_eq_ok_iff declaration, ?_, ?_⟩
  . intro items hperm
    rw [exists_build_eq_ok_iff, exists_build_eq_ok_iff]
    constructor
    . intro h
      exact h.perm hperm.symm
    . intro h
      exact h.perm hperm
  . intro items hblocks hmappings
    exact mappingProblems_draft_congr hblocks hmappings

/--
A purchase, which holds an item with its payment or else a voucher. The rule that names the voucher
stands in front of the blocks.
-/
def purchase : Declaration where
  name := "Purchase"
  kind := .model
  items := [
    .mapping .xml [.rule { name := "code", target := some "voucher" }],
    .block (.leaf ⟨"tags", .string, .collection ⟨0, some 2⟩⟩),
    .block (.particle (.choice none) [
      .particle .sequence [
        .leaf ⟨"item", .string, .one⟩,
        .particle (.choice (some (1, 2))) [
          .leaf ⟨"card", .string, .one⟩,
          .leaf ⟨"cash", .string, .one⟩]],
      .leaf ⟨"voucher", .string, .one⟩])]

theorem purchase_accepted_in_any_order :
    (∃ model, purchase.build.value = .ok model)
      ∧ (∃ model,
          ({ purchase with items := purchase.items.reverse } : Declaration).build.value = .ok model)
      ∧ ({ purchase with items := purchase.items.drop 1 ++ purchase.items.take 1 }
            : Declaration).draft.mappingProblems
          = purchase.draft.mappingProblems := by
  have haccepts := build_accepts_iff purchase
  have hpurchase : ∃ model, purchase.build.value = .ok model := ⟨purchase.model, rfl⟩
  refine ⟨hpurchase, ?_, ?_⟩
  . exact (haccepts.2.1 _ (List.reverse_perm _).symm).mpr hpurchase
  . exact haccepts.2.2 _ rfl rfl

end Declaration

end ContentModel
