import Mathlib.Data.List.Basic
import Mathlib.Data.List.Perm.Basic
import ContentModel.Proofs.Model
import ContentModel.Proofs.Validation.Validity

/-!
This module contains the proof that sequences and groups inside a sequence, and groups at the top
level, say nothing on their own: with their children in their place a model has the same failures.
-/

namespace ContentModel

namespace Block

/--
The second block has the children of a nested sequence or group in the place where the first one has
the nested particle itself, somewhere inside a sequence at or below it.
-/
inductive Flattens : Block → Block → Prop where
  | splice {kind : BlockKind} {before inner after : List Block} :
      kind = .sequence ∨ kind = .group →
        Flattens (.particle .sequence (before ++ .particle kind inner :: after))
          (.particle .sequence (before ++ inner ++ after))
  | child {kind : BlockKind} {before after : List Block} {block flat : Block} :
      Flattens block flat →
        Flattens (.particle kind (before ++ block :: after))
          (.particle kind (before ++ flat :: after))

end Block

namespace Declaration

/--
The second declaration has the blocks `inner` in the place where the first one has `outer`.
-/
inductive Exchanges (outer inner : List Block) : Declaration → Declaration → Prop where
  | mk {name : String} {kind : ModelKind} {before after : List Item} :
      Exchanges outer inner ⟨name, kind, before ++ outer.map .block ++ after⟩
        ⟨name, kind, before ++ inner.map .block ++ after⟩

def Flattens (declaration flat : Declaration) : Prop :=
  ∃ outer inner, Block.Flattens outer inner ∧ Exchanges [outer] [inner] declaration flat

def Ungroups (declaration flat : Declaration) : Prop :=
  ∃ inner, Exchanges [.particle .group inner] inner declaration flat

end Declaration

namespace Content

/--
The trees can stand for each other: they hold the same leaves and have the same to say to whatever
stands around them.
-/
structure Interchangeable (inst : Instance) (anchor : Anchor) (content flat : Content) : Prop where
  kind : flat.kind? = content.kind?
  leaves : flat.leaves = content.leaves
  placed : flat.placed inst = content.placed inst
  orderFailures : flat.orderFailures inst anchor = content.orderFailures inst anchor
  report : ∀ inChoice, flat.report inst anchor inChoice = content.report inst anchor inChoice

variable {inst : Instance} {anchor : Anchor}

theorem orderFailures_group (children : List Content) :
    (particle .group children).orderFailures inst anchor
      = children.flatMap fun child =>
          if child.kind? = some .sequence then child.orderFailures inst anchor else [] := by
  induction children with
  | nil => rfl
  | cons child rest ih =>
    rw [List.flatMap_cons, ← ih]
    cases child with
    | leaf a => rfl
    | particle kind children =>
      cases kind with
      | sequence =>
        rw [if_pos (by rfl), orderFailures_sequence, orderFailures, sequences]
        rw [List.filterMap_cons_some (by rfl), filterMap_cons_eq_append]
        rfl
      | choice range => rfl
      | group => rfl
      | all => rfl

namespace Interchangeable

variable {content flat : Content}

theorem eq_or_particle (h : Interchangeable inst anchor content flat) :
    flat = content
      ∨ ∃ kind children others, content = .particle kind children ∧ flat = .particle kind others := by
  rcases h with ⟨hkind, hleaves, _⟩
  cases content with
  | leaf a =>
    cases flat with
    | leaf b =>
      rw [Content.leaves, Content.leaves, List.singleton_inj] at hleaves
      exact .inl (by rw [hleaves])
    | particle kind others => cases hkind
  | particle kind children =>
    cases flat with
    | leaf b => cases hkind
    | particle kind others =>
      cases hkind
      exact .inr ⟨kind, children, others, rfl, rfl⟩

theorem matchesOf (h : Interchangeable inst anchor content flat) :
    flat.matchesOf inst = content.matchesOf inst := by
  rw [← weight_eq_matchesOf, ← weight_eq_matchesOf, h.leaves]
  rcases h.eq_or_particle with heq | ⟨kind, children, others, hcontent, hflat⟩
  . rw [heq]
  . rw [hcontent, hflat]
    rfl

theorem leavesAll (h : Interchangeable inst anchor content flat) (before after : List Content) :
    Content.leavesAll (before ++ flat :: after)
      = Content.leavesAll (before ++ content :: after) := by
  rw [leavesAll_append, leavesAll_append, leavesAll_cons, leavesAll_cons, h.leaves]

theorem placedAll (h : Interchangeable inst anchor content flat) (before after : List Content) :
    Content.placedAll inst (before ++ flat :: after)
      = Content.placedAll inst (before ++ content :: after) := by
  rw [placedAll_append, placedAll_append, Content.placedAll, Content.placedAll, h.placed]

theorem reportAll (h : Interchangeable inst anchor content flat) (before after : List Content)
    (inChoice : Bool) :
    Content.reportAll inst anchor inChoice (before ++ flat :: after)
      = Content.reportAll inst anchor inChoice (before ++ content :: after) := by
  rw [reportAll_append, reportAll_append, Content.reportAll, Content.reportAll, h.report]

theorem choiceFailure? (h : Interchangeable inst anchor content flat) (before after : List Content)
    (range : ChoiceRange) (inChoice : Bool) :
    Content.choiceFailure? inst anchor range inChoice (before ++ flat :: after)
      = Content.choiceFailure? inst anchor range inChoice (before ++ content :: after) := by
  unfold Content.choiceFailure? presentAll
  rw [h.leavesAll, matchCount_append, matchCount_append, matchCount, matchCount, h.matchesOf]
  rw [List.any_append, List.any_append, List.any_cons, List.any_cons, h.orderFailures]

theorem allFailure? (h : Interchangeable inst anchor content flat) (before after : List Content) :
    Content.allFailure? inst (before ++ flat :: after)
      = Content.allFailure? inst (before ++ content :: after) := by
  have hleaf : flat.leaf? = content.leaf? := by
    rcases h.eq_or_particle with heq | ⟨kind, children, others, hcontent, hflat⟩
    . rw [heq]
    . rw [hcontent, hflat]
      rfl
  unfold Content.allFailure?
  rw [List.filterMap_append, List.filterMap_append]
  rw [filterMap_cons_eq_append, filterMap_cons_eq_append, hleaf]

theorem child (h : Interchangeable inst anchor content flat) (kind : ParticleKind)
    (before after : List Content) :
    Interchangeable inst anchor (.particle kind (before ++ content :: after))
      (.particle kind (before ++ flat :: after)) := by
  have hleaves := h.leavesAll before after
  have hplaced := h.placedAll before after
  constructor
  case kind => rfl
  case leaves => exact hleaves
  case placed =>
    cases kind with
    | sequence => exact hplaced
    | choice range =>
      rw [Content.placed, Content.placed, presentAll, presentAll, hleaves]
    | group => exact hplaced
    | all => rfl
  case orderFailures =>
    cases kind with
    | sequence =>
      rw [orderFailures_sequence, orderFailures_sequence, orderFailure?, orderFailure?, hplaced]
    | choice range => rfl
    | group =>
      rw [orderFailures_group, orderFailures_group, List.flatMap_append, List.flatMap_append]
      rw [List.flatMap_cons, List.flatMap_cons, h.kind, h.orderFailures]
    | all => rfl
  case report =>
    intro inChoice
    cases kind with
    | sequence => rw [report_sequence, report_sequence, hleaves, h.reportAll]
    | choice range => rw [Content.report, Content.report, h.reportAll, h.choiceFailure?]
    | group => rw [report_group, report_group, hleaves, h.reportAll]
    | all => rw [Content.report, Content.report, h.allFailure?]

end Interchangeable

theorem report_nested {kind : ParticleKind} (h : kind = .sequence ∨ kind = .group)
    {inChoice : Bool} {inner contents : List Content}
    (hsubset : leavesAll inner ⊆ leavesAll contents) :
    let untaken := inChoice && !(leavesAll contents).any (·.isPresent inst)
    (particle kind inner).report inst anchor untaken = reportAll inst anchor untaken inner := by
  intro untaken
  have huntaken : (untaken && !(leavesAll inner).any (·.isPresent inst)) = untaken := by
    cases hany : (leavesAll inner).any (·.isPresent inst) with
    | false => rw [Bool.not_false, Bool.and_true]
    | true =>
      -- What is present below the nested particle is present below the outer one.
      have hcontents : (leavesAll contents).any (·.isPresent inst) = true := by
        rw [List.any_eq_true] at hany ⊢
        rcases hany with ⟨a, ha, hpresent⟩
        exact ⟨a, hsubset ha, hpresent⟩
      simp [untaken, hcontents]
  cases h with
  | inl h => rw [h, report_sequence, huntaken]
  | inr h => rw [h, report_group, huntaken]

theorem interchangeable_splice {kind : ParticleKind} (h : kind = .sequence ∨ kind = .group)
    (before inner after : List Content) :
    Interchangeable inst anchor (.particle .sequence (before ++ .particle kind inner :: after))
      (.particle .sequence (before ++ inner ++ after)) := by
  have hleaves : leavesAll (before ++ inner ++ after)
      = leavesAll (before ++ .particle kind inner :: after) := by
    rw [leavesAll_append, leavesAll_append, leavesAll_append, leavesAll_cons, List.append_assoc]
    rfl
  have hplaced : placedAll inst (before ++ inner ++ after)
      = placedAll inst (before ++ .particle kind inner :: after) := by
    rw [placedAll_append, placedAll_append, placedAll_append, placedAll, List.append_assoc]
    cases h with
    | inl h => rw [h]; rfl
    | inr h => rw [h]; rfl
  constructor
  case kind => rfl
  case leaves => exact hleaves
  case placed => exact hplaced
  case orderFailures =>
    rw [orderFailures_sequence, orderFailures_sequence, orderFailure?, orderFailure?, hplaced]
  case report =>
    intro inChoice
    have hsubset : leavesAll inner ⊆ leavesAll (before ++ .particle kind inner :: after) := by
      rw [← hleaves, leavesAll_append, leavesAll_append]
      apply List.subset_append_of_subset_left
      apply List.subset_append_right
    rw [report_sequence, report_sequence, hleaves]
    rw [reportAll_append, reportAll_append, reportAll_append, reportAll]
    rw [report_nested h hsubset, List.append_assoc]

theorem reportAll_eq_flatMap (contents : List Content) (inChoice : Bool) :
    reportAll inst anchor inChoice contents = contents.flatMap (·.report inst anchor inChoice) := by
  induction contents with
  | nil => rfl
  | cons content rest ih => rw [reportAll, List.flatMap_cons, ih]

/--
What the trees have to say at the top level of a model, one after the other.
-/
def rootFailures (inst : Instance) (anchor : Anchor) (contents : List Content) : List Failure :=
  contents.flatMap fun root => root.report inst anchor false ++ root.orderFailures inst anchor

theorem rootFailures_append (xs ys : List Content) :
    rootFailures inst anchor (xs ++ ys)
      = rootFailures inst anchor xs ++ rootFailures inst anchor ys := List.flatMap_append

theorem Interchangeable.rootFailures {content flat : Content}
    (h : Interchangeable inst anchor content flat) :
    Content.rootFailures inst anchor [flat] = Content.rootFailures inst anchor [content] := by
  unfold Content.rootFailures
  rw [List.flatMap_singleton, List.flatMap_singleton, h.report, h.orderFailures]

theorem perm_rootFailures_of_group {children : List Content}
    (hnested : ParticleKind.group.Holds (children.map kind?)) :
    (rootFailures inst anchor children).Perm
      (rootFailures inst anchor [.particle .group children]) := by
  have horder : (particle .group children).orderFailures inst anchor
      = children.flatMap (·.orderFailures inst anchor) := by
    rw [orderFailures_group]
    apply List.flatMap_congr
    intro child hchild
    have hgroup : child.kind? ≠ some .group := by
      intro hkind
      exact hnested.2.1 (List.mem_map.mpr ⟨child, hchild, hkind⟩)
    split
    . rfl
    . next hkind =>
      cases child with
      | leaf a => rfl
      | particle kind children =>
        cases kind with
        | sequence => exact absurd rfl hkind
        | choice range => rfl
        | group => exact absurd rfl hgroup
        | all => rfl
  unfold rootFailures
  rw [List.flatMap_singleton, report_group, Bool.false_and, reportAll_eq_flatMap, horder]
  -- The group holds its sequences to their order behind everything that its children report.
  exact (List.flatMap_append_perm children _ _).symm

end Content

namespace Block

namespace Flattens

variable {block flat : Block}

theorem interchangeable (h : block.Flattens flat) (inst : Instance) (anchor : Anchor) :
    Content.Interchangeable inst anchor block.content flat.content := by
  induction h with
  | @splice kind before inner after hkind =>
    have hparticle : kind.particleKind = .sequence ∨ kind.particleKind = .group := by
      cases hkind with
      | inl hkind => exact .inl (by rw [hkind]; rfl)
      | inr hkind => exact .inr (by rw [hkind]; rfl)
    rw [content, content, contentAll_append, contentAll_append, contentAll_append, contentAll]
    apply Content.interchangeable_splice hparticle
  | child _ ih =>
    rw [content, content, contentAll_append, contentAll_append, contentAll, contentAll]
    apply ih.child

theorem kind? (h : block.Flattens flat) : flat.kind? = block.kind? := by
  cases h <;> rfl

theorem attributes (h : block.Flattens flat) : flat.attributes = block.attributes := by
  induction h with
  | splice _ =>
    rw [Block.attributes, Block.attributes, attributesAll_append, attributesAll_append]
    rw [attributesAll_append, attributesAll, Block.attributes, List.append_assoc]
  | child _ ih =>
    rw [Block.attributes, Block.attributes, attributesAll_append, attributesAll_append]
    rw [attributesAll, attributesAll, ih]

theorem sound (h : block.Flattens flat) (hsound : block.Sound) : flat.Sound := by
  induction h with
  | @splice kind before inner after hkind =>
    rw [Sound, soundAll_append, SoundAll, Sound] at hsound
    rcases hsound with ⟨horder, hholds, hbefore, ⟨_, hinner, hall⟩, hafter⟩
    have hinner : some .all ∉ inner.map Block.kind? := by
      cases hkind with
      | inl hkind =>
        rw [hkind] at hinner
        exact hinner
      | inr hkind =>
        rw [hkind] at hinner
        exact hinner.2.2.1
    rw [Sound, soundAll_append, soundAll_append]
    refine ⟨horder, ?_, ⟨hbefore, hall⟩, hafter⟩
    change some ParticleKind.all ∉ _ at hholds ⊢
    rw [List.map_append, List.mem_append, List.map_cons, List.mem_cons] at hholds
    rw [List.map_append, List.map_append, List.mem_append, List.mem_append]
    rintro ((hall | hall) | hall)
    . exact hholds (.inl hall)
    . exact hinner hall
    . exact hholds (.inr (.inr hall))
  | @child kind before after block flat h ih =>
    rw [Sound, soundAll_append, SoundAll] at hsound ⊢
    rcases hsound with ⟨horder, hholds, hbefore, hblock, hafter⟩
    refine ⟨horder, ?_, hbefore, ih hblock, hafter⟩
    rw [List.map_append, List.map_cons] at hholds ⊢
    rw [h.kind?]
    exact hholds

end Flattens

end Block

namespace Declaration

variable {declaration other : Declaration} {model : Model}

theorem value_validate_of_build (h : declaration.build.value = .ok model) (inst : Instance)
    (anchor : Anchor) :
    (model.validate inst anchor).value
      = declaration.attributes.filterMap (·.countFailure? inst)
        ++ Content.rootFailures inst anchor (Block.contentAll declaration.blocks) := by
  rw [Model.value_validate (wellNested_of_build h), attributes_of_build h, content_of_build h]
  rfl

namespace Exchanges

variable {outer inner : List Block}

theorem exists_blocks (h : Exchanges outer inner declaration other) :
    ∃ before after, declaration.blocks = before ++ outer ++ after
      ∧ other.blocks = before ++ inner ++ after := by
  have hblocks (blocks : List Block) : (blocks.map Item.block).filterMap Item.block? = blocks := by
    rw [List.filterMap_map]
    exact List.filterMap_some
  cases h with
  | @mk name kind before after =>
    refine ⟨before.filterMap Item.block?, after.filterMap Item.block?, ?_, ?_⟩
    . rw [blocks, List.filterMap_append, List.filterMap_append, hblocks]
    . rw [blocks, List.filterMap_append, List.filterMap_append, hblocks]

theorem rules (h : Exchanges outer inner declaration other) : other.rules = declaration.rules := by
  have hblocks (blocks : List Block) : (blocks.map Item.block).filterMap Item.mapping? = [] := by
    rw [List.filterMap_map]
    exact List.filterMap_eq_nil_iff.mpr (fun _ _ => rfl)
  cases h with
  | mk =>
    unfold Declaration.rules mappings
    rw [List.filterMap_append, List.filterMap_append, hblocks]
    rw [List.filterMap_append, List.filterMap_append, hblocks]

theorem attributes (h : Exchanges outer inner declaration other)
    (hattributes : Block.attributesAll inner = Block.attributesAll outer) :
    other.attributes = declaration.attributes := by
  rcases h.exists_blocks with ⟨before, after, houter, hinner⟩
  unfold Declaration.attributes
  rw [houter, hinner, Block.attributesAll_append, Block.attributesAll_append, hattributes]
  rw [Block.attributesAll_append, Block.attributesAll_append]

theorem acceptable (h : Exchanges outer inner declaration other)
    (hattributes : Block.attributesAll inner = Block.attributesAll outer)
    (hsound : Block.SoundAll outer → Block.SoundAll inner) (hdeclaration : declaration.Acceptable) :
    other.Acceptable := by
  rcases h.exists_blocks with ⟨before, after, houter, hinner⟩
  have hsame := h.attributes hattributes
  have hblocks : Block.SoundAll other.blocks := by
    have hblocks := hdeclaration.soundAll
    rw [houter, Block.soundAll_append, Block.soundAll_append] at hblocks
    rw [hinner, Block.soundAll_append, Block.soundAll_append]
    exact ⟨⟨hblocks.1.1, hsound hblocks.1.2⟩, hblocks.2⟩
  rw [Block.soundAll_iff] at hblocks
  constructor
  case distinct =>
    rw [hsame]
    exact hdeclaration.distinct
  case ranges =>
    rw [hsame]
    exact hdeclaration.ranges
  case bounds =>
    intro min max children hmem
    exact (hblocks.2 _ children hmem).1
  case nesting =>
    intro kind children hmem
    exact (hblocks.2 kind children hmem).2
  case noRoot =>
    intro hmem
    cases h with
    | mk =>
      apply hdeclaration.noRoot
      simpa using hmem
  case complete =>
    rw [h.rules]
    exact hdeclaration.complete
  case delegates =>
    rw [h.rules, hsame]
    exact hdeclaration.delegates
  case targets =>
    rw [h.rules, hsame]
    exact hdeclaration.targets

theorem exists_build (h : Exchanges outer inner declaration other)
    (hattributes : Block.attributesAll inner = Block.attributesAll outer)
    (hsound : Block.SoundAll outer → Block.SoundAll inner)
    (hbuild : declaration.build.value = .ok model) :
    ∃ flat, other.build.value = .ok flat ∧ ∀ inst anchor, ∃ first last,
      (model.validate inst anchor).value
          = first ++ Content.rootFailures inst anchor (Block.contentAll outer) ++ last
        ∧ (flat.validate inst anchor).value
          = first ++ Content.rootFailures inst anchor (Block.contentAll inner) ++ last := by
  have hacceptable := h.acceptable hattributes hsound (acceptable_of_build hbuild)
  rcases (exists_build_eq_ok_iff other).mpr hacceptable with ⟨flat, hflat⟩
  rcases h.exists_blocks with ⟨before, after, houter, hinner⟩
  refine ⟨flat, hflat, ?_⟩
  intro inst anchor
  let first := declaration.attributes.filterMap (·.countFailure? inst)
    ++ Content.rootFailures inst anchor (Block.contentAll before)
  refine ⟨first, Content.rootFailures inst anchor (Block.contentAll after), ?_, ?_⟩
  . rw [value_validate_of_build hbuild, houter, Block.contentAll_append, Block.contentAll_append]
    rw [Content.rootFailures_append, Content.rootFailures_append]
    rw [← List.append_assoc, ← List.append_assoc]
  . rw [value_validate_of_build hflat, hinner, Block.contentAll_append, Block.contentAll_append]
    rw [Content.rootFailures_append, Content.rootFailures_append, h.attributes hattributes]
    rw [← List.append_assoc, ← List.append_assoc]

end Exchanges

theorem Flattens.exists_build (h : declaration.Flattens other)
    (hbuild : declaration.build.value = .ok model) :
    ∃ flat, other.build.value = .ok flat ∧
      ∀ inst anchor, (flat.validate inst anchor).value = (model.validate inst anchor).value := by
  rcases h with ⟨outer, inner, hflattens, hexchanges⟩
  have hattributes : Block.attributesAll [inner] = Block.attributesAll [outer] := by
    rw [Block.attributesAll, hflattens.attributes]
    rfl
  have hsound (hsound : Block.SoundAll [outer]) : Block.SoundAll [inner] :=
    ⟨hflattens.sound hsound.1, trivial⟩
  rcases hexchanges.exists_build hattributes hsound hbuild with ⟨flat, hflat, hvalues⟩
  refine ⟨flat, hflat, ?_⟩
  intro inst anchor
  rcases hvalues inst anchor with ⟨first, last, hvalue, hflatValue⟩
  have hroots := (hflattens.interchangeable inst anchor).rootFailures
  rw [hvalue, hflatValue]
  rw [Block.contentAll, Block.contentAll, Block.contentAll, Block.contentAll, hroots]

theorem Ungroups.exists_build (h : declaration.Ungroups other)
    (hbuild : declaration.build.value = .ok model) :
    ∃ flat, other.build.value = .ok flat ∧
      ∀ inst anchor,
        (flat.validate inst anchor).value.Perm (model.validate inst anchor).value := by
  rcases h with ⟨inner, hexchanges⟩
  have hattributes : Block.attributesAll inner = Block.attributesAll [.particle .group inner] := by
    rw [Block.attributesAll, Block.attributesAll, Block.attributes, List.append_nil]
  have hsound (hsound : Block.SoundAll [.particle .group inner]) : Block.SoundAll inner :=
    hsound.1.2.2
  have hnested : ParticleKind.group.Holds ((Block.contentAll inner).map Content.kind?) := by
    have hblocks := (acceptable_of_build hbuild).soundAll
    rcases hexchanges.exists_blocks with ⟨before, after, houter, _⟩
    rw [houter, Block.soundAll_append, Block.soundAll_append] at hblocks
    rw [Block.map_kind?_contentAll]
    exact hblocks.1.2.1.2.1
  rcases hexchanges.exists_build hattributes hsound hbuild with ⟨flat, hflat, hvalues⟩
  refine ⟨flat, hflat, ?_⟩
  intro inst anchor
  rcases hvalues inst anchor with ⟨first, last, hvalue, hflatValue⟩
  rw [hvalue, hflatValue]
  apply List.Perm.append_right
  apply List.Perm.append_left
  exact Content.perm_rootFailures_of_group hnested

/--
A sequence or group inside a sequence says nothing on its own, wherever the sequence stands, and a
group at the top level changes no more than the order of the failures.
-/
theorem validate_of_flattened (h : declaration.build.value = .ok model) :
    (∀ other, declaration.Flattens other →
        ∃ flat, other.build.value = .ok flat
          ∧ ∀ inst anchor, (flat.validate inst anchor).value = (model.validate inst anchor).value)
      ∧ ∀ other, declaration.Ungroups other →
        ∃ flat, other.build.value = .ok flat
          ∧ ∀ inst anchor,
            (flat.validate inst anchor).value.Perm (model.validate inst anchor).value := by
  constructor
  . intro other hflattens
    exact hflattens.exists_build h
  . intro other hungroups
    exact hungroups.exists_build h

end Declaration

def Block.carriage : List Block := [
  .particle (.choice none) [
    .leaf ⟨"road", .string, .one⟩,
    .leaf ⟨"rail", .string, .one⟩],
  .particle .sequence [.leaf ⟨"via", .string, .collection ⟨0, none⟩⟩]]

def Block.journey (carriage : List Block) : Block :=
  .particle .sequence
    ([.leaf ⟨"from", .string, .one⟩] ++ carriage ++ [.leaf ⟨"to", .string, .one⟩])

def Block.payment : Block :=
  .particle (.choice none) [.leaf ⟨"cash", .string, .one⟩, .leaf ⟨"card", .string, .one⟩]

def Declaration.freight (blocks : List Block) : Declaration where
  name := "Freight"
  kind := .model
  items := [.block (.leaf ⟨"label", .string, .optional⟩)] ++ blocks.map .block
    ++ [.rootName "freight"]

theorem freight_flattened :
    let nested := Block.journey [.particle .group Block.carriage]
    let freight := Declaration.freight [.particle .group [nested, Block.payment]]
    let flat := Declaration.freight [.particle .group [Block.journey Block.carriage, Block.payment]]
    let ungrouped := Declaration.freight [nested, Block.payment]
    let inst := (freight.model.newInstance).set "road" (toValue "R1") |>.set "rail" (toValue "R2")
    let ordered := { inst with order := some ⟨["from", "to", "road"], false⟩ }
    let failures := [.invalidChoice ["road", "rail"], .invalidChoice [],
      .incorrectSequence "road" (some "to")]
    (∃ model, flat.build.value = .ok model ∧ (model.validate ordered .strict).value = failures)
      ∧ ∃ model, ungrouped.build.value = .ok model
        ∧ (model.validate ordered .strict).value.Perm failures := by
  intro nested freight flat ungrouped inst ordered failures
  have hbuild : freight.build.value = .ok freight.model := rfl
  have hfailures : (freight.model.validate ordered .strict).value = failures := by decide
  have hjourney : nested.Flattens (Block.journey Block.carriage) :=
    @Block.Flattens.splice .group [.leaf ⟨"from", .string, .one⟩] Block.carriage
      [.leaf ⟨"to", .string, .one⟩] (.inr rfl)
  have hgroup : Block.Flattens (.particle .group [nested, Block.payment])
      (.particle .group [Block.journey Block.carriage, Block.payment]) :=
    @Block.Flattens.child .group [] [Block.payment] _ _ hjourney
  have hflattens : freight.Flattens flat := ⟨_, _, hgroup, .mk⟩
  have hungroups : freight.Ungroups ungrouped := ⟨_, .mk⟩
  rcases Declaration.validate_of_flattened hbuild with ⟨hflat, hungrouped⟩
  constructor
  . rcases hflat flat hflattens with ⟨model, hmodel, hsame⟩
    exact ⟨model, hmodel, (hsame ordered .strict).trans hfailures⟩
  . rcases hungrouped ungrouped hungroups with ⟨model, hmodel, hperm⟩
    exact ⟨model, hmodel, hfailures ▸ hperm ordered .strict⟩

end ContentModel
