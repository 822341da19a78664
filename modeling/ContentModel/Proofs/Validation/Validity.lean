import ContentModel.Proofs.Model
import ContentModel.Proofs.Validation.Report

/-!
This module contains validity, said of each particle where it stands in its model, and the proof that
an instance has no failure exactly when it is valid.
-/

namespace ContentModel

namespace Content

/--
`Below around content path inner`: the tree `inner` stands at or below `content`. The lists hold the
particles around each of the two, the nearest first.
-/
inductive Below : List Content → Content → List Content → Content → Prop where
  | self {around : List Content} {content : Content} : Below around content around content
  | child {around path : List Content} {kind : ParticleKind} {children : List Content}
      {child inner : Content} :
      child ∈ children → Below (.particle kind children :: around) child path inner →
        Below around (.particle kind children) path inner

/--
The choice with the given branches may match nothing: nothing is present below it, some choice stands
around it, and nothing is present below the particles up to the nearest such choice.
-/
def Exempt (inst : Instance) (around branches : List Content) : Prop :=
  presentAll inst branches = []
    ∧ (∃ outer ∈ around, outer.isChoice)
    ∧ ∀ outer ∈ around.takeWhile (!·.isChoice), ¬ outer.isTaken inst

/--
The sequence with the given children passes its order check.
-/
def KeepsOrder (inst : Instance) (anchor : Anchor) (children : List Content) : Prop :=
  orderFailure? inst anchor children = none

/--
What a tree asks of an instance where it stands, apart from what the trees below it ask.
-/
def Met (inst : Instance) (anchor : Anchor) (around : List Content) : Content → Prop
  | .particle .all children =>
    ∀ a, .leaf a ∈ children → a.occurs.min ≠ 0 → a.isPresent inst
  | .particle (.choice range) branches =>
    Exempt inst around branches
      ∨ (range.min ≤ matchCount inst branches ∧ matchCount inst branches ≤ range.max)
        ∧ ∀ branch ∈ branches, ∀ children ∈ branch.sequences, KeepsOrder inst anchor children
  | _ => True

def untaken (inst : Instance) (around : List Content) : Bool :=
  around.any (·.isChoice) && (around.takeWhile (!·.isChoice)).all fun outer => !outer.isTaken inst

variable {inst : Instance} {anchor : Anchor}

theorem forall_below_leaf_iff {around : List Content} {a : Attribute}
    {p : List Content → Content → Prop} :
    (∀ path inner, Below around (.leaf a) path inner → p path inner) ↔ p around (.leaf a) := by
  constructor
  . intro h
    exact h _ _ .self
  . intro h path inner hbelow
    cases hbelow
    exact h

theorem forall_below_particle_iff {around : List Content} {kind : ParticleKind}
    {children : List Content} {p : List Content → Content → Prop} :
    (∀ path inner, Below around (.particle kind children) path inner → p path inner)
      ↔ p around (.particle kind children)
        ∧ ∀ child ∈ children, ∀ path inner,
            Below (.particle kind children :: around) child path inner → p path inner := by
  constructor
  . intro h
    refine ⟨h _ _ .self, ?_⟩
    intro child hmem path inner hbelow
    exact h _ _ (.child hmem hbelow)
  . intro h path inner hbelow
    cases hbelow with
    | self => exact h.1
    | child hmem hbelow => exact h.2 _ hmem _ _ hbelow

theorem untaken_cons_choice (range : ChoiceRange) (branches around : List Content) :
    untaken inst (.particle (.choice range) branches :: around) = true := by
  simp [untaken, isChoice, ParticleKind.isChoice]

theorem untaken_cons {kind : ParticleKind} (h : kind.isChoice = false)
    (children around : List Content) :
    untaken inst (.particle kind children :: around)
      = (untaken inst around && !(leavesAll children).any (·.isPresent inst)) := by
  have hhead : (Content.particle kind children).isChoice = false := h
  unfold untaken
  rw [List.takeWhile_cons_of_pos (by rw [hhead]; rfl), List.any_cons, List.all_cons, hhead]
  rw [Bool.false_or, Bool.and_assoc, Bool.and_comm (List.all _ _)]
  rfl

theorem untaken_iff (around : List Content) :
    untaken inst around = true
      ↔ (∃ outer ∈ around, outer.isChoice)
        ∧ ∀ outer ∈ around.takeWhile (!·.isChoice), ¬ outer.isTaken inst := by
  simp only [untaken, Bool.and_eq_true, List.any_eq_true, List.all_eq_true, Bool.not_eq_true',
    Bool.not_eq_true]

theorem matchesOf_eq_zero_iff (branch : Content) :
    branch.matchesOf inst = 0 ↔ branch.leaves.filter (·.isPresent inst) = [] := by
  rw [← weight_eq_matchesOf, ← List.length_eq_zero_iff]
  unfold Branches.weight
  split
  . rfl
  . split
    . rfl
    . split <;> simp_all

theorem matchCount_eq_zero_iff (branches : List Content) :
    matchCount inst branches = 0 ↔ presentAll inst branches = [] := by
  induction branches with
  | nil => simp [matchCount, presentAll]
  | cons branch rest ih =>
    rw [presentAll_cons, List.append_eq_nil_iff, ← ih, ← matchesOf_eq_zero_iff]
    rw [matchCount]
    exact Nat.add_eq_zero_iff

theorem orderFailures_eq_nil_iff (content : Content) :
    content.orderFailures inst anchor = []
      ↔ ∀ children ∈ content.sequences, KeepsOrder inst anchor children :=
  List.filterMap_eq_nil_iff

theorem spoiled_eq_false_iff (branches : List Content) :
    (branches.any fun branch => !(branch.orderFailures inst anchor).isEmpty) = false
      ↔ ∀ branch ∈ branches, ∀ children ∈ branch.sequences, KeepsOrder inst anchor children := by
  simp only [← orderFailures_eq_nil_iff, List.any_eq_false, Bool.not_eq_true', Bool.not_eq_false,
    List.isEmpty_iff]

theorem choiceFailure?_eq_none_iff (range : ChoiceRange) (branches around : List Content) :
    choiceFailure? inst anchor range (untaken inst around) branches = none
      ↔ Met inst anchor around (.particle (.choice range) branches) := by
  have hexempt : (untaken inst around && matchCount inst branches == 0) = true
      ↔ Exempt inst around branches := by
    rw [Bool.and_eq_true, beq_iff_eq, matchCount_eq_zero_iff, untaken_iff, and_comm]
    rfl
  rw [Met, ← hexempt, ← ChoiceRange.contains_iff, ← spoiled_eq_false_iff]
  unfold choiceFailure? Branches.failure?
  dsimp only
  split
  next h => simp [h]
  next h =>
    rw [or_iff_right h]
    split
    next hcontains => split <;> simp_all
    next hcontains => cases range <;> simp [hcontains]

theorem mem_filterMap_leaf? {children : List Content} {a : Attribute} :
    a ∈ children.filterMap leaf? ↔ Content.leaf a ∈ children := by
  rw [List.mem_filterMap]
  constructor
  . rintro ⟨child, hchild, hleaf⟩
    cases child with
    | leaf b =>
      cases hleaf
      exact hchild
    | particle kind children => cases hleaf
  . intro hchild
    exact ⟨_, hchild, rfl⟩

theorem allFailure?_eq_none_iff (children : List Content) :
    allFailure? inst children = none
      ↔ ∀ a, .leaf a ∈ children → a.occurs.min ≠ 0 → a.isPresent inst := by
  have hneeded (a : Attribute) : (¬ (!a.isPresent inst && !a.isOptional) = true)
      ↔ (a.occurs.min ≠ 0 → a.isPresent inst) := by
    unfold Attribute.isOptional Occurs.isOptional
    grind
  have hmissing :
      ((children.filterMap leaf?).filter fun a => !a.isPresent inst && !a.isOptional).isEmpty
        ↔ ∀ a, .leaf a ∈ children → a.occurs.min ≠ 0 → a.isPresent inst := by
    rw [List.isEmpty_iff, List.filter_eq_nil_iff]
    simp only [mem_filterMap_leaf?, hneeded]
  rw [← hmissing]
  unfold allFailure?
  dsimp only
  split
  next h => exact iff_of_true rfl h
  next h => exact iff_of_false (Option.some_ne_none _) h

theorem forall_met_of_leaf {content : Content} (h : content.kind? = none) (around : List Content) :
    ∀ path inner, Below around content path inner → Met inst anchor path inner := by
  cases content with
  | leaf a => exact forall_below_leaf_iff.mpr trivial
  | particle kind children => cases h

mutual

theorem report_eq_nil_iff (content : Content) (h : content.WellNested) (around : List Content) :
    content.report inst anchor (untaken inst around) = []
      ↔ ∀ path inner, Below around content path inner → Met inst anchor path inner := by
  -- At every particle the flag that the walk hands down is `untaken` of the longer path.
  cases content with
  | leaf a =>
    rw [forall_below_leaf_iff]
    exact iff_of_true rfl trivial
  | particle kind children =>
    rw [forall_below_particle_iff]
    rw [WellNested] at h
    cases kind with
    | sequence =>
      have hchildren := reportAll_eq_nil_iff children h.2 (.particle .sequence children :: around)
      rw [untaken_cons rfl] at hchildren
      exact hchildren.trans (and_iff_right trivial).symm
    | group =>
      have hchildren := reportAll_eq_nil_iff children h.2 (.particle .group children :: around)
      rw [untaken_cons rfl] at hchildren
      exact hchildren.trans (and_iff_right trivial).symm
    | choice range =>
      rw [report, ← untaken_cons_choice range children around, List.append_eq_nil_iff]
      rw [reportAll_eq_nil_iff children h.2, Option.toList_eq_nil_iff]
      rw [choiceFailure?_eq_none_iff range children around, and_comm]
    | all =>
      rw [report, Option.toList_eq_nil_iff, allFailure?_eq_none_iff children]
      refine (and_iff_left ?_).symm
      intro child hmem
      exact forall_met_of_leaf (h.1 _ (List.mem_map_of_mem hmem)) _

theorem reportAll_eq_nil_iff (contents : List Content) (h : WellNestedAll contents)
    (around : List Content) :
    reportAll inst anchor (untaken inst around) contents = []
      ↔ ∀ content ∈ contents, ∀ path inner,
          Below around content path inner → Met inst anchor path inner := by
  cases contents with
  | nil => simp [reportAll]
  | cons content rest =>
    rw [reportAll, List.append_eq_nil_iff, List.forall_mem_cons]
    rw [report_eq_nil_iff content h.1, reportAll_eq_nil_iff rest h.2]

end

end Content

namespace Model

/--
The tree stands in the model, with the given particles around it, the nearest first.
-/
def Stands (model : Model) (around : List Content) (content : Content) : Prop :=
  ∃ root ∈ model.content, Content.Below [] root around content

/--
What an instance has to keep to have no failure.
-/
structure Valid (model : Model) (inst : Instance) (anchor : Anchor) : Prop where
  counts : ∀ a ∈ model.attributes, a.isCollection →
    a.occurs.min ≤ inst.occurrences a.name
      ∧ ∀ max, a.occurs.max = some max → inst.occurrences a.name ≤ max
  alls : ∀ around children, model.Stands around (.particle .all children) →
    ∀ a, .leaf a ∈ children → a.occurs.min ≠ 0 → a.isPresent inst
  choices : ∀ around range branches, model.Stands around (.particle (.choice range) branches) →
    Content.Exempt inst around branches
      ∨ (range.min ≤ Content.matchCount inst branches
          ∧ Content.matchCount inst branches ≤ range.max)
        ∧ ∀ branch ∈ branches, ∀ children ∈ branch.sequences,
            Content.KeepsOrder inst anchor children
  roots : ∀ root ∈ model.content, ∀ children ∈ root.sequences,
    Content.KeepsOrder inst anchor children

variable {model : Model} {inst : Instance} {anchor : Anchor}

theorem countFailure?_eq_none_iff (a : Attribute) :
    a.countFailure? inst = none
      ↔ (a.isCollection →
          a.occurs.min ≤ inst.occurrences a.name
            ∧ ∀ max, a.occurs.max = some max → inst.occurrences a.name ≤ max) := by
  unfold Attribute.countFailure? Occurs.contains
  cases a.isCollection <;> cases a.occurs.max <;> simp

theorem valid_iff_met :
    model.Valid inst anchor
      ↔ (∀ a ∈ model.attributes, a.countFailure? inst = none)
        ∧ ∀ root ∈ model.content,
            (∀ path inner, Content.Below [] root path inner → inner.Met inst anchor path)
              ∧ root.orderFailures inst anchor = [] := by
  constructor
  . intro h
    refine ⟨?_, ?_⟩
    . intro a ha
      exact (countFailure?_eq_none_iff a).mpr (h.counts a ha)
    . intro root hroot
      refine ⟨?_, (Content.orderFailures_eq_nil_iff root).mpr (h.roots root hroot)⟩
      intro path inner hbelow
      have hstands : model.Stands path inner := ⟨root, hroot, hbelow⟩
      unfold Content.Met
      split
      . exact h.alls _ _ hstands
      . exact h.choices _ _ _ hstands
      . trivial
  . rintro ⟨hcounts, hroots⟩
    constructor
    case counts =>
      intro a ha
      exact (countFailure?_eq_none_iff a).mp (hcounts a ha)
    case alls =>
      rintro around children ⟨root, hroot, hbelow⟩
      exact (hroots root hroot).1 around _ hbelow
    case choices =>
      rintro around range branches ⟨root, hroot, hbelow⟩
      exact (hroots root hroot).1 around _ hbelow
    case roots =>
      intro root hroot
      exact (Content.orderFailures_eq_nil_iff root).mp (hroots root hroot).2

end Model

/--
An instance has no failure exactly when it is valid.
-/
theorem Declaration.validate_eq_nil_iff {declaration : Declaration} {model : Model}
    (h : declaration.build.value = .ok model) (inst : Instance) (anchor : Anchor) :
    (model.validate inst anchor).value = [] ↔ model.Valid inst anchor := by
  have hnested := wellNested_of_build h
  rw [Model.value_validate hnested, Model.valid_iff_met]
  rw [List.append_eq_nil_iff, List.filterMap_eq_nil_iff, List.flatMap_eq_nil_iff]
  apply and_congr_right
  intro _
  apply forall₂_congr
  intro root hroot
  have hreport :
      root.report inst anchor false = []
        ↔ ∀ path inner, Content.Below [] root path inner → inner.Met inst anchor path :=
    Content.report_eq_nil_iff root (Content.wellNestedAll_iff.mp hnested root hroot) []
  rw [List.append_eq_nil_iff]
  exact and_congr_left' hreport

theorem valid_voucher :
    let inst := (Declaration.purchase.model.newInstance).set "voucher" (toValue "V1")
    let ordered := { inst with order := some ⟨["voucher"], false⟩ }
    Declaration.purchase.model.Valid ordered .lenient
      ∧ ¬ Declaration.purchase.model.Valid ordered .strict := by
  intro inst ordered
  have hbuild : Declaration.purchase.build.value = .ok Declaration.purchase.model := rfl
  rw [← Declaration.validate_eq_nil_iff hbuild, ← Declaration.validate_eq_nil_iff hbuild]
  decide

end ContentModel
