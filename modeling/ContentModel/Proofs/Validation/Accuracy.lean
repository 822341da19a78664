import ContentModel.Proofs.Validation.Validity

/-!
This module contains what a failure says about its instance, and the proof that all of it is true: the
leaves and counts that it names are those of the choice, sequence, all or collection it comes from.
-/

namespace ContentModel

/--
What the failure says about the instance holds.
-/
def Failure.Truthful (model : Model) (inst : Instance) (anchor : Anchor) : Failure → Prop
  | .invalidChoice matched =>
    ∃ around range branches, model.Stands around (.particle (.choice range) branches)
      ∧ matched = (Content.presentAll inst branches).map (·.name) ∧ matched.Nodup
      ∧ (range = .exactlyOne ∧ Content.matchCount inst branches ≠ 1
        ∨ (range.min ≤ Content.matchCount inst branches
            ∧ Content.matchCount inst branches ≤ range.max)
          ∧ ∃ branch ∈ branches, ∃ children ∈ branch.sequences,
              ¬ Content.KeepsOrder inst anchor children)
  | .outOfRangeChoice matched count min max =>
    ∃ around branches, model.Stands around (.particle (.choice (.between min max)) branches)
      ∧ matched = (Content.presentAll inst branches).map (·.name) ∧ matched.Nodup
      ∧ count = Content.matchCount inst branches ∧ (count < min ∨ max < count)
      ∧ count ≤ matched.length ∧ (count = 0 ↔ matched = [])
  | .incorrectSequence expected found =>
    ∃ around children, model.Stands around (.particle .sequence children)
      ∧ ¬ Content.KeepsOrder inst anchor children
      ∧ expected ∈ (Content.leavesAll children).map (·.name)
      ∧ ∀ name, found = some name →
          name ≠ expected ∧ name ∈ (Content.leavesAll children).map (·.name)
            ∧ ∃ order, inst.order = some order ∧ name ∈ order.elements
  | .incompleteAll missing =>
    ∃ around children, model.Stands around (.particle .all children)
      ∧ missing ≠ []
      ∧ missing = ((children.filterMap Content.leaf?).filter fun a =>
          !a.isPresent inst && !a.isOptional).map (·.name)
  | .collectionCountOutOfRange name count occurs =>
    ∃ a ∈ model.attributes, a.isCollection = true ∧ a.name = name ∧ a.occurs = occurs
      ∧ count = inst.occurrences name
      ∧ (count < occurs.min ∨ ∃ max, occurs.max = some max ∧ max < count)

namespace Content

variable {inst : Instance} {anchor : Anchor}

/--
The failure is the one of the choice or all itself.
-/
def Reports (inst : Instance) (anchor : Anchor) (failure : Failure) : Content → Prop
  | .particle (.choice range) branches =>
    ∃ inChoice, choiceFailure? inst anchor range inChoice branches = some failure
  | .particle .all children => allFailure? inst children = some failure
  | _ => False

mutual

theorem exists_of_mem_report (content : Content) {inChoice : Bool} {failure : Failure}
    (h : failure ∈ content.report inst anchor inChoice) (around : List Content) :
    ∃ path inner, Below around content path inner ∧ inner.Reports inst anchor failure := by
  cases content with
  | leaf a => cases h
  | particle kind children =>
    cases kind with
    | sequence =>
      rw [report_sequence] at h
      apply exists_of_mem_reportAll children h (List.Subset.refl _)
    | choice range =>
      rw [report, List.mem_append, Option.mem_toList] at h
      cases h with
      | inl h => apply exists_of_mem_reportAll children h (List.Subset.refl _)
      | inr h => exact ⟨_, _, .self, inChoice, h⟩
    | group =>
      rw [report_group] at h
      apply exists_of_mem_reportAll children h (List.Subset.refl _)
    | all =>
      rw [report, Option.mem_toList] at h
      exact ⟨_, _, .self, h⟩

theorem exists_of_mem_reportAll (contents : List Content) {inChoice : Bool} {failure : Failure}
    (h : failure ∈ reportAll inst anchor inChoice contents) {around children : List Content}
    {kind : ParticleKind} (hsubset : contents ⊆ children) :
    ∃ path inner, Below around (.particle kind children) path inner
      ∧ inner.Reports inst anchor failure := by
  cases contents with
  | nil => cases h
  | cons content rest =>
    rw [List.cons_subset] at hsubset
    rw [reportAll, List.mem_append] at h
    cases h with
    | inl h =>
      rcases exists_of_mem_report content h (.particle kind children :: around) with
        ⟨path, inner, hbelow, hreports⟩
      exact ⟨path, inner, .child hsubset.1 hbelow, hreports⟩
    | inr h => apply exists_of_mem_reportAll rest h hsubset.2

end

theorem Below.leaves_sublist {around path : List Content} {content inner : Content}
    (h : Below around content path inner) : inner.leaves.Sublist content.leaves := by
  induction h with
  | self => apply List.Sublist.refl
  | child hmem _ ih => apply List.Sublist.trans ih (leaves_sublist_leavesAll hmem)

theorem matchCount_le_length (branches : List Content) :
    matchCount inst branches ≤ (presentAll inst branches).length := by
  have hweight (branch : Content) (added : Nat) : Branches.weight branch added ≤ added := by
    unfold Branches.weight
    grind
  induction branches with
  | nil => apply Nat.le_refl
  | cons branch rest ih =>
    rw [matchCount, presentAll_cons, List.length_append, ← weight_eq_matchesOf]
    apply Nat.add_le_add (hweight _ _) ih

theorem exists_not_keepsOrder {branch : Content} (h : branch.orderFailures inst anchor ≠ []) :
    ∃ children ∈ branch.sequences, ¬ KeepsOrder inst anchor children := by
  rw [Ne, orderFailures_eq_nil_iff] at h
  simpa using h

end Content

namespace Model

variable {model : Model} {inst : Instance} {anchor : Anchor}

theorem Stands.nodup {around : List Content} {content : Content}
    (h : model.Stands around content) (hdistinct : (model.attributes.map (·.name)).Nodup) :
    (content.leaves.map (·.name)).Nodup := by
  rcases h with ⟨root, hroot, hbelow⟩
  apply List.Nodup.sublist _ hdistinct
  apply List.Sublist.map
  apply List.Sublist.trans hbelow.leaves_sublist (Content.leaves_sublist_leavesAll hroot)

theorem truthful_of_reports (hdistinct : (model.attributes.map (·.name)).Nodup)
    {around : List Content} {content : Content} {failure : Failure}
    (hstands : model.Stands around content) (h : content.Reports inst anchor failure) :
    failure.Truthful model inst anchor := by
  unfold Content.Reports at h
  split at h
  next range branches =>
    rcases h with ⟨inChoice, h⟩
    have hnodup : ((Content.presentAll inst branches).map (·.name)).Nodup := by
      apply List.Nodup.sublist _ (hstands.nodup hdistinct)
      apply List.Sublist.map
      apply List.filter_sublist
    rcases Content.choiceFailure?_eq_some h with ⟨heq, hreason⟩ | ⟨min, max, hrange, hcount, heq⟩
    . rw [heq]
      refine ⟨around, range, branches, hstands, rfl, hnodup, ?_⟩
      rcases hreason with hone | ⟨hcontains, branch, hmem, hbranch⟩
      . exact .inl hone
      . rw [ChoiceRange.contains_iff] at hcontains
        exact .inr ⟨hcontains, branch, hmem, Content.exists_not_keepsOrder hbranch⟩
    . rw [hrange] at hstands hcount
      rw [heq]
      refine ⟨around, branches, hstands, rfl, hnodup, rfl, ?_, ?_, ?_⟩
      . rw [← Bool.not_eq_true, ChoiceRange.contains_iff] at hcount
        simp only [ChoiceRange.min, ChoiceRange.max] at hcount
        omega
      . rw [List.length_map]
        apply Content.matchCount_le_length
      . rw [Content.matchCount_eq_zero_iff, List.map_eq_nil_iff]
  next children =>
    rcases Content.allFailure?_eq_some h with ⟨hmissing, heq⟩
    rw [heq]
    refine ⟨around, children, hstands, ?_, rfl⟩
    simpa using hmissing
  next => cases h

theorem stands_of_mem_sequences {root : Content} {children : List Content}
    (hroot : root ∈ model.content) (h : children ∈ root.sequences) :
    ∃ around, model.Stands around (.particle .sequence children) := by
  rcases Content.mem_sequences h with heq | ⟨contents, heq, hmem⟩
  . rw [heq] at hroot
    exact ⟨_, _, hroot, .self⟩
  . rw [heq] at hroot
    exact ⟨_, _, hroot, .child hmem .self⟩

theorem truthful_of_orderFailure? {around children : List Content} {failure : Failure}
    (hstands : model.Stands around (.particle .sequence children))
    (h : Content.orderFailure? inst anchor children = some failure) :
    failure.Truthful model inst anchor := by
  have hfails : ¬ Content.KeepsOrder inst anchor children := by
    unfold Content.KeepsOrder
    simp [h]
  have hplaced : (Content.placedAll inst children).Sublist (Content.leavesAll children) := by
    apply Content.placedAll_sublist
  have hsublist := hplaced.map (·.name)
  rcases Content.orderFailure?_eq_some h with ⟨expected, found, heq, hbroken⟩
  rcases checkOrder_eq_broken hbroken with ⟨order, horder, hexpected, hfound⟩
  rw [heq]
  refine ⟨around, children, hstands, hfails, hsublist.subset hexpected, ?_⟩
  intro name hname
  rcases hfound name hname with ⟨hne, hactual⟩
  rw [OrderCheck.mem_actual] at hactual
  exact ⟨hne, hsublist.subset hactual.2, order, horder, hactual.1⟩

theorem truthful_of_countFailure? {a : Attribute} {failure : Failure} (ha : a ∈ model.attributes)
    (h : a.countFailure? inst = some failure) : failure.Truthful model inst anchor := by
  rcases Attribute.countFailure?_eq_some h with ⟨hcollection, hcontains, heq⟩
  rw [heq]
  refine ⟨a, ha, hcollection, rfl, rfl, rfl, ?_⟩
  unfold Occurs.contains at hcontains
  cases hmax : a.occurs.max with
  | none =>
    left
    simpa [hmax] using hcontains
  | some max =>
    simp only [hmax, Option.all_some, Bool.and_eq_false_iff, decide_eq_false_iff_not,
      Nat.not_le] at hcontains
    simpa using hcontains

theorem truthful_validate (hnested : Content.WellNestedAll model.content)
    (hdistinct : (model.attributes.map (·.name)).Nodup) {failure : Failure}
    (h : failure ∈ (model.validate inst anchor).value) : failure.Truthful model inst anchor := by
  rw [value_validate hnested, List.mem_append, List.mem_filterMap, List.mem_flatMap] at h
  rcases h with ⟨a, ha, hcount⟩ | ⟨root, hroot, h⟩
  . apply truthful_of_countFailure? ha hcount
  . rw [List.mem_append] at h
    cases h with
    | inl h =>
      rcases Content.exists_of_mem_report root h [] with ⟨path, inner, hbelow, hreports⟩
      apply truthful_of_reports hdistinct ⟨root, hroot, hbelow⟩ hreports
    | inr h =>
      unfold Content.orderFailures at h
      rw [List.mem_filterMap] at h
      rcases h with ⟨children, hmem, horder⟩
      rcases stands_of_mem_sequences hroot hmem with ⟨around, hstands⟩
      apply truthful_of_orderFailure? hstands horder

end Model

/--
All that the failures of an instance say about it is true.
-/
theorem Declaration.truthful_of_mem_validate {declaration : Declaration} {model : Model}
    (h : declaration.build.value = .ok model) (inst : Instance) (anchor : Anchor) :
    ∀ failure ∈ (model.validate inst anchor).value, failure.Truthful model inst anchor := by
  intro failure hmem
  apply Model.truthful_validate (wellNested_of_build h) (distinct_of_build h) hmem

theorem truthful_purchase :
    let inst := ((Declaration.purchase.model.newInstance).set "item" (toValue "tea")).set "tags"
      (toValue ["a", "b", "c"])
    let ordered := { inst with order := some ⟨["cash"], false⟩ }
    let failures := (Declaration.purchase.model.validate ordered .strict).value
    let truthful := Failure.Truthful Declaration.purchase.model ordered .strict
    failures = [
        .collectionCountOutOfRange "tags" 3 ⟨0, some 2⟩,
        .outOfRangeChoice [] 0 1 2,
        .invalidChoice ["item"]]
      ∧ truthful (.outOfRangeChoice [] 0 1 2) ∧ truthful (.invalidChoice ["item"]) := by
  intro inst ordered failures truthful
  have hbuild : Declaration.purchase.build.value = .ok Declaration.purchase.model := rfl
  refine ⟨by decide, ?_, ?_⟩
  . apply Declaration.truthful_of_mem_validate hbuild ordered .strict
    decide
  . apply Declaration.truthful_of_mem_validate hbuild ordered .strict
    decide

end ContentModel
