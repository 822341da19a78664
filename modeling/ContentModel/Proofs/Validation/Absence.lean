import ContentModel.Proofs.Validation.Validity

/-!
This module contains what a branch of a choice does that was not taken: nothing below it is present,
and the element order holds no leaf below it. Such a branch adds nothing and reports nothing. Its
sequences keep their order as well, unless the anchor is strict and they wait for a leaf.
-/

namespace ContentModel

namespace Content

/--
The instance holds nothing from the tree, neither as a field nor in its element order.
-/
structure Absent (inst : Instance) (content : Content) : Prop where
  fields : ∀ a ∈ content.leaves, ¬ a.isPresent inst
  elements : ∀ order, inst.order = some order → ∀ a ∈ content.leaves, a.name ∉ order.elements

/--
A sequence of the tree that is held to its order has a leaf in place that may not be left out.
-/
def Awaits (inst : Instance) (content : Content) : Prop :=
  ∃ children ∈ content.sequences, ∃ a ∈ placedAll inst children, a.occurs.min ≠ 0

end Content

open OrderCheck in
theorem failure?_checkOrder_eq_none_iff {anchor : Anchor} {order : Option ElementOrder}
    {declared : List Attribute}
    (h : ∀ recorded, order = some recorded → ∀ a ∈ declared, a.name ∉ recorded.elements) :
    (checkOrder anchor order declared).failure? = none
      ↔ ¬ (anchor = .strict ∧ order.isSome ∧ ∃ a ∈ declared, a.occurs.min ≠ 0) := by
  unfold checkOrder
  cases order with
  | none => simp [OrderVerdict.failure?]
  | some recorded =>
    have hactual : actual declared recorded = [] := by
      rw [List.eq_nil_iff_forall_not_mem]
      intro name hname
      rw [mem_actual, List.mem_map] at hname
      rcases hname with ⟨helements, a, ha, heq⟩
      rw [← heq] at helements
      apply h recorded rfl a ha helements
    have hexpected : expected declared [] = declared.filter (!·.isOptional) := by
      simp [expected]
    dsimp only
    rw [hactual, hexpected]
    cases hfilter : declared.filter (!·.isOptional) with
    | nil =>
      rw [List.filter_eq_nil_iff] at hfilter
      have hoptional : ¬ ∃ a ∈ declared, a.occurs.min ≠ 0 := by
        rintro ⟨a, ha, hmin⟩
        apply hmin
        rw [← Attribute.isOptional_iff]
        simpa using hfilter a ha
      simp only [hoptional, and_false, not_false_eq_true, iff_true]
      rfl
    | cons first rest =>
      have hfirst : first ∈ declared.filter (!·.isOptional) := by
        rw [hfilter]
        apply List.mem_cons_self
      rw [List.mem_filter, Bool.not_eq_true', ← Bool.not_eq_true] at hfirst
      rw [Attribute.isOptional_iff] at hfirst
      have hneeded : ∃ a ∈ declared, a.occurs.min ≠ 0 := ⟨first, hfirst⟩
      cases anchor with
      | lenient => simp [OrderVerdict.failure?]
      | strict => simp [OrderVerdict.failure?, hneeded]

namespace Content

variable {inst : Instance} {anchor : Anchor}

theorem presentAll_eq_nil_of_absent {contents : List Content}
    (h : ∀ a ∈ leavesAll contents, ¬ a.isPresent inst) : presentAll inst contents = [] := by
  unfold presentAll
  rw [List.filter_eq_nil_iff]
  exact h

mutual

theorem report_eq_nil_of_absent (content : Content) (hnested : content.WellNested)
    (hkind : content.kind? ≠ some .all) (h : ∀ a ∈ content.leaves, ¬ a.isPresent inst) :
    content.report inst anchor true = [] := by
  cases content with
  | leaf a => rfl
  | particle kind children =>
    rw [WellNested] at hnested
    have hany : (leavesAll children).any (·.isPresent inst) = false := by
      rw [List.any_eq_false]
      exact h
    cases kind with
    | sequence =>
      rw [report_sequence, hany]
      apply reportAll_eq_nil_of_absent children hnested.2 hnested.1 h
    | choice range =>
      have hcount := (matchCount_eq_zero_iff children).mpr (presentAll_eq_nil_of_absent h)
      rw [report, reportAll_eq_nil_of_absent children hnested.2 hnested.1 h]
      simp [choiceFailure?, Branches.failure?, hcount]
    | group =>
      rw [report_group, hany]
      apply reportAll_eq_nil_of_absent children hnested.2 hnested.1.2.2.1 h
    | all => exact absurd rfl hkind

theorem reportAll_eq_nil_of_absent (contents : List Content) (hnested : WellNestedAll contents)
    (hkinds : some .all ∉ contents.map kind?) (h : ∀ a ∈ leavesAll contents, ¬ a.isPresent inst) :
    reportAll inst anchor true contents = [] := by
  cases contents with
  | nil => rfl
  | cons content rest =>
    rw [List.map_cons, List.mem_cons, not_or] at hkinds
    rw [leavesAll_cons, List.forall_mem_append] at h
    rw [reportAll, report_eq_nil_of_absent content hnested.1 (Ne.symm hkinds.1) h.1]
    rw [reportAll_eq_nil_of_absent rest hnested.2 hkinds.2 h.2]
    rfl

end

theorem orderFailures_eq_nil_iff_of_absent {content : Content} (h : content.Absent inst) :
    content.orderFailures inst anchor = []
      ↔ ¬ (anchor = .strict ∧ inst.order.isSome ∧ content.Awaits inst) := by
  have hkeeps (children : List Content) (hmem : children ∈ content.sequences) :
      KeepsOrder inst anchor children
        ↔ ¬ (anchor = .strict ∧ inst.order.isSome
          ∧ ∃ a ∈ placedAll inst children, a.occurs.min ≠ 0) := by
    apply failure?_checkOrder_eq_none_iff
    intro order horder a ha
    apply h.elements order horder a
    apply (leavesAll_sublist_of_mem_sequences hmem).subset
    apply (placedAll_sublist children).subset ha
  calc
    _ ↔ ∀ children ∈ content.sequences, KeepsOrder inst anchor children :=
      orderFailures_eq_nil_iff content
    _ ↔ ∀ children ∈ content.sequences, ¬ (anchor = .strict ∧ inst.order.isSome
          ∧ ∃ a ∈ placedAll inst children, a.occurs.min ≠ 0) := forall₂_congr hkeeps
    _ ↔ _ := by
      unfold Awaits
      grind

theorem presentAll_append_cons {before after : List Content} {branch : Content}
    (hpresent : ∀ a ∈ branch.leaves, ¬ a.isPresent inst) :
    presentAll inst (before ++ branch :: after) = presentAll inst (before ++ after) := by
  have hnone : branch.leaves.filter (·.isPresent inst) = [] := by
    rw [List.filter_eq_nil_iff]
    exact hpresent
  rw [presentAll_append, presentAll_cons, hnone, List.nil_append, ← presentAll_append]

theorem choiceFailure?_append_cons {before after : List Content} {branch : Content}
    (hpresent : ∀ a ∈ branch.leaves, ¬ a.isPresent inst)
    (hkept : branch.orderFailures inst anchor = []) (range : ChoiceRange) (inChoice : Bool) :
    choiceFailure? inst anchor range inChoice (before ++ branch :: after)
      = choiceFailure? inst anchor range inChoice (before ++ after) := by
  have hmatches : branch.matchesOf inst = 0 := by
    rw [matchesOf_eq_zero_iff, List.filter_eq_nil_iff]
    exact hpresent
  unfold choiceFailure?
  rw [presentAll_append_cons hpresent]
  rw [matchCount_append, matchCount, hmatches, Nat.zero_add, ← matchCount_append]
  rw [List.any_append, List.any_cons, hkept, List.any_append]
  rfl

theorem report_append_cons {before after : List Content} {branch : Content}
    (hnested : branch.WellNested) (hkind : branch.kind? ≠ some .all)
    (hpresent : ∀ a ∈ branch.leaves, ¬ a.isPresent inst)
    (hkept : branch.orderFailures inst anchor = []) (range : ChoiceRange) (inChoice : Bool) :
    report inst anchor inChoice (.particle (.choice range) (before ++ branch :: after))
      = report inst anchor inChoice (.particle (.choice range) (before ++ after)) := by
  rw [report, report, choiceFailure?_append_cons hpresent hkept]
  rw [reportAll_append, reportAll, report_eq_nil_of_absent branch hnested hkind hpresent]
  rw [List.nil_append, ← reportAll_append]

theorem WellNested.choice_of_subset {range : ChoiceRange} {xs ys : List Content}
    (h : (particle (.choice range) ys).WellNested) (hsubset : xs ⊆ ys) :
    (particle (.choice range) xs).WellNested := by
  rw [WellNested, wellNestedAll_iff] at h ⊢
  refine ⟨?_, ?_⟩
  . intro hmem
    apply h.1
    apply List.map_subset _ hsubset hmem
  . intro content hmem
    apply h.2 content (hsubset hmem)

theorem WellNested.of_choice {range : ChoiceRange} {branches : List Content} {branch : Content}
    (h : (particle (.choice range) branches).WellNested) (hmem : branch ∈ branches) :
    branch.WellNested ∧ branch.kind? ≠ some .all := by
  rw [WellNested, wellNestedAll_iff] at h
  refine ⟨h.2 branch hmem, ?_⟩
  intro hkind
  apply h.1
  rw [← hkind]
  apply List.mem_map_of_mem hmem

theorem Below.wellNested {around path : List Content} {content inner : Content}
    (h : Below around content path inner) (hnested : content.WellNested) : inner.WellNested := by
  induction h with
  | self => exact hnested
  | child hmem _ ih =>
    rw [WellNested, wellNestedAll_iff] at hnested
    apply ih (hnested.2 _ hmem)

end Content

/--
A branch of which an instance holds nothing adds nothing to its choice and reports nothing. Its
visit leaves no order failure over, unless the anchor is strict, there is an element order, and a
sequence of the branch awaits a leaf; apart from that case the choice does what it does without the
branch.
-/
theorem Declaration.visit_of_absent {declaration : Declaration} {model : Model}
    (h : declaration.build.value = .ok model) {around before after : List Content}
    {range : ChoiceRange} {branch : Content} {inst : Instance}
    (hstands : model.Stands around (.particle (.choice range) (before ++ branch :: after)))
    (habsent : branch.Absent inst) (anchor : Anchor) :
    let spoils := anchor = .strict ∧ inst.order.isSome ∧ branch.Awaits inst
    (∀ n,
        let v := branch.visit inst anchor false true n
        v.present = [] ∧ Event.failures v.events = [] ∧ (v.pending = [] ↔ ¬ spoils))
      ∧ (¬ spoils → ∀ inSequence inChoice n m,
          let choice := Content.visit inst anchor inSequence inChoice n
            (.particle (.choice range) (before ++ branch :: after))
          let others := Content.visit inst anchor inSequence inChoice m
            (.particle (.choice range) (before ++ after))
          choice.present = others.present ∧ choice.placed = others.placed
            ∧ Event.failures choice.events = Event.failures others.events) := by
  intro spoils
  rcases hstands with ⟨root, hroot, hbelow⟩
  have hroots := wellNested_of_build h
  rw [Content.wellNestedAll_iff] at hroots
  have hchoice := hbelow.wellNested (hroots root hroot)
  have hothers : (Content.particle (.choice range) (before ++ after)).WellNested := by
    apply hchoice.choice_of_subset
    simp
  have hbranch : branch.WellNested ∧ branch.kind? ≠ some .all := by
    apply hchoice.of_choice
    simp
  have hpending : branch.orderFailures inst anchor = [] ↔ ¬ spoils := by
    apply Content.orderFailures_eq_nil_iff_of_absent habsent
  refine ⟨?_, ?_⟩
  . intro n v
    refine ⟨?_, ?_, ?_⟩
    . rw [Content.present_visit branch hbranch.1, List.filter_eq_nil_iff]
      apply habsent.fields
    . rw [Content.failures_events_visit branch hbranch.1]
      apply Content.report_eq_nil_of_absent branch hbranch.1 hbranch.2 habsent.fields
    . rw [Content.pending_visit branch hbranch.1, hpending]
  . intro hspoils inSequence inChoice n m choice others
    have hkept := hpending.mpr hspoils
    have hpresent :
        Content.presentAll inst (before ++ branch :: after)
          = Content.presentAll inst (before ++ after) := by
      apply Content.presentAll_append_cons habsent.fields
    refine ⟨?_, ?_, ?_⟩
    . rw [Content.present_visit _ hchoice, Content.present_visit _ hothers]
      apply hpresent
    . rw [Content.placed_visit _ hchoice, Content.placed_visit _ hothers]
      apply hpresent
    . rw [Content.failures_events_visit _ hchoice, Content.failures_events_visit _ hothers]
      apply Content.report_append_cons hbranch.1 hbranch.2 habsent.fields hkept

/--
The branch of a purchase that holds an item with its payment.
-/
def Content.bought : Content :=
  .particle .sequence [
    .leaf ⟨"item", .string, .one⟩,
    .particle (.choice (.between 1 2)) [
      .leaf ⟨"card", .string, .one⟩,
      .leaf ⟨"cash", .string, .one⟩]]

/--
The other branch of a purchase.
-/
def Content.voucher : Content :=
  .leaf ⟨"voucher", .string, .one⟩

theorem Content.absent_bought :
    let inst := (Declaration.purchase.model.newInstance).set "voucher" (toValue "V1")
    bought.Absent { inst with order := some ⟨["voucher"], false⟩ } := by
  intro inst
  constructor
  . decide
  . intro order horder
    cases horder
    decide

theorem absent_item :
    let inst := (Declaration.purchase.model.newInstance).set "voucher" (toValue "V1")
    let ordered := { inst with order := some ⟨["voucher"], false⟩ }
    let visited := fun anchor => Content.bought.visit ordered anchor false true 1
    let choice := fun branches =>
      Content.visit ordered .lenient false false 0 (.particle (.choice .exactlyOne) branches)
    (visited .strict).present = [] ∧ Event.failures (visited .strict).events = []
      ∧ (visited .lenient).pending = []
      ∧ Event.failures (choice [.bought, .voucher]).events
          = Event.failures (choice [.voucher]).events := by
  intro inst ordered visited choice
  have hbuild : Declaration.purchase.build.value = .ok Declaration.purchase.model := rfl
  have hstands : Declaration.purchase.model.Stands []
      (.particle (.choice .exactlyOne) ([] ++ .bought :: [.voucher])) :=
    ⟨_, List.mem_cons_of_mem _ List.mem_cons_self, .self⟩
  have hlenient := Declaration.visit_of_absent hbuild hstands Content.absent_bought .lenient
  have hstrict := Declaration.visit_of_absent hbuild hstands Content.absent_bought .strict
  have hkept :
      ¬ (Anchor.lenient = .strict ∧ ordered.order.isSome ∧ Content.bought.Awaits ordered) := by
    simp
  refine ⟨(hstrict.1 1).1, (hstrict.1 1).2.1, (hlenient.1 1).2.2.mpr hkept, ?_⟩
  apply (hlenient.2 hkept false false 0 0).2.2

/--
The strict anchor counts a sequence of an absent branch as failed, even where another branch is
taken.
-/
theorem absent_item_spoils_voucher :
    let inst := (Declaration.purchase.model.newInstance).set "voucher" (toValue "V1")
    let ordered := { inst with order := some ⟨["voucher"], false⟩ }
    Declaration.purchase.build.value = .ok Declaration.purchase.model
      ∧ Declaration.purchase.model.Stands []
          (.particle (.choice .exactlyOne) [.bought, .voucher])
      ∧ Content.bought.Absent ordered
      ∧ Content.matchCount ordered [.bought, .voucher] = 1
      ∧ (Content.bought.visit ordered .strict false true 1).pending
          = [.incorrectSequence "item" none]
      ∧ (Declaration.purchase.model.validate ordered .strict).value = [.invalidChoice ["voucher"]]
      ∧ Content.report ordered .strict false (.particle (.choice .exactlyOne) [.voucher]) = [] := by
  intro inst ordered
  refine ⟨rfl, ?_, Content.absent_bought, rfl, by decide, by decide, rfl⟩
  exact ⟨_, List.mem_cons_of_mem _ List.mem_cons_self, .self⟩

end ContentModel
