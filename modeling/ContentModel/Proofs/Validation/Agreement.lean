import Mathlib.Data.List.Nodup
import Mathlib.Logic.Relation
import ContentModel.Proofs.Model
import ContentModel.Proofs.Validation.Report

/-!
This module contains the comparison of validations of two instances that agree on what a model asks
of them: which attributes are present, how many items the collections hold, and in which order the
leaves of the sequences occur. Nothing else of an instance is looked at.
-/

namespace ContentModel

namespace Content

mutual

/--
The leaves at any depth below the sequences of a tree.
-/
def sequenced : Content → List Attribute
  | .leaf _ => []
  | .particle .sequence children => leavesAll children
  | .particle _ children => sequencedAll children
termination_by structural content => content

def sequencedAll : List Content → List Attribute
  | [] => []
  | content :: rest => content.sequenced ++ sequencedAll rest
termination_by structural contents => contents

end

end Content

namespace Model

/--
The name belongs to an attribute at some depth below a sequence.
-/
def orders (model : Model) (name : String) : Bool :=
  (Content.sequencedAll model.content).any (·.name == name)

/--
The instances agree on all that the model asks of them.
-/
structure Alike (model : Model) (inst inst' : Instance) : Prop where
  present : ∀ a ∈ model.attributes, a.isPresent inst = a.isPresent inst'
  counts : ∀ a ∈ model.attributes, a.isCollection →
    inst.occurrences a.name = inst'.occurrences a.name
  order : inst.order.map (·.elements.filter model.orders)
    = inst'.order.map (·.elements.filter model.orders)

/--
A change of an instance in something that the model does not ask about.
-/
inductive Edit (model : Model) : Instance → Instance → Prop where
  | rename {inst : Instance} (name : String) : Edit model inst { inst with model := name }
  | undeclared {inst : Instance} {name : String} (value : Value) :
      name ∉ model.attributes.map (·.name) → Edit model inst (inst.set name value)
  | content {inst : Instance} {a : Attribute} {value : Value} :
      a ∈ model.attributes → value.isPresent = a.isPresent inst →
        (a.isCollection → value.occurrences = inst.occurrences a.name) →
          Edit model inst (inst.set a.name value)
  | permute {inst : Instance} {fields : Entries Value} :
      inst.fields.Distinct → inst.fields.toList.Perm fields.toList →
        Edit model inst { inst with fields }
  | mix {inst : Instance} {order : ElementOrder} (mixed : Bool) :
      inst.order = some order → Edit model inst { inst with order := some { order with mixed } }
  | mark {inst : Instance} {before after : List String} {mixed : Bool} {marker : String} :
      inst.order = some ⟨before ++ after, mixed⟩ →
        marker = ElementOrder.textMarker ∨ marker = ElementOrder.cdataMarker →
          Edit model inst { inst with order := some ⟨before ++ marker :: after, mixed⟩ }
  | interleave {inst : Instance} {before after : List String} {mixed : Bool} {name : String} :
      inst.order = some ⟨before ++ after, mixed⟩ → model.orders name = false →
        Edit model inst { inst with order := some ⟨before ++ name :: after, mixed⟩ }

end Model

namespace OrderCheck

theorem actual_eq_filter {declared : List Attribute} {p : String → Bool}
    (h : ∀ a ∈ declared, p a.name = true) (order : ElementOrder) :
    actual declared order
      = (order.elements.filter p).filter fun name => declared.any (·.name == name) := by
  unfold actual
  rw [List.filter_filter]
  apply List.filter_congr
  intro name _
  cases hany : declared.any (·.name == name) with
  | false => simp
  | true =>
    rw [List.any_eq_true] at hany
    rcases hany with ⟨a, hmem, hname⟩
    rw [beq_iff_eq] at hname
    simp [← hname, h a hmem]

end OrderCheck

open OrderCheck in
theorem checkOrder_congr {anchor : Anchor} {order order' : Option ElementOrder}
    {declared : List Attribute} (h : order.map (actual declared) = order'.map (actual declared)) :
    checkOrder anchor order declared = checkOrder anchor order' declared := by
  unfold checkOrder
  cases order with
  | none =>
    cases order' with
    | none => rfl
    | some o' => cases h
  | some o =>
    cases order' with
    | none => cases h
    | some o' =>
      dsimp only
      rw [Option.some.inj h]

namespace Content

mutual

theorem sequenced_sublist (content : Content) : content.sequenced.Sublist content.leaves := by
  cases content with
  | leaf a => apply List.nil_sublist
  | particle kind children =>
    cases kind with
    | sequence => apply List.Sublist.refl
    | choice range => apply sequencedAll_sublist children
    | group => apply sequencedAll_sublist children
    | all => apply sequencedAll_sublist children

theorem sequencedAll_sublist (contents : List Content) :
    (sequencedAll contents).Sublist (leavesAll contents) := by
  cases contents with
  | nil => apply List.nil_sublist
  | cons content rest =>
    apply List.Sublist.append
    . apply sequenced_sublist
    . apply sequencedAll_sublist

end

theorem sequenced_subset_sequencedAll {contents : List Content} {content : Content}
    (h : content ∈ contents) : content.sequenced ⊆ sequencedAll contents := by
  induction contents with
  | nil => cases h
  | cons head rest ih =>
    rw [sequencedAll]
    rw [List.mem_cons] at h
    cases h with
    | inl h =>
      rw [h]
      apply List.subset_append_left
    | inr h =>
      apply List.subset_append_of_subset_right
      apply ih h

theorem leavesAll_subset_of_mem_sequences {content : Content} {children : List Content}
    (h : children ∈ content.sequences) : leavesAll children ⊆ content.sequenced := by
  rcases mem_sequences h with heq | ⟨contents, heq, hmem⟩
  . rw [heq]
    apply List.Subset.refl
  . rw [heq]
    apply sequenced_subset_sequencedAll hmem

/--
The instances hold the same of the given attributes.
-/
def SamePresence (inst inst' : Instance) (attributes : List Attribute) : Prop :=
  ∀ a ∈ attributes, a.isPresent inst = a.isPresent inst'

/--
Order checks come out the same for the instances where they compare the given attributes only.
-/
def SameOrder (anchor : Anchor) (inst inst' : Instance) (attributes : List Attribute) : Prop :=
  ∀ declared, declared ⊆ attributes →
    checkOrder anchor inst.order declared = checkOrder anchor inst'.order declared

variable {inst inst' : Instance} {anchor : Anchor}

theorem SamePresence.mono {xs ys : List Attribute} (h : SamePresence inst inst' ys)
    (hsubset : xs ⊆ ys) : SamePresence inst inst' xs := by
  intro a ha
  apply h
  apply hsubset ha

theorem SameOrder.mono {xs ys : List Attribute} (h : SameOrder anchor inst inst' ys)
    (hsubset : xs ⊆ ys) : SameOrder anchor inst inst' xs := by
  intro declared hdeclared
  apply h
  apply List.Subset.trans hdeclared hsubset

theorem SamePresence.any_eq {attributes : List Attribute}
    (h : SamePresence inst inst' attributes) :
    attributes.any (·.isPresent inst) = attributes.any (·.isPresent inst') := by
  rw [Bool.eq_iff_iff, List.any_eq_true, List.any_eq_true]
  apply exists_congr
  intro a
  apply and_congr_right
  intro hmem
  rw [h a hmem]

theorem presentAll_congr {contents : List Content}
    (h : SamePresence inst inst' (leavesAll contents)) :
    presentAll inst contents = presentAll inst' contents := by
  apply List.filter_congr h

mutual

theorem placed_congr (content : Content) (h : SamePresence inst inst' content.leaves) :
    content.placed inst = content.placed inst' := by
  cases content with
  | leaf a => rfl
  | particle kind children =>
    cases kind with
    | sequence => apply placedAll_congr children h
    | choice range => apply presentAll_congr h
    | group => apply placedAll_congr children h
    | all => rfl

theorem placedAll_congr (contents : List Content)
    (h : SamePresence inst inst' (leavesAll contents)) :
    placedAll inst contents = placedAll inst' contents := by
  cases contents with
  | nil => rfl
  | cons content rest =>
    have hcontent := placed_congr content (h.mono (List.subset_append_left _ _))
    have hrest := placedAll_congr rest (h.mono (List.subset_append_right _ _))
    rw [placedAll, placedAll, hcontent, hrest]

end

theorem matchesOf_congr (branch : Content) (h : SamePresence inst inst' branch.leaves) :
    branch.matchesOf inst = branch.matchesOf inst' := by
  rw [← weight_eq_matchesOf, ← weight_eq_matchesOf, List.filter_congr h]

theorem matchCount_congr (branches : List Content)
    (h : SamePresence inst inst' (leavesAll branches)) :
    matchCount inst branches = matchCount inst' branches := by
  induction branches with
  | nil => rfl
  | cons branch rest ih =>
    have hbranch := matchesOf_congr branch (h.mono (List.subset_append_left _ _))
    have hrest := ih (h.mono (List.subset_append_right _ _))
    rw [matchCount, matchCount, hbranch, hrest]

theorem orderFailures_congr {content : Content} (hpresent : SamePresence inst inst' content.leaves)
    (horder : SameOrder anchor inst inst' content.sequenced) :
    content.orderFailures inst anchor = content.orderFailures inst' anchor := by
  apply List.filterMap_congr
  intro children hmem
  have hleaves := leavesAll_subset_of_mem_sequences hmem
  have hplaced : placedAll inst children = placedAll inst' children := by
    apply placedAll_congr
    apply hpresent.mono
    apply List.Subset.trans hleaves (sequenced_sublist content).subset
  unfold orderFailure?
  rw [hplaced, horder]
  apply List.Subset.trans (placedAll_sublist children).subset hleaves

theorem choiceFailure?_congr (range : ChoiceRange) (inChoice : Bool) {branches : List Content}
    (hpresent : SamePresence inst inst' (leavesAll branches))
    (horder : SameOrder anchor inst inst' (sequencedAll branches)) :
    choiceFailure? inst anchor range inChoice branches
      = choiceFailure? inst' anchor range inChoice branches := by
  have hspoiled : (branches.any fun branch => !(branch.orderFailures inst anchor).isEmpty)
      = branches.any fun branch => !(branch.orderFailures inst' anchor).isEmpty := by
    rw [Bool.eq_iff_iff, List.any_eq_true, List.any_eq_true]
    apply exists_congr
    intro branch
    apply and_congr_right
    intro hmem
    rw [orderFailures_congr (hpresent.mono (leaves_sublist_leavesAll hmem).subset)]
    apply horder.mono (sequenced_subset_sequencedAll hmem)
  unfold choiceFailure?
  rw [presentAll_congr hpresent, matchCount_congr branches hpresent, hspoiled]

theorem allFailure?_congr {children : List Content}
    (h : SamePresence inst inst' (leavesAll children)) :
    allFailure? inst children = allFailure? inst' children := by
  have hmissing :
      ((children.filterMap leaf?).filter fun a => !a.isPresent inst && !a.isOptional)
        = (children.filterMap leaf?).filter fun a => !a.isPresent inst' && !a.isOptional := by
    apply List.filter_congr
    intro a ha
    rw [List.mem_filterMap] at ha
    rcases ha with ⟨child, hmem, hleaf⟩
    cases child with
    | leaf b =>
      cases hleaf
      rw [h a]
      apply (leaves_sublist_leavesAll hmem).subset
      simp [leaves]
    | particle kind children => cases hleaf
  unfold allFailure?
  rw [hmissing]

mutual

theorem report_congr (content : Content) (hpresent : SamePresence inst inst' content.leaves)
    (horder : SameOrder anchor inst inst' content.sequenced) (inChoice : Bool) :
    content.report inst anchor inChoice = content.report inst' anchor inChoice := by
  cases content with
  | leaf a => rfl
  | particle kind children =>
    rw [leaves] at hpresent
    cases kind with
    | sequence =>
      -- A sequence orders all leaves below it, those in the sequences below it among them.
      have hbelow := SameOrder.mono horder (sequencedAll_sublist children).subset
      rw [report_sequence, report_sequence, reportAll_congr children hpresent hbelow]
      rw [hpresent.any_eq]
    | choice range =>
      rw [report, report, reportAll_congr children hpresent horder]
      rw [choiceFailure?_congr range inChoice hpresent horder]
    | group =>
      rw [report_group, report_group, reportAll_congr children hpresent horder, hpresent.any_eq]
    | all => rw [report, report, allFailure?_congr hpresent]

theorem reportAll_congr (contents : List Content)
    (hpresent : SamePresence inst inst' (leavesAll contents))
    (horder : SameOrder anchor inst inst' (sequencedAll contents)) (inChoice : Bool) :
    reportAll inst anchor inChoice contents = reportAll inst' anchor inChoice contents := by
  cases contents with
  | nil => rfl
  | cons content rest =>
    have hcontent := report_congr content (hpresent.mono (List.subset_append_left _ _))
      (horder.mono (List.subset_append_left _ _)) inChoice
    have hrest := reportAll_congr rest (hpresent.mono (List.subset_append_right _ _))
      (horder.mono (List.subset_append_right _ _)) inChoice
    rw [reportAll, reportAll, hcontent, hrest]

end

end Content

namespace Model

variable {model : Model} {inst inst' : Instance}

theorem Alike.refl (inst : Instance) : model.Alike inst inst where
  present _ _ := rfl
  counts _ _ _ := rfl
  order := rfl

theorem Alike.symm (h : model.Alike inst inst') : model.Alike inst' inst where
  present a ha := (h.present a ha).symm
  counts a ha hcollection := (h.counts a ha hcollection).symm
  order := h.order.symm

theorem Alike.trans {inst'' : Instance} (h : model.Alike inst inst')
    (h' : model.Alike inst' inst'') : model.Alike inst inst'' where
  present a ha := (h.present a ha).trans (h'.present a ha)
  counts a ha hcollection := (h.counts a ha hcollection).trans (h'.counts a ha hcollection)
  order := h.order.trans h'.order

theorem alike_of_get?_eq (hfields : ∀ a ∈ model.attributes, inst'.get? a.name = inst.get? a.name)
    (horder : inst'.order = inst.order) : model.Alike inst inst' where
  present a ha := by
    unfold Attribute.isPresent Instance.isPresent
    rw [hfields a ha]
  counts a ha _ := by
    unfold Instance.occurrences
    rw [hfields a ha]
  order := by rw [horder]

theorem alike_of_order {before after : ElementOrder} (h : inst.order = some before)
    (hfilter : after.elements.filter model.orders = before.elements.filter model.orders) :
    model.Alike inst { inst with order := some after } where
  present _ _ := rfl
  counts _ _ _ := rfl
  order := by rw [h, Option.map_some, Option.map_some, hfilter]

theorem alike_of_set (hdistinct : (model.attributes.map (·.name)).Nodup) {a : Attribute}
    (ha : a ∈ model.attributes) {value : Value} (hpresent : value.isPresent = a.isPresent inst)
    (hcounts : a.isCollection → value.occurrences = inst.occurrences a.name) :
    model.Alike inst (inst.set a.name value) := by
  have hother (b : Attribute) (hb : b ∈ model.attributes) (hne : b ≠ a) :
      (inst.set a.name value).get? b.name = inst.get? b.name := by
    apply Instance.get?_set_of_ne
    intro heq
    apply hne
    apply List.inj_on_of_nodup_map hdistinct hb ha heq
  constructor
  case present =>
    intro b hb
    by_cases heq : b = a
    . rw [heq, ← hpresent]
      simp [Attribute.isPresent, Instance.isPresent]
    . simp [Attribute.isPresent, Instance.isPresent, hother b hb heq]
  case counts =>
    intro b hb hcollection
    by_cases heq : b = a
    . rw [heq] at hcollection ⊢
      rw [← hcounts hcollection]
      simp [Instance.occurrences]
    . simp [Instance.occurrences, hother b hb heq]
  case order => rfl

theorem alike_of_edit (hdistinct : (model.attributes.map (·.name)).Nodup)
    (h : model.Edit inst inst') : model.Alike inst inst' := by
  cases h with
  | rename name => apply alike_of_get?_eq <;> simp [Instance.get?]
  | undeclared value hname =>
    apply alike_of_get?_eq
    . intro a ha
      apply Instance.get?_set_of_ne
      intro heq
      apply hname
      rw [← heq]
      apply List.mem_map_of_mem ha
    . rfl
  | content ha hpresent hcounts => apply alike_of_set hdistinct ha hpresent hcounts
  | permute hfields hperm =>
    apply alike_of_get?_eq
    . intro a _
      apply Entries.get?_eq_of_perm hfields hperm
    . rfl
  | mix mixed horder =>
    apply alike_of_order horder
    rfl
  | mark horder hmarker =>
    apply alike_of_order horder
    cases hmarker with
    | inl h => simp [ElementOrder.elements, h]
    | inr h => simp [ElementOrder.elements, h]
  | interleave horder hname =>
    apply alike_of_order horder
    unfold ElementOrder.elements
    rw [List.filter_append, List.filter_append, List.filter_append, List.filter_append]
    rw [List.filter_cons]
    split
    . rw [List.filter_cons_of_neg (by simp [hname])]
    . rfl

theorem alike_of_edits (hdistinct : (model.attributes.map (·.name)).Nodup)
    (h : Relation.EqvGen model.Edit inst inst') : model.Alike inst inst' := by
  induction h with
  | rel inst inst' h => apply alike_of_edit hdistinct h
  | refl inst => apply Alike.refl
  | symm inst inst' _ ih => apply ih.symm
  | trans inst inst' inst'' _ _ ih ih' => apply ih.trans ih'

theorem Alike.same_order (h : model.Alike inst inst') (anchor : Anchor) :
    Content.SameOrder anchor inst inst' (Content.sequencedAll model.content) := by
  intro declared hsubset
  have horders (a : Attribute) (ha : a ∈ declared) : model.orders a.name = true := by
    unfold orders
    rw [List.any_eq_true]
    exact ⟨a, hsubset ha, beq_self_eq_true _⟩
  have hactual := funext (OrderCheck.actual_eq_filter horders)
  have horder := congrArg
    (Option.map fun names => names.filter fun name => declared.any (·.name == name)) h.order
  rw [Option.map_map, Option.map_map] at horder
  apply checkOrder_congr
  rw [hactual]
  exact horder

theorem countFailure?_congr {a : Attribute}
    (h : a.isCollection → inst.occurrences a.name = inst'.occurrences a.name) :
    a.countFailure? inst = a.countFailure? inst' := by
  unfold Attribute.countFailure?
  cases hcollection : a.isCollection with
  | false => simp
  | true => rw [h hcollection]

theorem validate_congr (hnested : Content.WellNestedAll model.content)
    (h : model.Alike inst inst') (anchor : Anchor) :
    (model.validate inst anchor).value = (model.validate inst' anchor).value := by
  have hpresent : Content.SamePresence inst inst' (Content.leavesAll model.content) := h.present
  have horder := h.same_order anchor
  rw [value_validate hnested, value_validate hnested]
  congr 1
  . apply List.filterMap_congr
    intro a ha
    apply countFailure?_congr (h.counts a ha)
  . apply List.flatMap_congr
    intro root hroot
    have hleaves := hpresent.mono (Content.leaves_sublist_leavesAll hroot).subset
    have hsequenced := horder.mono (Content.sequenced_subset_sequencedAll hroot)
    rw [Content.report_congr root hleaves hsequenced]
    rw [Content.orderFailures_congr hleaves hsequenced]

end Model

/--
Instances that agree on what the model asks of them have the same failures, and so have instances
that differ in any number of changes that the model does not ask about.
-/
theorem Declaration.validate_eq_of_alike {declaration : Declaration} {model : Model}
    (h : declaration.build.value = .ok model) (inst inst' : Instance) (anchor : Anchor) :
    (model.Alike inst inst' →
        (model.validate inst anchor).value = (model.validate inst' anchor).value)
      ∧ (Relation.EqvGen model.Edit inst inst' →
        (model.validate inst anchor).value = (model.validate inst' anchor).value) := by
  have hnested := wellNested_of_build h
  have hdistinct := distinct_of_build h
  refine ⟨?_, ?_⟩
  . intro halike
    apply Model.validate_congr hnested halike
  . intro hedits
    apply Model.validate_congr hnested (Model.alike_of_edits hdistinct hedits)

theorem alike_purchases :
    let tea := ((Declaration.purchase.model.newInstance).set "item" (toValue "tea")).set "card"
      (toValue "1")
    let coffee := (((Instance.new "Other").set "note" (toValue "n")).set "card"
      (toValue "2")).set "item" (toValue "coffee")
    let inst := { tea with order := some ⟨["card", "item"], false⟩ }
    let inst' := { coffee with order := some ⟨["text", "card", "note", "item", "voucher"], true⟩ }
    let failures := fun inst => (Declaration.purchase.model.validate inst .strict).value
    failures inst = failures inst' ∧ failures inst = [.invalidChoice ["item", "card"]]
      ∧ failures (inst.set "item" (toValue "milk")) = failures inst := by
  intro tea coffee inst inst' failures
  have hbuild : Declaration.purchase.build.value = .ok Declaration.purchase.model := rfl
  have halike : Declaration.purchase.model.Alike inst inst' := by
    constructor <;> decide
  have hedit : Declaration.purchase.model.Edit inst (inst.set "item" (toValue "milk")) := by
    apply Model.Edit.content (a := ⟨"item", .string, .one⟩) <;> decide
  refine ⟨(Declaration.validate_eq_of_alike hbuild inst inst' .strict).1 halike, by decide, ?_⟩
  apply (Declaration.validate_eq_of_alike hbuild _ _ .strict).2
  apply Relation.EqvGen.symm
  apply Relation.EqvGen.rel _ _ hedit

end ContentModel
