import ContentModel.Proofs.Validation.Validity

/-!
This module contains the law of a model that consists of one choice between attributes. The choice
asks for exactly one of them, and apart from that the item counts of all collections are checked, of
those that were not chosen as well.
-/

namespace ContentModel

namespace Content

variable {inst : Instance} {anchor : Anchor}

theorem leavesAll_map_leaf (attributes : List Attribute) :
    leavesAll (attributes.map .leaf) = attributes := by
  induction attributes with
  | nil => rfl
  | cons a rest ih =>
    rw [List.map_cons, leavesAll_cons, ih]
    rfl

theorem presentAll_map_leaf (attributes : List Attribute) :
    presentAll inst (attributes.map .leaf) = attributes.filter (·.isPresent inst) := by
  rw [presentAll, leavesAll_map_leaf]

theorem matchCount_map_leaf (attributes : List Attribute) :
    matchCount inst (attributes.map .leaf) = (attributes.filter (·.isPresent inst)).length := by
  induction attributes with
  | nil => rfl
  | cons a rest ih =>
    rw [List.map_cons, matchCount, matchesOf, ih, List.filter_cons]
    split
    . rw [List.length_cons, Nat.add_comm]
    . rw [Nat.zero_add]

theorem reportAll_map_leaf (inChoice : Bool) (attributes : List Attribute) :
    reportAll inst anchor inChoice (attributes.map .leaf) = [] := by
  induction attributes with
  | nil => rfl
  | cons a rest ih => exact ih

theorem choiceFailure?_map_leaf (attributes : List Attribute) :
    let present := attributes.filter (·.isPresent inst)
    choiceFailure? inst anchor .exactlyOne false (attributes.map .leaf)
      = if present.length = 1 then none else some (.invalidChoice (present.map (·.name))) := by
  intro present
  have hkept : ((attributes.map Content.leaf).any
      fun branch => !(branch.orderFailures inst anchor).isEmpty) = false := by
    rw [spoiled_eq_false_iff]
    intro branch hbranch children hchildren
    rcases List.mem_map.mp hbranch with ⟨a, _, heq⟩
    rw [← heq] at hchildren
    cases hchildren
  unfold choiceFailure? Branches.failure?
  rw [hkept, matchCount_map_leaf, presentAll_map_leaf]
  have hone : ChoiceRange.exactlyOne.contains present.length = true ↔ present.length = 1 := by
    rw [ChoiceRange.contains_iff]
    simp only [ChoiceRange.min, ChoiceRange.max]
    omega
  by_cases hlength : present.length = 1
  . rw [if_pos hlength]
    simp [present, hone.mpr hlength]
  . rw [if_neg hlength]
    simp [present, mt hone.mp hlength]

end Content

/--
The collections that an instance lacks though their range does not allow for it.
-/
def Attribute.lacking (inst : Instance) (attributes : List Attribute) : List Attribute :=
  attributes.filter fun a =>
    a.isCollection && !a.isPresent inst && !a.occurs.contains (inst.occurrences a.name)

theorem Attribute.filterMap_countFailure? {inst : Instance} {attributes : List Attribute}
    (h : ∀ a ∈ attributes, a.isCollection → a.isPresent inst →
      a.occurs.contains (inst.occurrences a.name)) :
    attributes.filterMap (·.countFailure? inst)
      = (lacking inst attributes).map fun a =>
          .collectionCountOutOfRange a.name (inst.occurrences a.name) a.occurs := by
  induction attributes with
  | nil => rfl
  | cons a rest ih =>
    rw [List.forall_mem_cons] at h
    have hlacking : (a.isCollection && !a.occurs.contains (inst.occurrences a.name))
        = (a.isCollection && !a.isPresent inst
            && !a.occurs.contains (inst.occurrences a.name)) := by
      cases hcollection : a.isCollection with
      | false => rfl
      | true =>
        cases hpresent : a.isPresent inst with
        | false => rfl
        | true => rw [h.1 hcollection hpresent]; rfl
    rw [filterMap_cons_eq_append, ih h.2]
    unfold lacking countFailure?
    dsimp only
    rw [List.filter_cons, hlacking]
    split <;> rfl

/--
A model that is one choice between attributes reports the collections that are out of range though
they were not chosen, and then the choice itself unless exactly one attribute is present.
-/
theorem Declaration.validate_alternatives {declaration : Declaration} {model : Model}
    (h : declaration.build.value = .ok model) {attributes : List Attribute}
    (hcontent : model.content = [.particle (.choice .exactlyOne) (attributes.map .leaf)])
    {inst : Instance}
    (hcounts : ∀ a ∈ attributes, a.isCollection → a.isPresent inst →
      a.occurs.contains (inst.occurrences a.name))
    (anchor : Anchor) :
    let present := attributes.filter (·.isPresent inst)
    let lacking := Attribute.lacking inst attributes
    let failures := (model.validate inst anchor).value
    failures
        = (lacking.map fun a =>
            .collectionCountOutOfRange a.name (inst.occurrences a.name) a.occurs)
          ++ (if present.length = 1 then [] else [.invalidChoice (present.map (·.name))])
      ∧ (failures = [] ↔ present.length = 1 ∧ lacking = []) := by
  intro present lacking failures
  have hattributes : model.attributes = attributes := by
    unfold Model.attributes
    rw [hcontent, Content.leavesAll_cons, Content.leavesAll_nil, List.append_nil]
    apply Content.leavesAll_map_leaf
  have hfailures : failures
      = (lacking.map fun a =>
          .collectionCountOutOfRange a.name (inst.occurrences a.name) a.occurs)
        ++ (if present.length = 1 then [] else [.invalidChoice (present.map (·.name))]) := by
    change (model.validate inst anchor).value = _
    rw [Model.value_validate (wellNested_of_build h), hattributes, hcontent]
    rw [Attribute.filterMap_countFailure? hcounts, List.flatMap_singleton]
    rw [Content.report, Content.reportAll_map_leaf, Content.choiceFailure?_map_leaf]
    congr 1
    split <;> rfl
  refine ⟨hfailures, ?_⟩
  rw [hfailures, List.append_eq_nil_iff, List.map_eq_nil_iff, and_comm]
  apply and_congr_left'
  split <;> simp_all

def Attribute.presents : List Attribute := [
  ⟨"voucher", .string, .one⟩,
  ⟨"items", .string, .collection ⟨1, none⟩⟩,
  ⟨"cards", .string, .collection ⟨0, some 2⟩⟩]

def Declaration.gift : Declaration where
  name := "Gift"
  kind := .model
  items := [.block (.particle (.choice none) (Attribute.presents.map .leaf))]

theorem gift_of_items :
    let inst := (Declaration.gift.model.newInstance).set "items" (toValue ["tea", "cake"])
    let both := inst.set "cards" (toValue ["A"])
    (Declaration.gift.model.validate inst .lenient).value = []
      ∧ (Declaration.gift.model.validate both .lenient).value
          = [.invalidChoice ["items", "cards"]] := by
  intro inst both
  have hbuild : Declaration.gift.build.value = .ok Declaration.gift.model := rfl
  have hcontent : Declaration.gift.model.content
      = [.particle (.choice .exactlyOne) (Attribute.presents.map .leaf)] := rfl
  refine ⟨?_, ?_⟩
  . apply (Declaration.validate_alternatives hbuild hcontent (by decide) .lenient).2.mpr
    decide
  . apply (Declaration.validate_alternatives hbuild hcontent (by decide) .lenient).1

/--
A gift of a voucher alone is not valid, because it lacks items, which it was not to hold.
-/
theorem gift_of_voucher_lacks_items :
    let inst := (Declaration.gift.model.newInstance).set "voucher" (toValue "V1")
    Declaration.gift.build.value = .ok Declaration.gift.model
      ∧ Declaration.gift.model.content
          = [.particle (.choice .exactlyOne) (Attribute.presents.map .leaf)]
      ∧ inst.order = none
      ∧ (∀ a ∈ Attribute.presents, a.isCollection → a.isPresent inst →
          a.occurs.contains (inst.occurrences a.name))
      ∧ (Attribute.presents.filter (·.isPresent inst)).length = 1
      ∧ (Declaration.gift.model.validate inst .lenient).value
          = [.collectionCountOutOfRange "items" 0 ⟨1, none⟩] := by
  intro inst
  refine ⟨rfl, rfl, rfl, ?_⟩
  decide

end ContentModel
