import ContentModel.Proofs.Model
import ContentModel.Proofs.Validation.Agreement

/-!
This module contains the comparison of validations that differ in the element order and the anchor.
Both are looked at by order checks alone, and the later of two validations has the failures of the
earlier one with some failures of order put in between.
-/

namespace ContentModel

namespace Failure

/--
An order check can be the reason for the failure.
-/
def OfOrder : Failure → Prop
  | .incorrectSequence .. => True
  | .invalidChoice _ => True
  | _ => False

/--
The second list is the first one with failures of order put in.
-/
inductive Grows : List Failure → List Failure → Prop where
  | nil : Grows [] []
  | keep (failure : Failure) {xs ys : List Failure} :
      Grows xs ys → Grows (failure :: xs) (failure :: ys)
  | put {failure : Failure} {xs ys : List Failure} :
      failure.OfOrder → Grows xs ys → Grows xs (failure :: ys)

namespace Grows

theorem sublist {xs ys : List Failure} (h : Grows xs ys) : xs.Sublist ys := by
  induction h with
  | nil => exact .slnil
  | keep failure _ ih => exact ih.cons_cons failure
  | put _ _ ih => exact ih.cons _

theorem refl (xs : List Failure) : Grows xs xs := by
  induction xs with
  | nil => exact .nil
  | cons failure rest ih => exact .keep failure ih

theorem append {xs ys xs' ys' : List Failure} (h : Grows xs ys) (h' : Grows xs' ys') :
    Grows (xs ++ xs') (ys ++ ys') := by
  induction h with
  | nil => exact h'
  | keep failure _ ih => exact .keep failure ih
  | put horder _ ih => exact .put horder ih

theorem flatMap {α : Type} (list : List α) {f g : α → List Failure}
    (h : ∀ a ∈ list, Grows (f a) (g a)) : Grows (list.flatMap f) (list.flatMap g) := by
  induction list with
  | nil => exact .nil
  | cons a rest ih =>
    rw [List.forall_mem_cons] at h
    rw [List.flatMap_cons, List.flatMap_cons]
    apply append
    . exact h.1
    . exact ih h.2

theorem eq_nil {xs ys : List Failure} (h : Grows xs ys) (hnil : ys = []) : xs = [] := by
  have hsub := h.sublist
  rw [hnil] at hsub
  exact List.sublist_nil.mp hsub

end Grows

/--
The second failure is the first one, or a failure of order where there was none.
-/
def Raises (earlier later : Option Failure) : Prop :=
  earlier = later ∨ earlier = none ∧ ∀ failure, later = some failure → failure.OfOrder

theorem Raises.grows {earlier later : Option Failure} (h : Raises earlier later) :
    Grows earlier.toList later.toList := by
  rcases h with heq | ⟨hnone, horder⟩
  . rw [heq]
    exact .refl _
  . rw [hnone]
    cases later with
    | none => exact .nil
    | some failure => exact .put (horder failure rfl) .nil

theorem Grows.filterMap {α : Type} (list : List α) {f g : α → Option Failure}
    (h : ∀ a, Raises (f a) (g a)) : Grows (list.filterMap f) (list.filterMap g) := by
  induction list with
  | nil => exact .nil
  | cons a rest ih =>
    rw [filterMap_cons_eq_append, filterMap_cons_eq_append]
    apply append
    . exact (h a).grows
    . exact ih

end Failure

open Failure (Grows Raises)

theorem OrderVerdict.ofOrder_of_failure? {verdict : OrderVerdict} {failure : Failure}
    (h : verdict.failure? = some failure) : failure.OfOrder := by
  cases verdict with
  | kept => cases h
  | unanchored expected => cases h
  | broken expected found =>
    cases h
    trivial

theorem raises_of_none (verdict : OrderVerdict) : Raises none verdict.failure? := by
  refine .inr ⟨rfl, ?_⟩
  intro failure h
  exact OrderVerdict.ofOrder_of_failure? h

/--
Every order check raises what it has under the first anchor and order also under the second ones.
-/
def Harder (anchor : Anchor) (order : Option ElementOrder) (anchor' : Anchor)
    (order' : Option ElementOrder) : Prop :=
  ∀ declared, Raises (checkOrder anchor order declared).failure?
    (checkOrder anchor' order' declared).failure?

theorem harder_of_none (anchor anchor' : Anchor) (order : Option ElementOrder) :
    Harder anchor none anchor' order := by
  intro declared
  apply raises_of_none

theorem harder_of_lenient (order : Option ElementOrder) : Harder .lenient order .strict order := by
  intro declared
  unfold checkOrder
  cases order with
  | none => exact .inl rfl
  | some order =>
    dsimp only
    split
    . exact .inl rfl
    . -- The anchor is looked at only where the first expected child does not occur.
      split
      . exact raises_of_none (.broken _ _)
      . exact .inl rfl

theorem Branches.raises_failure? (range : ChoiceRange) (inChoice : Bool) (branches : Branches)
    {spoiled : Bool} (h : branches.spoiled = true → spoiled = true) :
    Raises (branches.failure? range inChoice)
      ({ branches with spoiled }.failure? range inChoice) := by
  unfold failure?
  dsimp only
  split
  . exact .inl rfl
  . split
    . cases hspoiled : branches.spoiled with
      | true =>
        rw [h hspoiled]
        exact .inl rfl
      | false =>
        refine .inr ⟨rfl, ?_⟩
        intro failure hfailure
        split at hfailure
        . cases hfailure
          trivial
        . cases hfailure
    . exact .inl rfl

namespace Content

variable {inst : Instance} {order order' : Option ElementOrder} {anchor anchor' : Anchor}

theorem samePresence_reorder (attributes : List Attribute) :
    SamePresence { inst with order } { inst with order := order' } attributes := by
  intro a _
  rfl

theorem raises_orderFailure? (h : Harder anchor order anchor' order') (children : List Content) :
    Raises (orderFailure? { inst with order } anchor children)
      (orderFailure? { inst with order := order' } anchor' children) := by
  unfold orderFailure?
  rw [placedAll_congr children (samePresence_reorder _)]
  exact h _

theorem grows_orderFailures (h : Harder anchor order anchor' order') (content : Content) :
    Grows (content.orderFailures { inst with order } anchor)
      (content.orderFailures { inst with order := order' } anchor') := by
  unfold orderFailures
  apply Grows.filterMap
  intro children
  exact raises_orderFailure? h children

theorem raises_choiceFailure? (h : Harder anchor order anchor' order') (range : ChoiceRange)
    (inChoice : Bool) (branches : List Content) :
    Raises (choiceFailure? { inst with order } anchor range inChoice branches)
      (choiceFailure? { inst with order := order' } anchor' range inChoice branches) := by
  unfold choiceFailure?
  rw [matchCount_congr branches (samePresence_reorder _)]
  apply Branches.raises_failure?
  intro hspoiled
  rw [List.any_eq_true] at hspoiled ⊢
  rcases hspoiled with ⟨branch, hmem, hbranch⟩
  refine ⟨branch, hmem, ?_⟩
  rw [Bool.not_eq_true', List.isEmpty_eq_false_iff] at hbranch ⊢
  intro hnil
  exact hbranch ((grows_orderFailures h branch).eq_nil hnil)

mutual

theorem grows_report (h : Harder anchor order anchor' order') (content : Content)
    (inChoice : Bool) :
    Grows (content.report { inst with order } anchor inChoice)
      (content.report { inst with order := order' } anchor' inChoice) := by
  cases content with
  | leaf a => exact .nil
  | particle kind children =>
    cases kind with
    | sequence => exact grows_reportAll h children _
    | choice range =>
      apply Grows.append
      . exact grows_reportAll h children true
      . exact (raises_choiceFailure? h range inChoice children).grows
    | group => exact grows_reportAll h children _
    | all => exact .refl _

theorem grows_reportAll (h : Harder anchor order anchor' order') (contents : List Content)
    (inChoice : Bool) :
    Grows (reportAll { inst with order } anchor inChoice contents)
      (reportAll { inst with order := order' } anchor' inChoice contents) := by
  cases contents with
  | nil => exact .nil
  | cons content rest =>
    apply Grows.append
    . exact grows_report h content inChoice
    . exact grows_reportAll h rest inChoice

end

end Content

theorem Model.grows_validate {model : Model} (hnested : Content.WellNestedAll model.content)
    (inst : Instance) {order order' : Option ElementOrder} {anchor anchor' : Anchor}
    (h : Harder anchor order anchor' order') :
    Grows (model.validate { inst with order } anchor).value
      (model.validate { inst with order := order' } anchor').value := by
  rw [value_validate hnested, value_validate hnested]
  apply Grows.append
  . exact .refl _
  . apply Grows.flatMap
    intro root _
    apply Grows.append
    . exact Content.grows_report h root false
    . exact Content.grows_orderFailures h root

/--
An element order and the strict anchor only put failures of order in between.
-/
theorem Declaration.validate_grows {declaration : Declaration} {model : Model}
    (h : declaration.build.value = .ok model) (inst : Instance) (anchor : Anchor) :
    let bare := (model.validate { inst with order := none } anchor).value
    let lenient := (model.validate inst .lenient).value
    let strict := (model.validate inst .strict).value
    (bare.Sublist lenient ∧ lenient.Sublist strict)
      ∧ (Grows bare lenient ∧ Grows lenient strict ∧ Grows bare strict)
      ∧ (strict = [] → lenient = [] ∧ bare = []) := by
  intro bare lenient strict
  have hnested := wellNested_of_build h
  have hself : Instance.mk inst.model inst.fields inst.order = inst := by
    cases inst
    rfl
  have hlenient := Model.grows_validate hnested inst (harder_of_none anchor .lenient inst.order)
  have hstrict := Model.grows_validate hnested inst (harder_of_lenient inst.order)
  have hboth := Model.grows_validate hnested inst (harder_of_none anchor .strict inst.order)
  rw [hself] at hlenient hstrict hboth
  refine ⟨⟨hlenient.sublist, hstrict.sublist⟩, ⟨hlenient, hstrict, hboth⟩, ?_⟩
  intro hnil
  exact ⟨hstrict.eq_nil hnil, hboth.eq_nil hnil⟩

theorem grows_purchase :
    let inst := (Declaration.purchase.model.newInstance).set "voucher" (toValue "V1")
    let ordered := { inst with order := some ⟨["voucher"], false⟩ }
    let failures := (Declaration.purchase.model.validate ordered ·)
    Grows (failures .lenient).value (failures .strict).value
      ∧ (failures .lenient).value = []
      ∧ (failures .strict).value = [.invalidChoice ["voucher"]] := by
  intro inst ordered failures
  have hbuild : Declaration.purchase.build.value = .ok Declaration.purchase.model := rfl
  refine ⟨(Declaration.validate_grows hbuild ordered .lenient).2.1.2.1, ?_⟩
  decide

end ContentModel
