import Mathlib.Data.List.Pairwise
import ContentModel.Proofs.Validation.Accuracy
import ContentModel.Proofs.Validation.Runs

/-!
This module contains what the order check of a sequence at the top level of a model has to do with
the order of a document: what is known about a document that passes, and which documents pass.
-/

namespace ContentModel

/--
The failure says that the sequence with the given children is out of order. The leaf that it expects
tells the sequence from the others of its model.
-/
def Failure.Disorders (children : List Content) : Failure → Prop
  | .incorrectSequence expected _ => expected ∈ (Content.leavesAll children).map (·.name)
  | _ => False

namespace OrderCheck

end OrderCheck

namespace Content

variable {inst : Instance} {anchor : Anchor}

theorem not_disorders_of_reports {content : Content} {failure : Failure}
    (h : content.Reports inst anchor failure) (children : List Content) :
    ¬ failure.Disorders children := by
  unfold Reports at h
  split at h
  . rcases h with ⟨inChoice, h⟩
    rcases choiceFailure?_eq_some h with ⟨heq, _⟩ | ⟨_, _, _, _, heq⟩
    . simp [heq, Failure.Disorders]
    . simp [heq, Failure.Disorders]
  . simp [(allFailure?_eq_some h).2, Failure.Disorders]
  . cases h

theorem disorders_of_orderFailure? {children : List Content} {failure : Failure}
    (h : orderFailure? inst anchor children = some failure) : failure.Disorders children := by
  rcases orderFailure?_eq_some h with ⟨expected, found, heq, hbroken⟩
  rcases checkOrder_eq_broken hbroken with ⟨_, _, hexpected, _⟩
  rw [heq]
  apply ((placedAll_sublist children).map _).subset hexpected

theorem eq_of_mem_leaves {contents : List Content}
    (hdistinct : ((leavesAll contents).map (·.name)).Nodup) {content other : Content}
    (hcontent : content ∈ contents) (hother : other ∈ contents) {name : String}
    (h : name ∈ content.leaves.map (·.name)) (h' : name ∈ other.leaves.map (·.name)) :
    content = other := by
  rw [leavesAll_eq_flatMap, List.map_flatMap, List.nodup_flatMap] at hdistinct
  by_contra hne
  have hsymm : Std.Symm (Function.onFun List.Disjoint
      fun content : Content => content.leaves.map (·.name)) := by
    constructor
    intro x y hdisjoint name hy hx
    apply hdisjoint hx hy
  apply hdistinct.2.forall hcontent hother hne h h'

end Content

namespace Model

variable {model : Model} {inst : Instance} {anchor : Anchor}

theorem not_disorders_iff (hnested : Content.WellNestedAll model.content)
    (hdistinct : (model.attributes.map (·.name)).Nodup) {children : List Content}
    (hroot : .particle .sequence children ∈ model.content) :
    (∀ failure ∈ (model.validate inst anchor).value, ¬ failure.Disorders children)
      ↔ Content.KeepsOrder inst anchor children := by
  rw [value_validate hnested]
  constructor
  . intro h
    unfold Content.KeepsOrder
    rw [Option.eq_none_iff_forall_ne_some]
    intro failure hfailure
    apply h failure
    . apply List.mem_append_right
      rw [List.mem_flatMap]
      refine ⟨_, hroot, ?_⟩
      apply List.mem_append_right
      apply List.mem_filterMap.mpr ⟨children, List.mem_singleton_self _, hfailure⟩
    . apply Content.disorders_of_orderFailure? hfailure
  . intro hkept failure hmem hdisorders
    rw [List.mem_append, List.mem_filterMap, List.mem_flatMap] at hmem
    rcases hmem with ⟨a, _, hcount⟩ | ⟨root, hmem, hfailure⟩
    . rw [(Attribute.countFailure?_eq_some hcount).2.2] at hdisorders
      exact hdisorders
    . rw [List.mem_append] at hfailure
      cases hfailure with
      | inl hreport =>
        rcases Content.exists_of_mem_report root hreport [] with ⟨_, inner, _, hreports⟩
        apply Content.not_disorders_of_reports hreports children hdisorders
      | inr horder =>
        unfold Content.orderFailures at horder
        rw [List.mem_filterMap] at horder
        rcases horder with ⟨others, hothers, horder⟩
        -- The leaf that the failure expects belongs to both roots, so they are one.
        have hroots : root = .particle .sequence children := by
          rcases Content.orderFailure?_eq_some horder with ⟨expected, found, heq, _⟩
          have hexpected := Content.disorders_of_orderFailure? horder
          rw [heq] at hdisorders hexpected
          apply Content.eq_of_mem_leaves hdistinct hmem hroot _ hdisorders
          apply ((Content.leavesAll_sublist_of_mem_sequences hothers).map _).subset hexpected
        rw [hroots, Content.sequences, List.mem_singleton] at hothers
        rw [hothers, hkept] at horder
        cases horder

theorem nodup_placedAll (hdistinct : (model.attributes.map (·.name)).Nodup)
    {children : List Content} (hroot : .particle .sequence children ∈ model.content) :
    ((Content.placedAll inst children).map (·.name)).Nodup := by
  apply List.Nodup.sublist _ hdistinct
  apply List.Sublist.map
  apply List.Sublist.trans (Content.placedAll_sublist children)
  apply Content.leaves_sublist_leavesAll hroot

end Model

def Block.stops : List Block := [
  .leaf ⟨"from", .string, .one⟩,
  .leaf ⟨"note", .string, .optional⟩,
  .leaf ⟨"via", .string, .collection ⟨0, none⟩⟩,
  .particle (.choice none) [
    .leaf ⟨"road", .string, .one⟩,
    .leaf ⟨"rail", .string, .one⟩],
  .leaf ⟨"to", .string, .one⟩]

def Declaration.parcel : Declaration where
  name := "Parcel"
  kind := .model
  items := [.block (.particle .sequence Block.stops)]

open OrderCheck in
theorem failure?_checkOrder_of_written {order : ElementOrder} {leaves : List Attribute}
    (hdistinct : (leaves.map (·.name)).Nodup)
    (hwritten : Runs (·.occurs.min ≠ 0) leaves
      (order.names.filter fun name => leaves.any (·.name == name)))
    (hmarkers : ∀ a ∈ leaves, a.occurs.min ≠ 0 →
      a.name ≠ ElementOrder.textMarker ∧ a.name ≠ ElementOrder.cdataMarker)
    (anchor : Anchor) : (checkOrder anchor (some order) leaves).failure? = none := by
  have hactual : actual leaves order
      = (order.names.filter fun name => leaves.any (·.name == name)).filter
          fun name => name != ElementOrder.textMarker && name != ElementOrder.cdataMarker := by
    unfold actual ElementOrder.elements
    rw [List.filter_filter, List.filter_filter]
    apply List.filter_congr
    intro name _
    rw [Bool.and_comm]
  have hruns : Runs (·.occurs.min ≠ 0) leaves (actual leaves order) := by
    rw [hactual]
    apply hwritten.filter
    intro a ha hmin
    simpa using hmarkers a ha hmin
  have hwhole : actual leaves order = [] ++ actual leaves order ++ [] := by simp
  apply failure?_checkOrder_of_runs hdistinct hwhole
  . apply hruns.expected hdistinct
  . intro first _
    apply List.not_mem_nil

/--
A document whose children are recorded in declared order passes the order check of a root that is a
sequence, if no leaf that it needs has the name of a marker.
-/
theorem Declaration.not_disorders_of_runs {declaration : Declaration} {model : Model}
    (h : declaration.build.value = .ok model) {children : List Content}
    (hroot : .particle .sequence children ∈ model.content) {inst : Instance} {order : ElementOrder}
    (horder : inst.order = some order) :
    let leaves := Content.placedAll inst children
    OrderCheck.Runs (·.occurs.min ≠ 0) leaves
        (order.names.filter fun name => leaves.any (·.name == name)) →
      (∀ a ∈ leaves, a.occurs.min ≠ 0 →
        a.name ≠ ElementOrder.textMarker ∧ a.name ≠ ElementOrder.cdataMarker) →
      ∀ anchor, ∀ failure ∈ (model.validate inst anchor).value, ¬ failure.Disorders children := by
  intro leaves hwritten hmarkers anchor
  have hdistinct := distinct_of_build h
  rw [Model.not_disorders_iff (wellNested_of_build h) hdistinct hroot]
  unfold Content.KeepsOrder Content.orderFailure?
  rw [horder]
  apply failure?_checkOrder_of_written (Model.nodup_placedAll hdistinct hroot) hwritten hmarkers

theorem parcel_in_declared_order :
    let inst := (Declaration.parcel.model.newInstance).set "rail" (toValue "R1")
    let ordered := { inst with
      order := some ⟨["stamp", "from", "text", "via", "via", "stamp", "rail", "to"], true⟩ }
    ∀ anchor, ∀ failure ∈ (Declaration.parcel.model.validate ordered anchor).value,
      ¬ failure.Disorders (Block.contentAll Block.stops) := by
  intro inst ordered
  have hbuild : Declaration.parcel.build.value = .ok Declaration.parcel.model := rfl
  have hroot : .particle .sequence (Block.contentAll Block.stops)
      ∈ Declaration.parcel.model.content := List.mem_singleton_self _
  apply Declaration.not_disorders_of_runs hbuild hroot rfl
  . exact .cons 1 (by decide) (by decide) <| .cons 0 (by decide) (by decide) <|
      .cons 2 (by decide) (by decide) <| .cons 1 (by decide) (by decide) <|
      .cons 1 (by decide) (by decide) .nil
  . decide

def Block.lines : List Block := [.leaf ⟨"title", .string, .one⟩, .leaf ⟨"text", .string, .one⟩]

def Declaration.notice : Declaration where
  name := "Notice"
  kind := .model
  items := [.block (.particle .sequence Block.lines)]

/--
An attribute may have the name of a marker. Its elements are taken for markers, so that a document
in declared order is reported.
-/
theorem notice_reported_in_declared_order :
    let inst := ((Declaration.notice.model.newInstance).set "title" (toValue "T")).set "text"
      (toValue "L")
    let order : ElementOrder := ⟨["title", "text"], false⟩
    let ordered := { inst with order := some order }
    let leaves := Content.placedAll ordered (Block.contentAll Block.lines)
    Declaration.notice.build.value = .ok Declaration.notice.model
      ∧ .particle .sequence (Block.contentAll Block.lines) ∈ Declaration.notice.model.content
      ∧ OrderCheck.Runs (·.occurs.min ≠ 0) leaves
          (order.names.filter fun name => leaves.any (·.name == name))
      ∧ (Declaration.notice.model.validate ordered .lenient).value
          = [.incorrectSequence "text" none]
      ∧ (Failure.incorrectSequence "text" none).Disorders (Block.contentAll Block.lines) := by
  intro inst order ordered leaves
  refine ⟨rfl, List.mem_singleton_self _, ?_, by decide, ?_⟩
  . exact .cons 1 (by decide) (by decide) <| .cons 1 (by decide) (by decide) .nil
  . change "text" ∈ ["title", "text"]
    simp

end ContentModel
