import ContentModel.Proofs.Validation.Validity

/-!
This module contains how presence and item counts go together. A value is present exactly when it stands
for an item, with one exception: an empty map is absent and counts as one item. So a collection that
needs an item and passes the count is present unless it holds an empty map.
-/

namespace ContentModel

theorem Value.isPresent_iff_occurrences_iff (value : Value) :
    (value.isPresent = true ↔ 1 ≤ value.occurrences) ↔ value ≠ .map .empty := by
  cases value with
  | list items => cases items <;> simp [isPresent, occurrences]
  | map entries =>
    rcases entries with ⟨_ | _⟩ <;> simp [isPresent, occurrences, Entries.isEmpty, Entries.empty]
  | _ => simp [isPresent, occurrences]

theorem Attribute.isPresent_iff_of_occurrences {a : Attribute} {inst : Instance}
    (h : 1 ≤ inst.occurrences a.name) :
    a.isPresent inst = true ↔ inst.get? a.name ≠ some (.map .empty) := by
  unfold isPresent Instance.isPresent
  unfold Instance.occurrences at h
  cases hget : inst.get? a.name with
  | none =>
    rw [hget] at h
    cases h
  | some value =>
    rw [hget] at h
    calc
      value.isPresent = true ↔ (value.isPresent = true ↔ 1 ≤ value.occurrences) := by simp [h]
      _ ↔ value ≠ .map .empty := value.isPresent_iff_occurrences_iff
      _ ↔ _ := by simp

theorem Model.countFailure?_eq_none_of_validate {model : Model}
    (hnested : Content.WellNestedAll model.content) {a : Attribute} (ha : a ∈ model.attributes)
    {inst : Instance} {anchor : Anchor}
    (h : ∀ count occurs,
      .collectionCountOutOfRange a.name count occurs ∉ (model.validate inst anchor).value) :
    a.countFailure? inst = none := by
  cases hcount : a.countFailure? inst with
  | none => rfl
  | some failure =>
    have hfailure := (Attribute.countFailure?_eq_some hcount).2.2
    refine absurd ?_ (h (inst.occurrences a.name) a.occurs)
    rw [value_validate hnested, ← hfailure]
    apply List.mem_append_left
    exact List.mem_filterMap.mpr ⟨a, ha, hcount⟩

/--
Presence and item counts agree on every value but the empty map. So a collection that needs an item and
is not reported for its count is present, unless it holds an empty map.
-/
theorem Declaration.isPresent_iff_of_counted {declaration : Declaration} {model : Model}
    (h : declaration.build.value = .ok model) {a : Attribute} (ha : a ∈ model.attributes)
    (hcollection : a.isCollection = true) (hmin : 1 ≤ a.occurs.min) {inst : Instance}
    {anchor : Anchor}
    (hcounted : ∀ count occurs,
      .collectionCountOutOfRange a.name count occurs ∉ (model.validate inst anchor).value) :
    (∀ value : Value, (value.isPresent = true ↔ 1 ≤ value.occurrences) ↔ value ≠ .map .empty)
      ∧ (a.isPresent inst = true ↔ inst.get? a.name ≠ some (.map .empty)) := by
  refine ⟨Value.isPresent_iff_occurrences_iff, ?_⟩
  have hnone := Model.countFailure?_eq_none_of_validate (wellNested_of_build h) ha hcounted
  have hrange := (Model.countFailure?_eq_none_iff a).mp hnone hcollection
  exact Attribute.isPresent_iff_of_occurrences (Nat.le_trans hmin hrange.1)

/--
A post with one tag at least.
-/
def Declaration.post : Declaration where
  name := "Post"
  kind := .model
  items := [
    .block (.leaf ⟨"title", .string, .one⟩),
    .block (.particle .sequence [
      .leaf ⟨"tags", .string, .collection ⟨1, none⟩⟩,
      .leaf ⟨"links", .string, .collection ⟨0, none⟩⟩])]

theorem post_of_tags :
    let inst := (Instance.new "Post").set "tags" (toValue ["lean"]) |>.set "links" .null
    (∀ count occurs,
        .collectionCountOutOfRange "tags" count occurs
          ∉ (Declaration.post.model.validate inst .strict).value)
      ∧ Attribute.isPresent ⟨"tags", .string, .collection ⟨1, none⟩⟩ inst = true := by
  intro inst
  have hbuild : Declaration.post.build.value = .ok Declaration.post.model := rfl
  have hcounted : ∀ count occurs,
      .collectionCountOutOfRange "tags" count occurs
        ∉ (Declaration.post.model.validate inst .strict).value := by
    have hvalid : (Declaration.post.model.validate inst .strict).value = [] := rfl
    simp [hvalid]
  refine ⟨hcounted, ?_⟩
  have hpresent := (Declaration.isPresent_iff_of_counted hbuild
    (a := ⟨"tags", .string, .collection ⟨1, none⟩⟩) (by decide) rfl (by decide) hcounted).2
  have htags : inst.get? "tags" = some (.list [.string "lean"]) := rfl
  rw [hpresent, htags]
  rintro ⟨⟩

/--
An empty map stands for an item and is absent: it is enough for the tags of a post, and they are not there.
-/
theorem post_without_tags_counted :
    let inst := (Instance.new "Post").set "tags" (.map .empty)
    (¬ ∀ value : Value, value.isPresent = true ↔ 1 ≤ value.occurrences)
      ∧ (Declaration.post.model.validate inst .strict).value = []
      ∧ Attribute.isPresent ⟨"tags", .string, .collection ⟨1, none⟩⟩ inst = false := by
  intro inst
  refine ⟨?_, rfl, rfl⟩
  intro h
  exact absurd rfl ((Value.isPresent_iff_occurrences_iff (.map .empty)).mp (h _))

end ContentModel
