import ContentModel.Proofs.Mapping.Ties
import ContentModel.Proofs.Sameness

/-!
This module contains the round trips through documents for mappings without functions. A document that
was written is read and written again as it is, and an instance whose fields all have their rules comes
back from its document.
-/

namespace ContentModel

namespace Model

variable {model : Model} {format : Format}

theorem of_mapping?_eq_some {mapping : Mapping} (h : model.mapping? format = some mapping) :
    mapping ∈ model.mappings
      ∧ (mapping.format = format ∨ format.fallback? = some mapping.format) := by
  have hfind {other : Format} (h : model.mappings.find? (·.format == other) = some mapping) :
      mapping ∈ model.mappings ∧ mapping.format = other :=
    ⟨List.mem_of_find?_eq_some h, by simpa using List.find?_some h⟩
  rw [mapping?, Option.or_eq_some_iff] at h
  rcases h with h | ⟨_, h⟩
  . exact ⟨(hfind h).1, .inl (hfind h).2⟩
  . rcases Option.bind_eq_some_iff.mp h with ⟨other, hother, h⟩
    rcases hfind h with ⟨hmem, rfl⟩
    exact ⟨hmem, .inr hother⟩

theorem isKeyValue_mappingOrIdentity (model : Model) (format : Format) :
    (model.mappingOrIdentity format).format.isKeyValue = format.isKeyValue := by
  have hfallback {other : Format} (h : format.fallback? = some other) :
      other.isKeyValue = format.isKeyValue := by
    cases format <;> cases h <;> rfl
  unfold mappingOrIdentity
  cases h : model.mapping? format with
  | none => rfl
  | some mapping =>
    rw [Option.getD_some]
    rcases (of_mapping?_eq_some h).2 with heq | hother
    . rw [heq]
    . exact hfallback hother

theorem value_fromDocument_eq_ok_iff {doc : Document} {back : Instance} :
    (model.fromDocument format doc).value = .ok back
      ↔ ((model.mappingOrIdentity format).fromDocument model.attributes doc model.newInstance).value
        = .ok () back := by
  rw [fromDocument, Logged.value_bind]
  cases ((model.mappingOrIdentity format).fromDocument model.attributes doc model.newInstance).value
  . simp [pure]
  . simp [pure]

theorem value_fromDocument_of_ok {doc : Document} {back : Instance}
    (h : ((model.mappingOrIdentity format).fromDocument model.attributes doc
      (.new model.name)).value = .ok () back) :
    (model.fromDocument format doc).value = .ok back :=
  value_fromDocument_eq_ok_iff.mpr h

end Model

namespace Declaration

variable {declaration : Declaration} {model : Model}

/--
The rules of every mapping that is used, whether it is declared or stands in for a missing one, are
right about the attributes.
-/
theorem problem?_mappingOrIdentity (h : declaration.build.value = .ok model) (format : Format) :
    ∀ rule ∈ (model.mappingOrIdentity format).rules, rule.problem? model.attributes = none := by
  intro rule hrule
  unfold Model.mappingOrIdentity at hrule
  cases hmapping : model.mapping? format with
  | none =>
    rw [hmapping] at hrule
    rcases List.mem_map.mp hrule with ⟨a, ha, rfl⟩
    have hany : model.attributes.any (·.name == a.name) = true := by
      rw [List.any_eq_true]
      exact ⟨a, ha, beq_self_eq_true _⟩
    simp [Rule.problem?, Rule.delegate?, Rule.direct, hany]
  | some mapping =>
    rw [hmapping] at hrule
    exact problem?_of_build h (Model.of_mapping?_eq_some hmapping).1 hrule

theorem nested_of_build (h : declaration.build.value = .ok model) (format : Format) :
    ∀ rule ∈ (model.mappingOrIdentity format).rules, ∀ delegate, rule.delegate? = some delegate →
      (Attribute.nested? model.attributes delegate).isSome := by
  intro rule hrule delegate hdelegate
  exact Rule.isSome_nested?_of_problem? (problem?_mappingOrIdentity h format rule hrule) hdelegate

theorem nested_of_ties (h : declaration.build.value = .ok model) {format : Format}
    {ties : List Tie} (hrules : (model.mappingOrIdentity format).rules = ties.map Tie.rule) :
    ∀ tie ∈ ties, ∀ delegate, tie.target.delegate = some delegate →
      (Attribute.nested? model.attributes delegate).isSome := by
  intro tie htie delegate hdelegate
  refine nested_of_build h format tie.rule ?_ delegate hdelegate
  rw [hrules]
  apply List.mem_map_of_mem htie

end Declaration

namespace Mapping.Ties

variable {mapping : Mapping} {ties : List Tie} {attributes : List Attribute} {inst : Instance}
  {renderNil : Bool} {doc : Document}

theorem exists_fromDocument (h : mapping.Ties ties) (hformat : mapping.format.isKeyValue = true)
    (hlinked : ∀ rule ∈ mapping.rules, ∀ delegate, rule.delegate? = some delegate →
      (Attribute.nested? attributes delegate).isSome)
    (hdoc : ties.foldlM (Tie.write inst renderNil) .empty = .ok doc) (model : String) :
    ∃ back, (mapping.fromDocument attributes doc (.new model)).value = .ok () back
      ∧ back.Holds attributes model ((ties.filter (Tie.renders inst renderNil)).map (·.target))
          (·.value inst) := by
  have hfields : ∀ tie ∈ ties, doc.get? tie.field
      = if tie.renders inst renderNil then some (tie.target.value inst) else none := by
    intro tie htie
    exact ((Tie.get?_of_foldlM_write hdoc h.distinct).2 tie htie).2
  have hdelegates : ∀ tie ∈ ties, ∀ delegate, tie.target.delegate = some delegate →
      (Attribute.nested? attributes delegate).isSome := by
    intro tie htie delegate hdelegate
    refine hlinked tie.rule ?_ delegate hdelegate
    rw [h.rules]
    exact List.mem_map_of_mem htie
  have hapart : Target.Apart ([] ++ (ties.filter (Tie.renders inst renderNil)).map (·.target)) := by
    refine h.apart.subset ?_
    intro target htarget
    rw [List.nil_append] at htarget
    exact ((List.filter_sublist).map _).subset htarget
  rw [h.value_fromDocument hformat]
  exact (Instance.Holds.new attributes model (·.value inst)).exists_forM_read hfields hdelegates hapart

/--
What was read from the document has the same values under all targets as what was written.
-/
theorem get_eq_of_holds (h : mapping.Ties ties)
    (hdoc : ties.foldlM (Tie.write inst renderNil) .empty = .ok doc) {model : String}
    {back : Instance}
    (hback : back.Holds attributes model
      ((ties.filter (Tie.renders inst renderNil)).map (·.target)) (·.value inst))
    {tie : Tie} (htie : tie ∈ ties) : tie.target.get back = tie.target.get inst := by
  have hsubset {target : Target}
      (htarget : target ∈ (ties.filter (Tie.renders inst renderNil)).map (·.target)) :
      target ∈ ties.map (·.target) :=
    ((List.filter_sublist).map _).subset htarget
  have hmem := List.mem_map_of_mem (f := (·.target)) htie
  rw [((Tie.get?_of_foldlM_write hdoc h.distinct).2 tie htie).1]
  rw [hback.get_eq]
  . unfold Target.lookup
    split
    . rfl
    . next hnot =>
      have hrenders : tie.renders inst renderNil = false := by
        rw [← Bool.not_eq_true]
        intro hrenders
        exact hnot (List.mem_map_of_mem (f := (·.target)) (List.mem_filter.mpr ⟨htie, hrenders⟩))
      unfold Tie.renders at hrenders
      cases hvalue : tie.target.value inst with
      | null => rfl
      | _ => simp [hvalue, Value.isNull] at hrenders
  . intro other hother hdirect
    exact h.apart other (hsubset hother) hdirect tie.target hmem
  . intro hdirect other hother
    exact h.apart tie.target hmem hdirect other (hsubset hother)

end Mapping.Ties

/--
A document that was written by rules without functions is read without error, and what was read is
written as the same document.
-/
theorem Declaration.toDocument_fromDocument {declaration : Declaration} {model : Model}
    (h : declaration.build.value = .ok model) {format : Format} {ties : List Tie}
    (hties : (model.mappingOrIdentity format).Ties ties) {inst : Instance} {renderNil : Bool}
    {doc : Document} (hdoc : (model.toDocument format inst renderNil).value = .ok doc) :
    ∃ back, (model.fromDocument format doc).value = .ok back
      ∧ (model.toDocument format back renderNil).value = .ok doc := by
  unfold Model.toDocument at hdoc ⊢
  cases hformat : (model.mappingOrIdentity format).format.isKeyValue with
  | false =>
    rw [Mapping.toDocument, hformat] at hdoc
    cases hdoc
  | true =>
    rw [hties.value_toDocument hformat] at hdoc
    rcases hties.exists_fromDocument hformat (nested_of_build h format) hdoc model.name
      with ⟨back, hread, hback⟩
    refine ⟨back, Model.value_fromDocument_of_ok hread, ?_⟩
    rw [hties.value_toDocument hformat, ← hdoc]
    apply Tie.foldlM_write_congr
    intro tie htie
    exact hties.get_eq_of_holds hdoc hback htie

def Declaration.message : Declaration where
  name := "Message"
  kind := .model
  items := [
    .block (.leaf ⟨"subject", .string, .one⟩),
    .block (.leaf ⟨"sender", .model "Contact", .one⟩),
    .mapping .json [
      .rule { name := "from", target := some "name", delegate := some "sender" },
      .rule { name := "subject", target := some "subject" },
      .rule { name := "phone", target := some "phone", delegate := some "sender", renderNil := some true },
      .rule { name := "title", target := some "subject", renderNil := some false }],
    .mapping .keyValue [
      .rule { name := "from", target := some "name", delegate := some "sender" },
      .rule { name := "subject", target := some "subject" },
      .rule { name := "phone", target := some "phone", delegate := some "sender" },
      .rule { name := "title", target := some "subject", renderNil := some false }]]

theorem message_rewritten :
    let model := Declaration.message.model
    let inst := (Instance.new "Message").set "sender"
      (toValue ((Instance.new "Contact").set "name" (toValue "Ada")))
    let doc : Document := ⟨[("from", toValue "Ada"), ("subject", .null), ("phone", .null)]⟩
    (model.toDocument .json inst true).value = .ok doc
      ∧ ∃ back, (model.fromDocument .json doc).value = .ok back
        ∧ (model.toDocument .json back true).value = .ok doc := by
  intro model inst doc
  have hbuild : Declaration.message.build.value = .ok model := rfl
  have hties : (model.mappingOrIdentity .json).Ties [
      ⟨"from", ⟨"name", some "sender"⟩, none⟩,
      ⟨"subject", ⟨"subject", none⟩, none⟩,
      ⟨"phone", ⟨"phone", some "sender"⟩, some true⟩,
      ⟨"title", ⟨"subject", none⟩, some false⟩] := ⟨rfl, by decide, by decide⟩
  have hdoc : (model.toDocument .json inst true).value = .ok doc := rfl
  exact ⟨hdoc, Declaration.toDocument_fromDocument hbuild hties hdoc⟩

namespace Instance

/--
All that the instance holds is written through the delegate, which is declared to hold such instances.
-/
structure Delegated (inner : Instance) (targets : List Target) (attributes : List Attribute)
    (delegate : String) : Prop where
  nested_eq : Attribute.nested? attributes delegate = some inner.model
  order_eq : inner.order = none
  distinct : inner.fields.Distinct
  nonempty : inner.fields.isEmpty = false
  covered : ∀ field value, inner.get? field = some value →
    value.isNull = false ∧ ⟨field, some delegate⟩ ∈ targets

/--
All that the instance holds is written: its fields are targets themselves or hold instances that are
written through them.
-/
structure Covered (inst : Instance) (targets : List Target) (attributes : List Attribute)
    (model : String) : Prop where
  model_eq : inst.model = model
  order_eq : inst.order = none
  distinct : inst.fields.Distinct
  covered : ∀ name value, inst.get? name = some value → value.isNull = false
    ∧ (⟨name, none⟩ ∈ targets
      ∨ ∃ inner, value = .object inner ∧ inner.Delegated targets attributes name)

variable {attributes : List Attribute} {model : String} {targets : List Target}
  {inst inner holder back : Instance} {target : Target}

theorem Delegated.exists_get? {delegate : String}
    (h : inner.Delegated targets attributes delegate) :
    ∃ field value, inner.get? field = some value := by
  rcases inner with ⟨model, ⟨entries⟩, order⟩
  cases entries with
  | nil => cases h.nonempty
  | cons entry rest => exact ⟨entry.1, entry.2, if_pos rfl⟩

/--
The targets that have a value.
-/
def valued (inst : Instance) (targets : List Target) : List Target :=
  targets.filter fun target => !(target.value inst).isNull

theorem mem_valued : target ∈ inst.valued targets
    ↔ target ∈ targets ∧ (target.value inst).isNull = false := by
  rw [valued, List.mem_filter, Bool.not_eq_true']

/--
As far as the holder of a target has only covered fields, what has a value is what the holder has.
-/
theorem lookup_valued (hholder : target.holder inst = .ok (some holder))
    (hcovered : ∀ value, holder.get? target.name = some value →
      value.isNull = false ∧ target ∈ targets) :
    Target.lookup (inst.valued targets) (·.value inst) target = holder.get? target.name := by
  have hvalue := Target.value_of_holder hholder
  unfold Target.lookup
  simp only [mem_valued, hvalue, Option.bind_some]
  cases hget : holder.get? target.name with
  | none => simp [Value.isNull]
  | some value =>
    have hmem := hcovered value hget
    simp [hmem]

namespace Covered

/--
What is held under the delegate of a target is an instance.
-/
theorem delegated_of_get? (h : inst.Covered targets attributes model)
    (hapart : Target.Apart targets) {name delegate : String}
    (htarget : ⟨name, some delegate⟩ ∈ targets) {value : Value}
    (hget : inst.get? delegate = some value) :
    ∃ inner, value = .object inner ∧ inner.Delegated targets attributes delegate := by
  rcases (h.covered delegate value hget).2 with hdirect | hinner
  . exact absurd rfl (hapart _ hdirect rfl _ htarget)
  . exact hinner

theorem get_eq_ok (h : inst.Covered targets attributes model) (hapart : Target.Apart targets)
    (htarget : target ∈ targets) : target.get inst = .ok (target.value inst) := by
  rcases target with ⟨name, delegate⟩
  cases delegate with
  | none => exact Target.get_eq_ok_value Target.holder_direct
  | some delegate =>
    cases hget : inst.get? delegate with
    | none => exact Target.get_eq_ok_value (Target.holder_of_none hget)
    | some value =>
      rcases h.delegated_of_get? hapart htarget hget with ⟨inner, rfl, _⟩
      exact Target.get_eq_ok_value (Target.holder_of_object hget)

theorem exists_delegated (h : inst.Covered targets attributes model)
    (hapart : Target.Apart targets) {name delegate : String}
    (htarget : ⟨name, some delegate⟩ ∈ inst.valued targets) :
    ∃ inner, inst.get? delegate = some (.object inner)
      ∧ inner.Delegated targets attributes delegate := by
  rw [mem_valued] at htarget
  cases hget : inst.get? delegate with
  | none =>
    rw [Target.value_of_holder (Target.holder_of_none hget)] at htarget
    cases htarget.2
  | some value =>
    rcases h.delegated_of_get? hapart htarget.1 hget with ⟨inner, rfl, hinner⟩
    exact ⟨inner, rfl, hinner⟩

theorem direct_of_get? (h : inst.Covered targets attributes model) {name : String}
    (hthrough : ∀ target ∈ inst.valued targets, target.delegate ≠ some name) {value : Value}
    (hget : inst.get? name = some value) : value.isNull = false ∧ ⟨name, none⟩ ∈ targets := by
  rcases h.covered name value hget with ⟨hvalue, hdirect | ⟨inner, rfl, hinner⟩⟩
  . exact ⟨hvalue, hdirect⟩
  . -- Some field of the nested instance is written through the delegate.
    rcases hinner.exists_get? with ⟨field, value, hfield⟩
    have hcovered := hinner.covered field value hfield
    refine absurd rfl (hthrough ⟨field, some name⟩ ?_)
    rw [mem_valued, Target.value_of_holder (Target.holder_of_object hget)]
    simp only [Option.bind_some, hfield, Option.getD_some]
    exact hcovered.symm

/--
An instance that has taken up the values of a covered instance is the same.
-/
theorem same_of_holds (h : inst.Covered targets attributes model) (hapart : Target.Apart targets)
    (hback : back.Holds attributes model (inst.valued targets) (·.value inst)) :
    Value.Same (.object back) (.object inst) := by
  have hmodel := hback.model_eq.trans h.model_eq.symm
  have horder := hback.order_eq.trans h.order_eq.symm
  refine Value.same_of_rel hmodel horder hback.distinct h.distinct ?_
  intro name
  by_cases hthrough : ∃ target ∈ inst.valued targets, target.delegate = some name
  . rcases hback.nested name hthrough with ⟨taken, innerModel, htaken, hnested, hfilled⟩
    rcases hthrough with ⟨⟨field, _⟩, htarget, rfl⟩
    rcases h.exists_delegated hapart htarget with ⟨inner, hinner, hdelegated⟩
    have hinnerModel : innerModel = inner.model :=
      Option.some.inj (hnested.symm.trans hdelegated.nested_eq)
    have hsame : Value.Same (.object taken) (.object inner) := by
      have hmodel := hfilled.model_eq.trans hinnerModel
      have horder := hfilled.order_eq.trans hdelegated.order_eq.symm
      refine Value.same_of_rel hmodel horder hfilled.distinct hdelegated.distinct ?_
      intro field
      apply Value.rel_same_of_eq
      rw [hfilled.get?_eq]
      exact lookup_valued (Target.holder_of_object hinner) (hdelegated.covered field)
    rw [htaken, hinner]
    exact .some hsame
  . simp only [not_exists, not_and] at hthrough
    apply Value.rel_same_of_eq
    rw [hback.direct name hthrough]
    refine lookup_valued Target.holder_direct ?_
    intro value hget
    exact h.direct_of_get? hthrough hget

end Covered

end Instance

theorem Tie.map_target_filter_renders {ties : List Tie} (hnil : ∀ tie ∈ ties, tie.renderNil ≠ some true)
    (inst : Instance) :
    (ties.filter (Tie.renders inst false)).map (·.target) = inst.valued (ties.map (·.target)) := by
  unfold Instance.valued
  rw [List.filter_map]
  congr 1
  apply List.filter_congr
  intro tie htie
  have hrender : tie.renderNil.getD false = false := by
    have hne := hnil tie htie
    cases h : tie.renderNil with
    | none => rfl
    | some render =>
      cases render with
      | false => rfl
      | true => exact absurd h hne
  rw [renders, hrender]
  simp

/--
An instance whose fields are all written comes back from its document, also when the document is read
as another format with the same mapping.
-/
theorem Declaration.fromDocument_toDocument {declaration : Declaration} {model : Model}
    (h : declaration.build.value = .ok model) {format other : Format}
    (hformat : format.isKeyValue = true) (hother : other.isKeyValue = true)
    (hsame : model.mapping? other = model.mapping? format) {ties : List Tie}
    (hties : (model.mappingOrIdentity format).Ties ties)
    (hnil : ∀ tie ∈ ties, tie.renderNil ≠ some true) {inst : Instance}
    (hinst : inst.Covered (ties.map (·.target)) model.attributes model.name) :
    ∃ doc back, (model.toDocument format inst false).value = .ok doc
      ∧ (model.fromDocument other doc).value = .ok back
      ∧ Value.Same (.object back) (.object inst)
      ∧ ((inst == inst) = true → (back == inst) = true) := by
  have hgets : ∀ tie ∈ ties, tie.target.get inst = .ok (tie.target.value inst) := by
    intro tie htie
    exact hinst.get_eq_ok hties.apart (List.mem_map_of_mem htie)
  rcases Tie.exists_foldlM_write hgets false .empty with ⟨doc, hdoc⟩
  have hothers : (model.mappingOrIdentity other).Ties ties := by
    refine ⟨?_, hties.distinct, hties.apart⟩
    rw [← hties.rules, Model.mappingOrIdentity, Model.mappingOrIdentity, hsame]
    cases model.mapping? format <;> rfl
  have hkeys (format : Format) := model.isKeyValue_mappingOrIdentity format
  have hlinked := nested_of_build h other
  rcases hothers.exists_fromDocument ((hkeys other).trans hother) hlinked hdoc model.name
    with ⟨back, hread, hback⟩
  rw [Tie.map_target_filter_renders hnil] at hback
  have hback := hinst.same_of_holds hties.apart hback
  refine ⟨doc, back, ?_, Model.value_fromDocument_of_ok hread, hback, hback.beq⟩
  rw [Model.toDocument, hties.value_toDocument ((hkeys format).trans hformat), hdoc]

theorem message_recovered :
    let model := Declaration.message.model
    let sender := ((Instance.new "Contact").set "phone" (toValue "1815")).set "name" (toValue "Ada")
    let inst := ((Instance.new "Message").set "subject" (toValue "Notes")).set "sender" (toValue sender)
    ∃ doc back, (model.toDocument .yaml inst false).value = .ok doc
      ∧ (model.fromDocument .toml doc).value = .ok back
      ∧ Value.Same (.object back) (.object inst)
      ∧ ((inst == inst) = true → (back == inst) = true) := by
  intro model sender inst
  have hbuild : Declaration.message.build.value = .ok model := rfl
  have hties : (model.mappingOrIdentity .yaml).Ties [
      ⟨"from", ⟨"name", some "sender"⟩, none⟩,
      ⟨"subject", ⟨"subject", none⟩, none⟩,
      ⟨"phone", ⟨"phone", some "sender"⟩, none⟩,
      ⟨"title", ⟨"subject", none⟩, some false⟩] := ⟨rfl, by decide, by decide⟩
  have hsender_distinct : sender.fields.Distinct :=
    Entries.distinct_insert (Entries.distinct_insert Entries.distinct_empty _ _) _ _
  have hdistinct : inst.fields.Distinct :=
    Entries.distinct_insert (Entries.distinct_insert Entries.distinct_empty _ _) _ _
  have hsender : sender.Delegated [⟨"name", some "sender"⟩, ⟨"subject", none⟩,
      ⟨"phone", some "sender"⟩, ⟨"subject", none⟩] model.attributes "sender" := by
    refine ⟨rfl, rfl, hsender_distinct, rfl, ?_⟩
    intro field value hget
    have hmem : (field, value) ∈ [("phone", toValue "1815"), ("name", toValue "Ada")] :=
      (Entries.get?_eq_some_iff hsender_distinct _ _).mp hget
    simp only [List.mem_cons, List.not_mem_nil, or_false, Prod.mk.injEq] at hmem
    rcases hmem with ⟨rfl, rfl⟩ | ⟨rfl, rfl⟩
    . exact ⟨rfl, by decide⟩
    . exact ⟨rfl, by decide⟩
  refine Declaration.fromDocument_toDocument hbuild rfl rfl rfl hties (by simp) ?_
  refine ⟨rfl, rfl, hdistinct, ?_⟩
  intro name value hget
  have hmem : (name, value) ∈ [("subject", toValue "Notes"), ("sender", toValue sender)] :=
    (Entries.get?_eq_some_iff hdistinct _ _).mp hget
  simp only [List.mem_cons, List.not_mem_nil, or_false, Prod.mk.injEq] at hmem
  rcases hmem with ⟨rfl, rfl⟩ | ⟨rfl, rfl⟩
  . exact ⟨rfl, .inl (by decide)⟩
  . exact ⟨rfl, .inr ⟨sender, rfl, hsender⟩⟩

end ContentModel
