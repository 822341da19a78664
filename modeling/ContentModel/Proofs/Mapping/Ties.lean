import ContentModel.Proofs.Mapping.Reading

/-!
This module contains the two passes over a mapping whose rules have no functions. Writing puts down the
value of each target, and reading fills an instance with the values of exactly the targets whose fields
are in the document.
-/

namespace ContentModel

namespace Target

/--
The value of the target, null when it is out of reach.
-/
def value (target : Target) (inst : Instance) : Value :=
  match target.get inst with
  | .ok value => value
  | .error _ => .null

section Holder

variable {inst inner : Instance} {target : Target} {name delegate : String} {held : Option Instance}

theorem holder_direct : holder ⟨name, none⟩ inst = .ok (some inst) := rfl

theorem holder_of_none (h : inst.get? delegate = none) :
    holder ⟨name, some delegate⟩ inst = .ok none := by
  simp only [holder, h]

theorem holder_of_object (h : inst.get? delegate = some (.object inner)) :
    holder ⟨name, some delegate⟩ inst = .ok (some inner) := by
  simp only [holder, h]

theorem get_of_holder (h : target.holder inst = .ok held) :
    target.get inst = .ok ((held.bind (·.get? target.name)).getD .null) := by
  rw [get, h]
  rfl

theorem value_of_holder (h : target.holder inst = .ok held) :
    target.value inst = (held.bind (·.get? target.name)).getD .null := by
  rw [value, get_of_holder h]

theorem get_eq_ok_value (h : target.holder inst = .ok held) :
    target.get inst = .ok (target.value inst) := by
  rw [value_of_holder h, get_of_holder h]

end Holder

/--
No attribute is a target itself and on the way to another target.
-/
def Apart (targets : List Target) : Prop :=
  ∀ target ∈ targets, target.delegate = none → ∀ other ∈ targets, other.delegate ≠ some target.name

instance (targets : List Target) : Decidable (Apart targets) :=
  inferInstanceAs (Decidable (∀ target ∈ targets, target.delegate = none →
    ∀ other ∈ targets, other.delegate ≠ some target.name))

theorem Apart.subset {targets others : List Target} (h : Apart targets)
    (hsubset : ∀ target ∈ others, target ∈ targets) : Apart others := by
  intro target htarget hdirect other hother
  exact h target (hsubset target htarget) hdirect other (hsubset other hother)

variable {targets : List Target} {values : Target → Value} {target other : Target}

/--
The value of a target that is one of `targets`.
-/
def lookup (targets : List Target) (values : Target → Value) (target : Target) : Option Value :=
  if target ∈ targets then some (values target) else none

theorem lookup_append_self :
    lookup (targets ++ [target]) values target = some (values target) := by
  simp [lookup]

theorem lookup_append_of_ne (h : other ≠ target) :
    lookup (targets ++ [target]) values other = lookup targets values other := by
  simp [lookup, h]

end Target

/--
A delegate without a problem is declared to hold instances.
-/
theorem Rule.isSome_nested?_of_problem? {attributes : List Attribute} {rule : Rule}
    (h : rule.problem? attributes = none) {delegate : String}
    (hdelegate : rule.delegate? = some delegate) :
    (Attribute.nested? attributes delegate).isSome = true := by
  unfold problem? at h
  rw [hdelegate] at h
  unfold Attribute.nested?
  cases hfind : attributes.find? (·.name == delegate) with
  | none => simp [hfind] at h
  | some a =>
    rw [Option.isSome_iff_ne_none]
    simpa [hfind] using h

namespace Tie

variable {inst : Instance} {renderNil : Bool} {doc final : Document} {tie : Tie} {ties : List Tie}

/--
The field is written: its value is not null, or nulls are asked for.
-/
def renders (inst : Instance) (renderNil : Bool) (tie : Tie) : Bool :=
  !((tie.target.value inst).isNull && !tie.renderNil.getD renderNil)

def entry (tie : Tie) : MappingEntry :=
  .rule {
    name := tie.field
    target := some tie.target.name
    delegate := tie.target.delegate
    renderNil := tie.renderNil }

/--
Read the field into the target, if the document has it.
-/
def read (attributes : List Attribute) (doc : Document) (tie : Tie) :
    EStateM MappingError Instance Unit :=
  match doc.get? tie.field with
  | none => pure ()
  | some value => tie.target.assign attributes value

theorem numbered_map_entry (ties : List Tie) :
    MappingEntry.Numbered 0 0 (ties.map entry) (ties.map rule) := by
  induction ties with
  | nil => exact .nil (Nat.le_refl 0)
  | cons tie rest ih => exact .rule rfl ih

theorem readAll_map_entry (attributes : List Attribute) (doc : Document) (ties : List Tie) :
    MappingEntry.readAll attributes doc (ties.map entry) = ties.forM (read attributes doc) := by
  have hparts : (ties.map entry).filterMap (MappingEntry.part? doc) = [] := by
    rw [List.filterMap_eq_nil_iff]
    intro other hother
    rcases List.mem_map.mp hother with ⟨tie, _, rfl⟩
    rfl
  have halone : (ties.map entry).forM (MappingEntry.readAlone attributes doc)
      = ties.forM (read attributes doc) := by
    induction ties with
    | nil => rfl
    | cons tie rest ih =>
      rw [List.map_cons, List.filterMap_cons_none (by rfl)] at hparts
      rw [List.map_cons, List.forM, List.forM, ih hparts]
      rfl
  rw [MappingEntry.readAll, hparts, halone]
  exact bind_pure_unit

theorem forM_read_cons {attributes : List Attribute} {next : Instance}
    (h : read attributes doc tie inst = .ok () next) :
    (tie :: ties).forM (read attributes doc) inst = ties.forM (read attributes doc) next := by
  rw [List.forM]
  dsimp only [bind, EStateM.bind]
  rw [h]

theorem exists_of_forM_read_cons {attributes : List Attribute} {back : Instance}
    (h : (tie :: ties).forM (read attributes doc) inst = .ok () back) :
    ∃ next, read attributes doc tie inst = .ok () next
      ∧ ties.forM (read attributes doc) next = .ok () back := by
  cases hread : read attributes doc tie inst with
  | ok result next =>
    rw [forM_read_cons hread] at h
    exact ⟨next, rfl, h⟩
  | error e left =>
    rw [List.forM] at h
    dsimp only [bind, EStateM.bind] at h
    rw [hread] at h
    cases h

theorem write_eq_ok_iff :
    write inst renderNil doc tie = .ok final
      ↔ tie.target.get inst = .ok (tie.target.value inst)
        ∧ (if tie.renders inst renderNil then doc.insert tie.field (tie.target.value inst) else doc)
          = final := by
  unfold write renders Target.value
  rw [← Target.get_eq_held]
  cases tie.target.get inst with
  | error e => simp [bind, Except.bind]
  | ok value =>
    dsimp only [bind, Except.bind]
    cases value.isNull && !tie.renderNil.getD renderNil <;> simp [pure, Except.pure]

theorem get?_of_write (h : write inst renderNil doc tie = .ok final) :
    (∀ field, field ≠ tie.field → final.get? field = doc.get? field)
      ∧ tie.target.get inst = .ok (tie.target.value inst)
      ∧ final.get? tie.field
        = if tie.renders inst renderNil then some (tie.target.value inst)
          else doc.get? tie.field := by
  rcases write_eq_ok_iff.mp h with ⟨hget, hfinal⟩
  refine ⟨?_, hget, ?_⟩
  . intro field hne
    rw [← hfinal]
    split
    . apply Entries.get?_insert_of_ne _ _ hne
    . rfl
  . rw [← hfinal]
    split
    . apply Entries.get?_insert_self
    . rfl

theorem get?_of_foldlM_write (h : ties.foldlM (write inst renderNil) doc = .ok final)
    (hdistinct : (ties.map (·.field)).Nodup) :
    (∀ field ∉ ties.map (·.field), final.get? field = doc.get? field)
      ∧ ∀ tie ∈ ties, tie.target.get inst = .ok (tie.target.value inst)
        ∧ final.get? tie.field
          = if tie.renders inst renderNil then some (tie.target.value inst)
            else doc.get? tie.field := by
  induction ties generalizing doc with
  | nil =>
    cases h
    exact ⟨fun _ _ => rfl, fun _ htie => nomatch htie⟩
  | cons tie rest ih =>
    rw [List.map_cons, List.nodup_cons] at hdistinct
    rw [List.foldlM_cons] at h
    cases hwrite : write inst renderNil doc tie with
    | error e =>
      rw [hwrite] at h
      cases h
    | ok next =>
      rw [hwrite] at h
      rcases ih h hdistinct.2 with ⟨hothers, hties⟩
      rcases get?_of_write hwrite with ⟨hnext_of_ne, hget, hnext⟩
      constructor
      . intro field hfield
        rw [List.map_cons, List.mem_cons, not_or] at hfield
        rw [hothers field hfield.2, hnext_of_ne field hfield.1]
      . rw [List.forall_mem_cons]
        constructor
        . refine ⟨hget, ?_⟩
          rw [hothers tie.field hdistinct.1, hnext]
        . intro other hother
          have hne : other.field ≠ tie.field := by
            intro heq
            exact hdistinct.1 (heq ▸ List.mem_map_of_mem (f := (·.field)) hother)
          rw [← hnext_of_ne _ hne]
          exact hties other hother

theorem exists_foldlM_write
    (h : ∀ tie ∈ ties, tie.target.get inst = .ok (tie.target.value inst)) (renderNil : Bool)
    (doc : Document) : ∃ final, ties.foldlM (write inst renderNil) doc = .ok final := by
  induction ties generalizing doc with
  | nil => exact ⟨doc, rfl⟩
  | cons tie rest ih =>
    rw [List.forall_mem_cons] at h
    rw [List.foldlM_cons, write_eq_ok_iff.mpr ⟨h.1, rfl⟩]
    exact ih h.2 _

theorem foldlM_write_congr {other : Instance}
    (h : ∀ tie ∈ ties, tie.target.get other = tie.target.get inst) :
    ties.foldlM (write other renderNil) doc = ties.foldlM (write inst renderNil) doc := by
  induction ties generalizing doc with
  | nil => rfl
  | cons tie rest ih =>
    rw [List.forall_mem_cons] at h
    have hwrite : write other renderNil doc tie = write inst renderNil doc tie := by
      unfold write
      rw [← Target.get_eq_held, ← Target.get_eq_held, h.1]
    rw [List.foldlM_cons, List.foldlM_cons, hwrite]
    cases write inst renderNil doc tie with
    | error e => rfl
    | ok next => exact ih h.2

end Tie

/--
The rule as a tie, if it has no functions.
-/
def Rule.tie? (rule : Rule) : Option Tie :=
  match rule.handler with
  | .target target => some ⟨rule.name, target, rule.renderNil⟩
  | _ => none

theorem Rule.tie?_eq_some_iff {rule : Rule} {tie : Tie} : rule.tie? = some tie ↔ rule = tie.rule := by
  rcases rule with ⟨name, handler, renderNil⟩
  rcases tie with ⟨field, target, render⟩
  cases handler <;> simp [tie?, Tie.rule]

theorem RuleDraft.exists_tie {draft : RuleDraft} {rule : Rule} (h : draft.complete = .ok rule)
    (hcustom : rule.custom? = none) :
    ∃ tie : Tie, rule = tie.rule ∧ MappingEntry.rule draft = tie.entry := by
  rcases draft with ⟨name, target, delegate, renderNil, read, write⟩
  unfold complete at h
  split at h
  . cases h
    cases hcustom
  . next hread hwrite =>
    split at h
    . next attributeName htarget =>
      cases h
      cases hread
      cases hwrite
      cases htarget
      exact ⟨⟨name, ⟨attributeName, delegate⟩, renderNil⟩, rfl, rfl⟩
    . cases h
  . cases h

theorem Rule.exists_ties {rules : List Rule} (h : ∀ rule ∈ rules, rule.custom? = none) :
    ∃ ties : List Tie, rules = ties.map Tie.rule := by
  refine ⟨rules.filterMap tie?, ?_⟩
  induction rules with
  | nil => rfl
  | cons rule rest ih =>
    rw [List.forall_mem_cons] at h
    cases htie : rule.tie? with
    | none =>
      rcases rule with ⟨name, handler, renderNil⟩
      cases handler with
      | target target => cases htie
      | custom functions attribute? delegate? => cases h.1
      | group id functions => cases h.1
    | some tie =>
      rw [List.filterMap_cons_some htie, List.map_cons, ← ih h.2]
      rw [← Rule.tie?_eq_some_iff.mp htie]

namespace Mapping

/--
The rules of the mapping are ties of different fields, and no attribute is a target itself and on the
way to another target.
-/
structure Ties (mapping : Mapping) (ties : List Tie) : Prop where
  rules : mapping.rules = ties.map Tie.rule
  distinct : (ties.map (·.field)).Nodup
  apart : Target.Apart (ties.map (·.target))

variable {mapping : Mapping} {ties : List Tie}

theorem value_toDocument_of_rules (h : mapping.rules = ties.map Tie.rule)
    (hformat : mapping.format.isKeyValue = true) (inst : Instance) (renderNil : Bool) :
    (mapping.toDocument inst renderNil).value
      = ties.foldlM (Tie.write inst renderNil) .empty := by
  have hnumbered := Tie.numbered_map_entry ties
  rw [← h] at hnumbered
  rw [Mapping.value_toDocument hnumbered hformat, List.foldlM_map]
  rfl

theorem value_fromDocument_of_rules (h : mapping.rules = ties.map Tie.rule)
    (hformat : mapping.format.isKeyValue = true) (attributes : List Attribute) (doc : Document)
    (inst : Instance) :
    (mapping.fromDocument attributes doc inst).value
      = ties.forM (Tie.read attributes doc) inst := by
  have hnumbered := Tie.numbered_map_entry ties
  rw [← h] at hnumbered
  rw [Mapping.value_fromDocument hnumbered hformat, Tie.readAll_map_entry]

theorem Ties.value_toDocument (h : mapping.Ties ties) (hformat : mapping.format.isKeyValue = true)
    (inst : Instance) (renderNil : Bool) :
    (mapping.toDocument inst renderNil).value
      = ties.foldlM (Tie.write inst renderNil) .empty :=
  value_toDocument_of_rules h.rules hformat inst renderNil

theorem Ties.value_fromDocument (h : mapping.Ties ties)
    (hformat : mapping.format.isKeyValue = true) (attributes : List Attribute) (doc : Document)
    (inst : Instance) :
    (mapping.fromDocument attributes doc inst).value
      = ties.forM (Tie.read attributes doc) inst :=
  value_fromDocument_of_rules h.rules hformat attributes doc inst

end Mapping

namespace Instance

/--
An instance of the model without element order that has the given fields.
-/
structure Filled (inst : Instance) (model : String) (get : String → Option Value) : Prop where
  model_eq : inst.model = model
  order_eq : inst.order = none
  distinct : inst.fields.Distinct
  get?_eq : ∀ name, inst.get? name = get name

theorem filled_new (model : String) : (new model).Filled model fun _ => none :=
  ⟨rfl, rfl, Entries.distinct_empty, fun _ => rfl⟩

theorem Filled.set {inst : Instance} {model : String} {get next : String → Option Value}
    (h : inst.Filled model get) {name : String} {value : Value} (hself : next name = some value)
    (hothers : ∀ other, other ≠ name → next other = get other) :
    (inst.set name value).Filled model next := by
  refine ⟨h.model_eq, h.order_eq, Entries.distinct_insert h.distinct name value, ?_⟩
  intro other
  by_cases heq : other = name
  . rw [heq, get?_set_self, hself]
  . rw [get?_set_of_ne _ _ heq, hothers other heq, h.get?_eq]

/--
The instance has taken up the values of the targets, and nothing else.
-/
structure Holds (attributes : List Attribute) (model : String) (targets : List Target)
    (values : Target → Value) (inst : Instance) : Prop where
  model_eq : inst.model = model
  order_eq : inst.order = none
  distinct : inst.fields.Distinct
  direct : ∀ name, (∀ target ∈ targets, target.delegate ≠ some name) →
    inst.get? name = Target.lookup targets values ⟨name, none⟩
  nested : ∀ name, (∃ target ∈ targets, target.delegate = some name) →
    ∃ inner innerModel, inst.get? name = some (.object inner)
      ∧ Attribute.nested? attributes name = some innerModel
      ∧ inner.Filled innerModel fun field => Target.lookup targets values ⟨field, some name⟩

namespace Holds

variable {attributes : List Attribute} {model : String} {before : List Target}
  {values : Target → Value} {inst : Instance} {target : Target}

theorem new (attributes : List Attribute) (model : String) (values : Target → Value) :
    Holds attributes model [] values (.new model) := by
  refine ⟨rfl, rfl, Entries.distinct_empty, fun _ _ => rfl, ?_⟩
  rintro name ⟨target, htarget, _⟩
  cases htarget

/--
What is held under a delegate stays when another target is set elsewhere.
-/
theorem nested_set (h : Holds attributes model before values inst) {name other : String}
    (hne : other ≠ name) (hdelegate : target.delegate ≠ some other)
    (hother : ∃ target' ∈ before ++ [target], target'.delegate = some other) (value : Value) :
    ∃ inner innerModel, (inst.set name value).get? other = some (.object inner)
      ∧ Attribute.nested? attributes other = some innerModel
      ∧ inner.Filled innerModel fun field =>
          Target.lookup (before ++ [target]) values ⟨field, some other⟩ := by
  have hbefore : ∃ target ∈ before, target.delegate = some other := by
    rcases hother with ⟨target', htarget', heq⟩
    rcases List.mem_append.mp htarget' with htarget' | htarget'
    . exact ⟨target', htarget', heq⟩
    . cases List.mem_singleton.mp htarget'
      exact absurd heq hdelegate
  rcases h.nested other hbefore with ⟨inner, innerModel, hinner, hmodel, hfilled⟩
  refine ⟨inner, innerModel, ?_, hmodel, ?_⟩
  . rw [get?_set_of_ne _ _ hne, hinner]
  . refine ⟨hfilled.model_eq, hfilled.order_eq, hfilled.distinct, ?_⟩
    intro field
    rw [hfilled.get?_eq, Target.lookup_append_of_ne]
    rintro rfl
    exact hdelegate rfl

theorem set_direct {name : String} (h : Holds attributes model before values inst)
    (hapart : Target.Apart (before ++ [⟨name, none⟩])) :
    Holds attributes model (before ++ [⟨name, none⟩]) values
      (inst.set name (values ⟨name, none⟩)) := by
  refine ⟨h.model_eq, h.order_eq, Entries.distinct_insert h.distinct _ _, ?_, ?_⟩
  . intro other hother
    by_cases heq : other = name
    . subst heq
      rw [get?_set_self, Target.lookup_append_self]
    . rw [get?_set_of_ne _ _ heq, Target.lookup_append_of_ne (by simpa using heq)]
      refine h.direct other ?_
      intro target htarget
      exact hother target (List.mem_append_left _ htarget)
  . intro other hother
    refine h.nested_set ?_ (by simp) hother _
    rintro rfl
    rcases hother with ⟨target, htarget, hdelegate⟩
    exact hapart ⟨other, none⟩ (by simp) rfl target htarget hdelegate

theorem get?_eq_none (h : Holds attributes model before values inst) {name : String}
    (hthrough : ∀ target ∈ before, target.delegate ≠ some name)
    (hdirect : ∀ target ∈ before, target.delegate = none → target.name ≠ name) :
    inst.get? name = none := by
  rw [h.direct name hthrough]
  apply if_neg
  intro hmem
  exact hdirect _ hmem rfl rfl

/--
Whether the nested instance is there already or has to be made, it holds the targets so far.
-/
theorem exists_inner {name delegate innerModel : String}
    (h : Holds attributes model before values inst)
    (hmodel : Attribute.nested? attributes delegate = some innerModel)
    (hapart : ∀ target ∈ before, target.delegate = none → target.name ≠ delegate) (value : Value) :
    ∃ inner : Instance,
      (inner.Filled innerModel fun field => Target.lookup before values ⟨field, some delegate⟩)
        ∧ Target.update ⟨name, some delegate⟩ attributes inst value
          = .ok (inst.set delegate (.object (inner.set name value))) := by
  by_cases hbefore : ∃ target ∈ before, target.delegate = some delegate
  . rcases h.nested delegate hbefore with ⟨inner, innerModel', hinner, hmodel', hfilled⟩
    rw [hmodel] at hmodel'
    cases hmodel'
    refine ⟨inner, hfilled, ?_⟩
    simp only [Target.update, Instance.field, hmodel, hinner, Option.getD_some]
  . have hnone (field : String) : Target.lookup before values ⟨field, some delegate⟩ = none := by
      apply if_neg
      intro hmem
      exact hbefore ⟨_, hmem, rfl⟩
    have hget : inst.get? delegate = none := by
      refine h.get?_eq_none ?_ hapart
      intro target htarget hdelegate
      exact hbefore ⟨target, htarget, hdelegate⟩
    refine ⟨.new innerModel, ?_, ?_⟩
    . simp only [hnone]
      exact filled_new innerModel
    . simp only [Target.update, Instance.field, hmodel, hget, Option.getD_none]

theorem set_nested {name delegate innerModel : String}
    (h : Holds attributes model before values inst)
    (hmodel : Attribute.nested? attributes delegate = some innerModel)
    (hapart : Target.Apart (before ++ [⟨name, some delegate⟩])) :
    ∃ next,
      Target.update ⟨name, some delegate⟩ attributes inst (values ⟨name, some delegate⟩) = .ok next
        ∧ Holds attributes model (before ++ [⟨name, some delegate⟩]) values next := by
  have hdelegate : ∀ target ∈ before, target.delegate = none → target.name ≠ delegate := by
    rintro target htarget hdirect rfl
    exact hapart target (List.mem_append_left _ htarget) hdirect
      ⟨name, some target.name⟩ (by simp) rfl
  rcases h.exists_inner hmodel hdelegate (values ⟨name, some delegate⟩)
    with ⟨inner, hfilled, hset⟩
  refine ⟨_, hset, h.model_eq, h.order_eq, Entries.distinct_insert h.distinct _ _, ?_, ?_⟩
  . intro other hother
    have hne : other ≠ delegate := by
      rintro rfl
      exact hother ⟨name, some other⟩ (by simp) rfl
    rw [get?_set_of_ne _ _ hne, Target.lookup_append_of_ne (by simp)]
    refine h.direct other ?_
    intro target htarget
    exact hother target (List.mem_append_left _ htarget)
  . intro other hother
    by_cases heq : other = delegate
    . subst heq
      refine ⟨_, innerModel, get?_set_self .., hmodel, ?_⟩
      apply hfilled.set
      . exact Target.lookup_append_self
      . intro field hfield
        exact Target.lookup_append_of_ne (by simpa using hfield)
    . refine h.nested_set heq ?_ hother _
      intro hdelegate
      exact heq (Option.some.inj hdelegate).symm

/--
The delegates of the targets are declared to hold instances.
-/
theorem exists_assign (h : Holds attributes model before values inst)
    (hlinked : ∀ delegate, target.delegate = some delegate →
      (Attribute.nested? attributes delegate).isSome)
    (hapart : Target.Apart (before ++ [target])) :
    ∃ next, target.assign attributes (values target) inst = .ok () next
      ∧ Holds attributes model (before ++ [target]) values next := by
  rcases target with ⟨name, delegate⟩
  cases delegate with
  | none => exact ⟨_, rfl, h.set_direct hapart⟩
  | some delegate =>
    rcases Option.isSome_iff_exists.mp (hlinked delegate rfl) with ⟨innerModel, hmodel⟩
    rcases h.set_nested hmodel hapart with ⟨next, hset, hnext⟩
    refine ⟨next, ?_, hnext⟩
    rw [Target.assign, hset]

theorem exists_forM_read {doc : Document} {ties : List Tie} {present : Tie → Bool}
    (h : Holds attributes model before values inst)
    (hdoc : ∀ tie ∈ ties,
      doc.get? tie.field = if present tie then some (values tie.target) else none)
    (hlinked : ∀ tie ∈ ties, ∀ delegate, tie.target.delegate = some delegate →
      (Attribute.nested? attributes delegate).isSome)
    (hapart : Target.Apart (before ++ (ties.filter present).map (·.target))) :
    ∃ next, ties.forM (Tie.read attributes doc) inst = .ok () next
      ∧ Holds attributes model (before ++ (ties.filter present).map (·.target)) values next := by
  induction ties generalizing before inst with
  | nil =>
    refine ⟨inst, rfl, ?_⟩
    rw [List.filter_nil, List.map_nil, List.append_nil]
    exact h
  | cons tie rest ih =>
    rw [List.forall_mem_cons] at hdoc hlinked
    cases hpresent : present tie with
    | false =>
      have hread : Tie.read attributes doc tie inst = .ok () inst := by
        rw [Tie.read, hdoc.1, hpresent]
        rfl
      rw [List.filter_cons_of_neg (by simp [hpresent])] at hapart ⊢
      rw [Tie.forM_read_cons hread]
      exact ih h hdoc.2 hlinked.2 hapart
    | true =>
      rw [List.filter_cons_of_pos hpresent, List.map_cons, List.append_cons] at hapart ⊢
      have happend : Target.Apart (before ++ [tie.target]) := by
        refine hapart.subset ?_
        intro target htarget
        exact List.mem_append_left _ htarget
      rcases h.exists_assign hlinked.1 happend with ⟨next, hassign, hnext⟩
      have hread : Tie.read attributes doc tie inst = .ok () next := by
        rw [Tie.read, hdoc.1, hpresent, if_pos rfl]
        exact hassign
      rw [Tie.forM_read_cons hread]
      exact ih hnext hdoc.2 hlinked.2 hapart

/--
What the instance gives back under a target.
-/
theorem get_eq (h : Holds attributes model before values inst)
    (hapart : ∀ other ∈ before, other.delegate = none → target.delegate ≠ some other.name)
    (hdirect : target.delegate = none → ∀ other ∈ before, other.delegate ≠ some target.name) :
    target.get inst = .ok ((Target.lookup before values target).getD .null) := by
  rcases target with ⟨name, delegate⟩
  cases delegate with
  | none =>
    rw [Target.get_of_holder Target.holder_direct, Option.bind_some]
    rw [h.direct name (hdirect rfl)]
  | some delegate =>
    by_cases hbefore : ∃ target ∈ before, target.delegate = some delegate
    . rcases h.nested delegate hbefore with ⟨inner, innerModel, hinner, hmodel, hfilled⟩
      rw [Target.get_of_holder (Target.holder_of_object hinner), Option.bind_some]
      rw [hfilled.get?_eq]
    . have hlookup : Target.lookup before values ⟨name, some delegate⟩ = none := by
        apply if_neg
        intro hmem
        exact hbefore ⟨_, hmem, rfl⟩
      have hget : inst.get? delegate = none := by
        refine h.get?_eq_none ?_ ?_
        . intro target htarget hdelegate
          exact hbefore ⟨target, htarget, hdelegate⟩
        . intro target htarget hdirect heq
          exact hapart target htarget hdirect (congrArg some heq.symm)
      rw [Target.get_of_holder (Target.holder_of_none hget), hlookup]
      rfl

theorem get_eq_of_mem (h : Holds attributes model before values inst)
    (hapart : Target.Apart before) (hmem : target ∈ before) :
    target.get inst = .ok (values target) := by
  rw [h.get_eq]
  . rw [Target.lookup, if_pos hmem]
    rfl
  . intro other hother hdirect
    apply hapart other hother hdirect target hmem
  . intro hdirect other hother
    apply hapart target hmem hdirect other hother

end Holds

end Instance

end ContentModel
