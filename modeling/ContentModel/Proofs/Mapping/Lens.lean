import ContentModel.Proofs.Mapping.Safety

/-!
This module contains the laws of a rule that ties a field to a target. The target is a lens into the
instance: what was set is read again, the last setting counts, setting what is there changes nothing,
and nothing but the target changes. A setting that fails leaves the instance as it was.
-/

namespace ContentModel

namespace Instance

theorem set_of_get? {inst : Instance} {name : String} {value : Value}
    (h : inst.get? name = some value) : inst.set name value = inst := by
  rcases inst with ⟨model, fields, order⟩
  rw [set, Entries.insert_of_get? h]

/--
The two instances differ at most in one field. If only the second one has the field, it comes last.
-/
structure SameBut (name : String) (before after : Instance) : Prop where
  model_eq : after.model = before.model
  order_eq : after.order = before.order
  get?_eq : ∀ other, other ≠ name → after.get? other = before.get? other
  keys_eq : after.fields.keys
    = if name ∈ before.fields.keys then before.fields.keys else before.fields.keys ++ [name]

theorem sameBut_set (inst : Instance) (name : String) (value : Value) :
    SameBut name inst (inst.set name value) :=
  ⟨rfl, rfl, fun _ hother => inst.get?_set_of_ne value hother, inst.fields.keys_insert name value⟩

end Instance

namespace Target

variable {target : Target} {attributes : List Attribute} {inst held next : Instance}
  {value : Value} {e : MappingError}

/--
The instance that the target is set on: the instance itself or the nested one, which is made when it
is not there.
-/
def base (target : Target) (attributes : List Attribute) (inst : Instance) :
    Except MappingError Instance :=
  match target.delegate with
  | none => .ok inst
  | some delegate =>
    match Attribute.nested? attributes delegate with
    | none => .error (.delegateType delegate)
    | some model => (target.holder inst).map (·.getD (.new model))

/--
Put an instance in the place that holds the target.
-/
def embed (target : Target) (inst held : Instance) : Instance :=
  match target.delegate with
  | none => held
  | some delegate => inst.set delegate (.object held)

/--
Updating a target is setting a field of the instance that holds it.
-/
theorem update_eq_map_base :
    target.update attributes inst value
      = (target.base attributes inst).map fun held =>
          target.embed inst (held.set target.name value) := by
  rcases target with ⟨name, delegate⟩
  cases delegate with
  | none => rfl
  | some delegate =>
    unfold update base
    dsimp only [holder, Instance.field]
    cases Attribute.nested? attributes delegate with
    | none => rfl
    | some innerModel =>
      cases inst.get? delegate with
      | none => rfl
      | some other => cases other <;> rfl

theorem holder_eq_error_iff :
    target.holder inst = .error e ↔ inst.blocked? target.delegate = some e := by
  rw [← get_eq_error_iff, get]
  cases target.holder inst <;> simp [bind, Except.bind, pure, Except.pure]

/--
The target cannot be set: its delegate is not declared to hold instances, or holds something else.
-/
def Unreachable (target : Target) (attributes : List Attribute) (inst : Instance) : Prop :=
  ∃ delegate, target.delegate = some delegate
    ∧ (Attribute.nested? attributes delegate = none
      ∨ ∃ value, inst.obstacle? delegate = some value)

theorem exists_base_eq_error_iff :
    (∃ e, target.base attributes inst = .error e) ↔ target.Unreachable attributes inst := by
  unfold base Unreachable
  cases hdelegate : target.delegate with
  | none => simp
  | some delegate =>
    cases hmodel : Attribute.nested? attributes delegate with
    | none => simp [hmodel]
    | some innerModel =>
      have hholder (e : MappingError) :
          (target.holder inst).map (·.getD (.new innerModel)) = .error e
            ↔ ∃ value, inst.obstacle? delegate = some value
              ∧ e = .delegateValue delegate (some value.kind) := by
        calc
          _ ↔ target.holder inst = .error e := by cases target.holder inst <;> simp [Except.map]
          _ ↔ inst.blocked? (some delegate) = some e := by rw [holder_eq_error_iff, hdelegate]
          _ ↔ _ := by simp [Instance.blocked?_eq_some_iff]
      simp only [hholder, Option.some.injEq, exists_eq_left', hmodel, reduceCtorEq, false_or]
      rw [exists_comm]
      simp

theorem holder_embed (target : Target) (inst held : Instance) :
    target.holder (target.embed inst held) = .ok (some held) := by
  rcases target with ⟨name, delegate⟩
  cases delegate with
  | none => rfl
  | some delegate => exact holder_of_object (Instance.get?_set_self ..)

theorem embed_embed (target : Target) (inst first last : Instance) :
    target.embed (target.embed inst first) last = target.embed inst last := by
  rcases target with ⟨name, delegate⟩
  cases delegate with
  | none => rfl
  | some delegate => exact Instance.set_set ..

theorem embed_of_holder (h : target.holder inst = .ok (some held)) :
    target.embed inst held = inst := by
  rcases target with ⟨name, delegate⟩
  cases delegate with
  | none =>
    cases h
    rfl
  | some delegate =>
    apply Instance.set_of_get?
    unfold holder at h
    dsimp only at h
    split at h
    . cases h
    . cases h
    . next hget =>
      cases h
      exact hget
    . cases h

/--
An instance that holds the target already is the one that the target is set on.
-/
theorem eq_of_base_eq_ok {base : Instance} (hbase : target.base attributes inst = .ok base)
    (hheld : target.holder inst = .ok (some held)) : base = held := by
  unfold Target.base at hbase
  split at hbase
  . next hdelegate =>
    unfold holder at hheld
    rw [hdelegate] at hheld
    cases hbase
    cases hheld
    rfl
  . split at hbase
    . cases hbase
    . rw [hheld] at hbase
      cases hbase
      rfl

theorem base_embed (h : target.base attributes inst = .ok held) (next : Instance) :
    target.base attributes (target.embed inst next) = .ok next := by
  unfold base at *
  cases hdelegate : target.delegate with
  | none =>
    unfold embed
    rw [hdelegate]
  | some delegate =>
    rw [hdelegate] at h
    dsimp only at h ⊢
    cases hmodel : Attribute.nested? attributes delegate with
    | none =>
      rw [hmodel] at h
      cases h
    | some innerModel =>
      rw [holder_embed]
      rfl

theorem exists_base_of_update (h : target.update attributes inst value = .ok next) :
    ∃ held, target.base attributes inst = .ok held
      ∧ target.embed inst (held.set target.name value) = next := by
  rw [update_eq_map_base] at h
  cases hbase : target.base attributes inst with
  | error e =>
    rw [hbase] at h
    cases h
  | ok held =>
    rw [hbase] at h
    cases h
    exact ⟨held, rfl, rfl⟩

theorem update_of_base (h : target.base attributes inst = .ok held) (value : Value) :
    target.update attributes inst value = .ok (target.embed inst (held.set target.name value)) := by
  rw [update_eq_map_base, h]
  rfl

theorem get_of_update (h : target.update attributes inst value = .ok next) :
    target.get next = .ok value := by
  rcases exists_base_of_update h with ⟨held, hbase, rfl⟩
  rw [get_of_holder (holder_embed ..), Option.bind_some, Instance.get?_set_self]
  rfl

/--
The last setting counts.
-/
theorem exists_update_of_update (h : target.update attributes inst value = .ok next) (other : Value) :
    ∃ last, target.update attributes next other = .ok last
      ∧ target.update attributes inst other = .ok last := by
  rcases exists_base_of_update h with ⟨held, hbase, rfl⟩
  refine ⟨target.embed inst (held.set target.name other), ?_, update_of_base hbase other⟩
  rw [update_of_base (base_embed hbase _), embed_embed, Instance.set_set]

/--
Setting what is there changes nothing.
-/
theorem update_of_get? {old : Value} (h : target.update attributes inst value = .ok next)
    (hheld : target.holder inst = .ok (some held)) (hold : held.get? target.name = some old) :
    target.update attributes inst old = .ok inst := by
  rcases exists_base_of_update h with ⟨base, hbase, _⟩
  have heq : base = held := eq_of_base_eq_ok hbase hheld
  rw [update_of_base hbase, heq, Instance.set_of_get? hold, embed_of_holder hheld]

/--
The two instances differ at most in the target. A nested instance that holds it counts as one without
fields before it is there.
-/
def SameBut (target : Target) (attributes : List Attribute) (before after : Instance) : Prop :=
  match target.delegate with
  | none => before.SameBut target.name after
  | some delegate =>
    before.SameBut delegate after
      ∧ ∃ inner inner', target.base attributes before = .ok inner
        ∧ after.get? delegate = some (.object inner') ∧ inner.SameBut target.name inner'

theorem sameBut_of_update (h : target.update attributes inst value = .ok next) :
    target.SameBut attributes inst next := by
  rcases exists_base_of_update h with ⟨held, hbase, rfl⟩
  rcases target with ⟨name, delegate⟩
  cases delegate with
  | none =>
    cases hbase
    exact inst.sameBut_set name value
  | some delegate =>
    refine ⟨inst.sameBut_set delegate _, held, held.set name value, hbase, ?_, ?_⟩
    . exact Instance.get?_set_self ..
    . exact held.sameBut_set name value

end Target

namespace Rule

variable {rule : Rule} {target : Target} {attributes : List Attribute} {inst next left : Instance}
  {value : Value} {e : MappingError}

theorem deserialize_eq_assign (h : rule.handler = .target target) :
    rule.deserialize attributes value = target.assign attributes value := by
  unfold deserialize
  rw [h]
  apply Target.set_eq_assign

theorem deserialize_eq_ok_iff (h : rule.handler = .target target) :
    rule.deserialize attributes value inst = .ok () next
      ↔ target.update attributes inst value = .ok next := by
  rw [deserialize_eq_assign h, Target.assign]
  cases target.update attributes inst value <;> simp

theorem deserialize_eq_error_iff (h : rule.handler = .target target) :
    rule.deserialize attributes value inst = .error e left
      ↔ target.base attributes inst = .error e ∧ left = inst := by
  rw [deserialize_eq_assign h, Target.assign, Target.update_eq_map_base]
  cases target.base attributes inst <;> simp [Except.map, @eq_comm _ inst]

theorem serialize_of_get (h : rule.handler = .target target) (hget : target.get inst = .ok value)
    (doc : Document) : rule.serialize inst doc = .ok (some value) doc := by
  unfold serialize
  rw [h]
  dsimp only
  rw [hget]
  rfl

/--
A rule that ties a field to a target is a lens. Reading fails exactly where the target is out of
reach, and changes nothing then. What it has read is written again, the last value read counts,
reading what the rule writes for a target that is set changes nothing, and nothing but the target
changes.
-/
theorem lens_of_target (h : rule.handler = .target target) (attributes : List Attribute)
    (inst : Instance) (value : Value) :
    ((∃ e left, rule.deserialize attributes value inst = .error e left)
        ↔ target.Unreachable attributes inst)
      ∧ (∀ e left, rule.deserialize attributes value inst = .error e left → left = inst)
      ∧ ∀ next, rule.deserialize attributes value inst = .ok () next →
        (∀ doc, rule.serialize next doc = .ok (some value) doc)
          ∧ (∀ other, ∃ last, rule.deserialize attributes other next = .ok () last
            ∧ rule.deserialize attributes other inst = .ok () last)
          ∧ (∀ held old, target.holder inst = .ok (some held) → held.get? target.name = some old →
            (∀ doc, rule.serialize inst doc = .ok (some old) doc)
              ∧ rule.deserialize attributes old inst = .ok () inst)
          ∧ target.SameBut attributes inst next := by
  refine ⟨?_, ?_, ?_⟩
  . rw [← Target.exists_base_eq_error_iff]
    simp [deserialize_eq_error_iff h]
  . intro e left herror
    exact ((deserialize_eq_error_iff h).mp herror).2
  . intro next hok
    have hset : target.update attributes inst value = .ok next := (deserialize_eq_ok_iff h).mp hok
    refine ⟨?_, ?_, ?_, ?_⟩
    . intro doc
      exact serialize_of_get h (Target.get_of_update hset) doc
    . intro other
      simp only [deserialize_eq_ok_iff h]
      exact Target.exists_update_of_update hset other
    . intro held old hheld hold
      refine ⟨?_, ?_⟩
      . intro doc
        apply serialize_of_get h
        rw [Target.get_of_holder hheld, Option.bind_some, hold]
        rfl
      . rw [deserialize_eq_ok_iff h]
        exact Target.update_of_get? hset hheld hold
    . exact Target.sameBut_of_update hset

/--
The rule of a field for the name of the owner, who is a nested instance.
-/
def ownerName : Rule := ⟨"name", .target ⟨"name", some "owner"⟩, none⟩

theorem ownerName_renamed :
    let attributes : List Attribute := [⟨"owner", .model "Person", .one⟩]
    let person (name : String) : Value := .object ((Instance.new "Person").set "name" (toValue name))
    let parcel := (Instance.new "Parcel").set "weight" (.integer 5)
    let held := (parcel.set "owner" (person "Bob")).set "label" (toValue "fragile")
    let unknown := parcel.set "owner" .null
    let broken := parcel.set "owner" (toValue "Bob")
    let ada := toValue "Ada"
    ownerName.deserialize attributes ada held = .ok () (held.set "owner" (person "Ada"))
      ∧ (∀ doc, ownerName.serialize (held.set "owner" (person "Ada")) doc = .ok (some ada) doc)
      ∧ ownerName.deserialize attributes (toValue "Bob") held = .ok () held
      ∧ (∀ doc, ownerName.serialize (unknown.set "owner" (person "Ada")) doc = .ok (some ada) doc)
      ∧ (∃ e, ownerName.deserialize attributes ada broken = .error e broken)
      ∧ ∃ e, ownerName.deserialize [] ada held = .error e held := by
  intro attributes person parcel held unknown broken ada
  have htarget : ownerName.handler = .target ⟨"name", some "owner"⟩ := rfl
  have hheld : ownerName.deserialize attributes ada held
    = .ok () (held.set "owner" (person "Ada")) := rfl
  have hunknown : ownerName.deserialize attributes ada unknown
    = .ok () (unknown.set "owner" (person "Ada")) := rfl
  have laws := (lens_of_target htarget attributes held ada).2.2 _ hheld
  refine ⟨hheld, laws.1, ?_, ?_, ?_, ?_⟩
  . exact (laws.2.2.1 _ (toValue "Bob") rfl rfl).2
  . exact ((lens_of_target htarget attributes unknown ada).2.2 _ hunknown).1
  . have hbroken := lens_of_target htarget attributes broken ada
    rcases hbroken.1.mpr ⟨"owner", rfl, .inr ⟨toValue "Bob", rfl⟩⟩ with ⟨e, left, herror⟩
    cases hbroken.2.1 e left herror
    exact ⟨e, herror⟩
  . have hundeclared := lens_of_target htarget [] held ada
    rcases hundeclared.1.mpr ⟨"owner", rfl, .inl rfl⟩ with ⟨e, left, herror⟩
    cases hundeclared.2.1 e left herror
    exact ⟨e, herror⟩

end Rule

end ContentModel
