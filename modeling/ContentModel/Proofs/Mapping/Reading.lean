import ContentModel.Proofs.Mapping.Writing

/-!
This module contains what a reading pass does. It reads the entries that stand alone first and then
each group that has a field in the document, both in the order of the declaration, and it sees nothing
of a document but the fields of the rules.
-/

namespace ContentModel

namespace Entries

variable {α : Type} {e : Entries α} {keys : List String} {key : String}

/--
The entries under some keys, in the order of the keys.
-/
def only (e : Entries α) (keys : List String) : Entries α :=
  ⟨keys.eraseDups.filterMap fun key => (e.get? key).map (key, ·)⟩

theorem get?_filterMap (e : Entries α) (keys : List String) (key : String) :
    get? ⟨keys.filterMap fun key => (e.get? key).map (key, ·)⟩ key
      = if key ∈ keys then e.get? key else none := by
  induction keys with
  | nil => rfl
  | cons first rest ih =>
    by_cases heq : first = key
    . subst heq
      rw [if_pos List.mem_cons_self]
      cases h : e.get? first with
      | none =>
        rw [List.filterMap_cons_none (by rw [h]; rfl), ih, h, ite_self]
      | some value =>
        rw [List.filterMap_cons_some (by rw [h]; rfl)]
        simp [get?, get?.go]
    . simp only [List.mem_cons, Ne.symm heq, false_or]
      rw [← ih]
      cases h : e.get? first with
      | none => rw [List.filterMap_cons_none (by rw [h]; rfl)]
      | some value =>
        rw [List.filterMap_cons_some (by rw [h]; rfl)]
        simp [get?, get?.go, heq]

theorem get?_only (e : Entries α) (keys : List String) (key : String) :
    (e.only keys).get? key = if key ∈ keys then e.get? key else none := by
  rw [only, get?_filterMap]
  simp only [List.mem_eraseDups]

theorem only_append_of_mem (h : key ∈ keys) : e.only (keys ++ [key]) = e.only keys := by
  rw [only, eraseDups_concat, if_pos h]
  rfl

theorem only_append_of_not_mem (h : key ∉ keys) :
    e.only (keys ++ [key])
      = ⟨(e.only keys).toList ++ ((e.get? key).map (key, ·)).toList⟩ := by
  rw [only, eraseDups_concat, if_neg h, List.filterMap_append]
  cases hkey : e.get? key <;> simp [only, hkey]

theorem only_append_of_none (h : e.get? key = none) : e.only (keys ++ [key]) = e.only keys := by
  by_cases hmem : key ∈ keys
  . exact only_append_of_mem hmem
  . rw [only_append_of_not_mem hmem, h]
    simp

theorem insert_only {value : α} (h : e.get? key = some value) :
    (e.only keys).insert key value = e.only (keys ++ [key]) := by
  by_cases hmem : key ∈ keys
  . rw [only_append_of_mem hmem]
    apply insert_of_get?
    rw [get?_only, if_pos hmem, h]
  . rw [only_append_of_not_mem hmem, h]
    apply insert_of_not_mem
    rw [← get?_eq_none_iff, get?_only, if_neg hmem]

end Entries

namespace Collector

variable {groups : Collector} {id : GroupId} {functions : Custom} {values : Document}

/--
The groups with one more behind them, unless there is nothing to hold for it.
-/
def park (groups : Collector) (id : GroupId) (functions : Custom) (values : Document) : Collector :=
  if values.isEmpty then groups else ⟨groups.buckets ++ [(id, ⟨functions, values, false⟩)]⟩

theorem modify_append_of_not_mem (h : id ∉ groups.ids) (bucket : Bucket) (f : Bucket → Bucket) :
    modify ⟨groups.buckets ++ [(id, bucket)]⟩ id f = ⟨groups.buckets ++ [(id, f bucket)]⟩ := by
  unfold modify
  rw [List.map_append, mk.injEq]
  congr 1
  . rw [List.map_congr_left (g := fun entry => entry), List.map_id']
    intro entry hentry
    have hne : entry.1 ≠ id := fun heq => h (List.mem_map.mpr ⟨entry, hentry, heq⟩)
    rw [if_neg hne]
  . simp

theorem isEmpty_insert (values : Document) (field : String) (value : Value) :
    (values.insert field value).isEmpty = false := by
  obtain ⟨l⟩ := values
  cases l with
  | nil => rfl
  | cons head tail =>
    unfold Entries.insert Entries.insert.go Entries.isEmpty
    split <;> rfl

theorem add_grouped (groups : Collector) (id : GroupId) (functions : Custom) (field : String)
    (value : Value) :
    groups.add (.grouped id functions field) value
      = (groups.enter (.grouped id functions field)).modify id fun bucket =>
          { bucket with values := bucket.values.insert field value } := rfl

theorem add_park (h : id ∉ groups.ids) (field : String) (value : Value) :
    (groups.park id functions values).add (.grouped id functions field) value
      = groups.park id functions (values.insert field value) := by
  have hmem (bucket : Bucket) : id ∈ ids ⟨groups.buckets ++ [(id, bucket)]⟩ := by
    rw [ids_append]
    simp
  unfold park
  rw [isEmpty_insert, if_neg Bool.false_ne_true, add_grouped]
  split
  . next hempty =>
    have hvalues : values = .empty := by
      obtain ⟨l⟩ := values
      cases l with
      | nil => rfl
      | cons head tail => cases hempty
    rw [enter_of_not_mem h, modify_append_of_not_mem h, hvalues]
  . rw [enter_of_mem (hmem _), modify_append_of_not_mem h]

theorem value_apply (buckets : List (GroupId × Bucket)) (inst : Instance) :
    (apply ⟨buckets⟩ inst).value
      = (buckets.map fun entry => (entry.2.functions, entry.2.values)).forM
          (fun part => part.1.read (.map part.2)) inst := by
  unfold apply
  induction buckets generalizing inst with
  | nil => rfl
  | cons entry rest ih =>
    rw [apply.go, Logged.value_bind]
    change _ = EStateM.bind (entry.2.functions.read (.map entry.2.values)) _ inst
    unfold EStateM.bind
    cases entry.2.functions.read (.map entry.2.values) inst with
    | ok result inst => exact ih inst
    | error e inst => rfl

end Collector

/--
The model of the instances that an attribute holds, if it is declared to hold any.
-/
def Attribute.nested? (attributes : List Attribute) (name : String) : Option String :=
  (attributes.find? (·.name == name)).bind (·.type.model?)

theorem Instance.set_set (inst : Instance) (name : String) (first last : Value) :
    (inst.set name first).set name last = inst.set name last := by
  simp only [set, Entries.insert_insert]

namespace Target

variable {attributes : List Attribute} {inst inner : Instance} {delegate model : String} {held : Value}

/--
What an instance becomes when a target gets a value. A field of its own is simply set. A delegate has to
be declared to hold instances: one that is null counts as a new instance, and what is no instance is an
error.
-/
def update (target : Target) (attributes : List Attribute) (inst : Instance) (value : Value) :
    Except MappingError Instance :=
  match target.delegate with
  | none => .ok (inst.set target.name value)
  | some delegate =>
    match Attribute.nested? attributes delegate with
    | none => .error (.delegateType delegate)
    | some model =>
      match inst.field delegate with
      | .null => .ok (inst.set delegate (.object ((Instance.new model).set target.name value)))
      | .object inner => .ok (inst.set delegate (.object (inner.set target.name value)))
      | other => .error (.delegateValue delegate (some other.kind))

/--
Give the target a value, or leave the instance alone where that cannot be.
-/
def assign (target : Target) (attributes : List Attribute) (value : Value) :
    EStateM MappingError Instance Unit := fun inst =>
  match target.update attributes inst value with
  | .ok inst => .ok () inst
  | .error e => .error e inst

theorem supply_of_null (h : (inst.get? delegate).all Value.isNull = true) :
    supply delegate model inst = .ok () (inst.set delegate (.object (.new model))) := by
  change (if _ then _ else _ : EStateM MappingError Instance Unit) inst = _
  rw [if_pos h]
  rfl

theorem supply_of_not_null (h : ¬ (inst.get? delegate).all Value.isNull = true) :
    supply delegate model inst = .ok () inst := by
  change (if _ then _ else _ : EStateM MappingError Instance Unit) inst = _
  rw [if_neg h]
  rfl

theorem nested_of_object (h : inst.get? delegate = some (.object inner)) :
    nested delegate inst = .ok inner inst := by
  unfold nested
  dsimp only [bind, EStateM.bind, getThe, MonadStateOf.get, EStateM.get]
  rw [h]
  rfl

theorem nested_of_other (h : inst.get? delegate = some held) (hobject : held.object? = none) :
    nested delegate inst = .error (.delegateValue delegate (some held.kind)) inst := by
  unfold nested
  dsimp only [bind, EStateM.bind, getThe, MonadStateOf.get, EStateM.get]
  rw [h]
  cases held with
  | object inner => cases hobject
  | _ => rfl

theorem reach_of_none (h : Attribute.nested? attributes delegate = none) :
    reach delegate attributes inst = .error (.delegateType delegate) inst := by
  unfold Attribute.nested? at h
  unfold reach
  rw [h]
  rfl

theorem reach_of_some (h : Attribute.nested? attributes delegate = some model) :
    reach delegate attributes = (supply delegate model >>= fun _ => nested delegate) := by
  unfold Attribute.nested? at h
  unfold reach
  rw [h]

theorem reach_of_null (hmodel : Attribute.nested? attributes delegate = some model)
    (h : (inst.get? delegate).all Value.isNull = true) :
    reach delegate attributes inst
      = .ok (.new model) (inst.set delegate (.object (.new model))) := by
  rw [reach_of_some hmodel]
  dsimp only [bind, EStateM.bind]
  rw [supply_of_null h]
  exact nested_of_object (Instance.get?_set_self ..)

theorem reach_of_not_null (hmodel : Attribute.nested? attributes delegate = some model)
    (h : ¬ (inst.get? delegate).all Value.isNull = true) :
    reach delegate attributes inst = nested delegate inst := by
  rw [reach_of_some hmodel]
  dsimp only [bind, EStateM.bind]
  rw [supply_of_not_null h]

/--
Setting a target step by step comes to a single update. The only step that writes before the last one
puts an instance in the place of a missing one, and that instance is then found there. So a step that
fails leaves nothing behind.
-/
theorem set_eq_assign (target : Target) (attributes : List Attribute) (value : Value) :
    target.set attributes value = target.assign attributes value := by
  funext inst
  rcases target with ⟨name, delegate⟩
  unfold set assign update
  cases delegate with
  | none => rfl
  | some delegate =>
    dsimp only [bind, EStateM.bind, Instance.field]
    cases hmodel : Attribute.nested? attributes delegate with
    | none => rw [reach_of_none hmodel]
    | some model =>
      have hmade (h : (inst.get? delegate).all Value.isNull = true) :
          reach delegate attributes inst
            = .ok (.new model) (inst.set delegate (.object (.new model))) :=
        reach_of_null hmodel h
      cases hheld : inst.get? delegate with
      | none =>
        rw [hmade (by rw [hheld]; rfl)]
        exact congrArg (EStateM.Result.ok ()) (Instance.set_set ..)
      | some held =>
        cases held with
        | null =>
          rw [hmade (by rw [hheld]; rfl)]
          exact congrArg (EStateM.Result.ok ()) (Instance.set_set ..)
        | object inner =>
          rw [reach_of_not_null hmodel (by rw [hheld]; exact Bool.false_ne_true)]
          rw [nested_of_object hheld]
          rfl
        | _ =>
          rw [reach_of_not_null hmodel (by rw [hheld]; exact Bool.false_ne_true)]
          rw [nested_of_other hheld rfl]
          rfl

end Target

/--
Read a value by the function of the declared rule, or else into its target.
-/
def RuleDraft.readValue (draft : RuleDraft) (attributes : List Attribute) (value : Value) :
    EStateM MappingError Instance Unit :=
  match draft.read, draft.target with
  | some read, _ => read value
  | none, some name => Target.assign ⟨name, draft.delegate⟩ attributes value
  | none, none => pure ()

theorem RuleDraft.deserialize_of_complete_eq_ok {draft : RuleDraft} {rule : Rule}
    (h : draft.complete = .ok rule) (attributes : List Attribute) (value : Value) :
    rule.deserialize attributes value = draft.readValue attributes value := by
  unfold complete at h
  split at h
  . next hread hwrite =>
    cases h
    rw [readValue, hread]
    rfl
  . next hread hwrite =>
    split at h
    . next htarget =>
      cases h
      rw [readValue, hread, htarget]
      apply Target.set_eq_assign
    . cases h
  . cases h

theorem RuleDraft.name_of_complete_eq_ok {draft : RuleDraft} {rule : Rule}
    (h : draft.complete = .ok rule) : rule.name = draft.name := by
  unfold complete at h
  split at h
  . cases h
    rfl
  . split at h
    . cases h
      rfl
    . cases h
  . cases h

namespace MappingEntry

/--
Read the field of an entry that is no group, if the document has it.
-/
def readAlone (attributes : List Attribute) (doc : Document) :
    MappingEntry → EStateM MappingError Instance Unit
  | .rule draft =>
    match doc.get? draft.name with
    | none => pure ()
    | some value => draft.readValue attributes value
  | .group .. => pure ()

/--
A group with its part of the document, if it has any.
-/
def part? (doc : Document) : MappingEntry → Option (Custom × Document)
  | .rule _ => none
  | .group functions fields =>
    if (doc.only fields).isEmpty then none else some (functions, doc.only fields)

/--
Read the entries that are no groups, and then every group that has a part of the document.
-/
def readAll (attributes : List Attribute) (doc : Document) (entries : List MappingEntry) :
    EStateM MappingError Instance Unit := do
  entries.forM (readAlone attributes doc)
  (entries.filterMap (part? doc)).forM fun part => part.1.read (.map part.2)

end MappingEntry

namespace Mapping

variable {attributes : List Attribute} {doc : Document} {groups : Collector} {rules : List Rule}

theorem readFields_rule {draft : RuleDraft} {rule : Rule} (h : draft.complete = .ok rule) :
    readFields attributes doc groups (rule :: rules)
      = (MappingEntry.readAlone attributes doc (.rule draft) >>= fun _ =>
          readFields attributes doc groups rules) := by
  rw [readFields, RuleDraft.name_of_complete_eq_ok h, MappingEntry.readAlone]
  cases doc.get? draft.name with
  | none => rfl
  | some value =>
    dsimp only
    rw [RuleDraft.group?_of_complete_eq_ok h, RuleDraft.deserialize_of_complete_eq_ok h]
    rfl

theorem readFields_group {id : GroupId} (h : id ∉ groups.ids) (functions : Custom)
    (before fields : List String) :
    readFields attributes doc (groups.park id functions (doc.only before))
        (fields.map (Rule.grouped id functions) ++ rules)
      = readFields attributes doc (groups.park id functions (doc.only (before ++ fields))) rules := by
  induction fields generalizing before with
  | nil => rw [List.append_nil, List.map_nil, List.nil_append]
  | cons field rest ih =>
    rw [List.append_cons, ← ih, List.map_cons, List.cons_append, readFields]
    dsimp only [Rule.grouped]
    cases hvalue : doc.get? field with
    | none => rw [Entries.only_append_of_none hvalue]
    | some value =>
      rw [← Entries.insert_only hvalue, ← Collector.add_park h]
      rfl

/--
What the rules of the entries leave with the collector are the groups with their parts.
-/
theorem exists_readFields_of_numbered {lo hi : Nat} {entries : List MappingEntry}
    (h : MappingEntry.Numbered lo hi entries rules) :
    ∃ buckets : List (GroupId × Bucket),
      buckets.map (fun entry => (entry.2.functions, entry.2.values))
          = entries.filterMap (MappingEntry.part? doc)
        ∧ ∀ groups : Collector, groups.Below lo →
          readFields attributes doc groups rules
            = (entries.forM (MappingEntry.readAlone attributes doc) >>= fun _ =>
                pure ⟨groups.buckets ++ buckets⟩) := by
  induction h with
  | nil h =>
    refine ⟨[], rfl, ?_⟩
    intro groups _
    rw [List.append_nil]
    rfl
  | @rule lo hi draft complete entries rules h rest ih =>
    rcases ih with ⟨buckets, hparts, hread⟩
    refine ⟨buckets, hparts, ?_⟩
    intro groups hgroups
    rw [readFields_rule h, hread groups hgroups, List.forM, bind_assoc]
  | @group lo hi n functions fields entries rules h rest ih =>
    rcases ih with ⟨buckets, hparts, hread⟩
    have hstart (groups : Collector) : groups.park ⟨n⟩ functions (doc.only []) = groups := rfl
    cases hempty : (doc.only fields).isEmpty with
    | true =>
      refine ⟨buckets, ?_, ?_⟩
      . rw [hparts, List.filterMap_cons_none]
        rw [MappingEntry.part?, if_pos hempty]
      . intro groups hgroups
        rw [← hstart groups, readFields_group (hgroups.not_mem h), List.nil_append]
        rw [Collector.park, if_pos hempty, hstart]
        exact hread groups (hgroups.mono (Nat.le_succ_of_le h))
    | false =>
      refine ⟨(⟨n⟩, ⟨functions, doc.only fields, false⟩) :: buckets, ?_, ?_⟩
      . rw [List.map_cons, hparts, List.filterMap_cons_some]
        rw [MappingEntry.part?, hempty, if_neg Bool.false_ne_true]
      . intro groups hgroups
        rw [← hstart groups, readFields_group (hgroups.not_mem h), List.nil_append]
        rw [Collector.park, hempty, if_neg Bool.false_ne_true, hstart]
        rw [hread _ (hgroups.append h _)]
        dsimp only
        rw [List.append_assoc]
        rfl

theorem readFields_congr {other : Document}
    (h : ∀ rule ∈ rules, other.get? rule.name = doc.get? rule.name) :
    readFields attributes other groups rules = readFields attributes doc groups rules := by
  induction rules generalizing groups with
  | nil => rfl
  | cons rule rest ih =>
    rw [List.forall_mem_cons] at h
    unfold readFields
    rw [h.1]
    cases doc.get? rule.name with
    | none => exact ih h.2
    | some value =>
      dsimp only
      rw [ih h.2, ih h.2]

theorem value_fromDocument {mapping : Mapping} {lo hi : Nat} {entries : List MappingEntry}
    (h : MappingEntry.Numbered lo hi entries mapping.rules)
    (hformat : mapping.format.isKeyValue = true) (attributes : List Attribute) (doc : Document)
    (inst : Instance) :
    (mapping.fromDocument attributes doc inst).value
      = MappingEntry.readAll attributes doc entries inst := by
  rcases exists_readFields_of_numbered h with ⟨buckets, hparts, hread⟩
  rw [fromDocument, if_pos hformat, hread .empty (Collector.below_empty lo)]
  rw [MappingEntry.readAll, ← hparts]
  dsimp only [bind, EStateM.bind]
  cases entries.forM (MappingEntry.readAlone attributes doc) inst with
  | ok result inst => exact Collector.value_apply buckets inst
  | error e inst => rfl

end Mapping

/--
Reading a key-value document runs the entries that stand alone and then the groups that have a field in
the document, each one once, up to the first error. All that it sees of the document are the values
under the names of the rules.
-/
theorem Declaration.fromDocument_eq_readAll {declaration : Declaration} {model : Model}
    (h : declaration.build.value = .ok model) {mapping : Mapping} (hmapping : mapping ∈ model.mappings)
    (hformat : mapping.format.isKeyValue = true) (attributes : List Attribute) (doc : Document)
    (inst : Instance) :
    (mapping.fromDocument attributes doc inst).value
        = MappingEntry.readAll attributes doc (declaration.entries mapping.format) inst
      ∧ ∀ other : Document, (∀ rule ∈ mapping.rules, other.get? rule.name = doc.get? rule.name) →
          mapping.fromDocument attributes other inst = mapping.fromDocument attributes doc inst := by
  constructor
  . rcases numbered_of_build h hmapping with ⟨n, hnumbered⟩
    exact mapping.value_fromDocument hnumbered hformat attributes doc inst
  . intro other hsame
    rw [Mapping.fromDocument, Mapping.fromDocument, Mapping.readFields_congr hsame]

theorem invoice_read :
    let mapping := Declaration.invoice.model.mappings[1]
    let attributes := Declaration.invoice.model.attributes
    let inst := Instance.new "Invoice"
    let doc : Document := ⟨[("tax", toValue (5 : Int64)), ("street", toValue "S"),
      ("stamp", toValue true), ("note", toValue "urgent"), ("number", toValue "N1")]⟩
    let other : Document := ⟨[("number", toValue "N1"), ("colour", toValue "red"),
      ("stamp", toValue true), ("street", toValue "S"), ("note", toValue "urgent"),
      ("tax", toValue (5 : Int64))]⟩
    let buyer := (Instance.new "Buyer").set "note" (toValue "urgent")
    (mapping.fromDocument attributes doc inst).value
        = .ok () ⟨"Invoice", ⟨[("number", toValue "N1"), ("buyer", .object buyer),
            ("stamp", toValue true), ("street", toValue "S"), ("tax", toValue (5 : Int64))]⟩, none⟩
      ∧ mapping.fromDocument attributes other inst = mapping.fromDocument attributes doc inst := by
  intro mapping attributes inst doc other buyer
  have hbuild : Declaration.invoice.build.value = .ok Declaration.invoice.model := rfl
  have hmapping : mapping ∈ Declaration.invoice.model.mappings := List.getElem_mem _
  have hnames : mapping.rules.map (·.name)
      = ["number", "street", "town", "tax", "note", "stamp"] := rfl
  have hsame : ∀ rule ∈ mapping.rules, other.get? rule.name = doc.get? rule.name := by
    intro rule hrule
    have hname := List.mem_map_of_mem (f := (·.name)) hrule
    rw [hnames] at hname
    simp only [List.mem_cons, List.not_mem_nil, or_false] at hname
    rcases hname with heq | heq | heq | heq | heq | heq <;> rw [heq] <;> rfl
  have hread := Declaration.fromDocument_eq_readAll hbuild hmapping rfl attributes doc inst
  exact ⟨hread.1, hread.2 other hsame⟩

end ContentModel
