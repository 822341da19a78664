import ContentModel.Token

/-!
This module contains what is left of a value when it is encoded and decoded again: the same value
with a map in the place of each nested instance.
-/

namespace ContentModel

namespace Token

mutual

/--
Every list and map of the token tree announces the number of items or entries that follow.
-/
def Announced : Token → Prop
  | .some token => token.Announced
  | .newtype token => token.Announced
  | .enum variant content => variant.Announced ∧ content.Announced
  | .seq hint items => hint = Option.some items.length ∧ AnnouncedItems items
  | .map hint entries => hint = Option.some entries.length ∧ AnnouncedEntries entries
  | _ => True
termination_by structural token => token

def AnnouncedItems : List Token → Prop
  | [] => True
  | token :: rest => token.Announced ∧ AnnouncedItems rest
termination_by structural tokens => tokens

def AnnouncedEntries : List (Token × Token) → Prop
  | [] => True
  | (name, token) :: rest => name.Announced ∧ token.Announced ∧ AnnouncedEntries rest
termination_by structural entries => entries

end

theorem announcedItems_iff {items : List Token} :
    AnnouncedItems items ↔ ∀ token ∈ items, token.Announced := by
  induction items with
  | nil => simp [AnnouncedItems]
  | cons token rest ih => rw [AnnouncedItems, ih, List.forall_mem_cons]

theorem announcedEntries_iff {entries : List (Token × Token)} :
    AnnouncedEntries entries ↔ ∀ entry ∈ entries, entry.1.Announced ∧ entry.2.Announced := by
  induction entries with
  | nil => simp [AnnouncedEntries]
  | cons entry rest ih => rw [AnnouncedEntries, ih, List.forall_mem_cons, and_assoc]

end Token

namespace Value

mutual

/--
The value with a map in the place of each nested instance, which holds the fields that are not null.
-/
def plain : Value → Value
  | .list items => .list (plainItems items)
  | .map ⟨entries⟩ => .map ⟨plainEntries entries⟩
  | .object inst => .map (plainInstance inst)
  | value => value
termination_by structural value => value

def plainInstance : Instance → Document
  | ⟨_, ⟨fields⟩, _⟩ => ⟨plainFields fields⟩
termination_by structural inst => inst

def plainItems : List Value → List Value
  | [] => []
  | value :: rest => value.plain :: plainItems rest
termination_by structural values => values

def plainEntries : List (String × Value) → List (String × Value)
  | [] => []
  | (name, value) :: rest => (name, value.plain) :: plainEntries rest
termination_by structural entries => entries

def plainFields : List (String × Value) → List (String × Value)
  | [] => []
  | (name, value) :: rest =>
    if value.isNull then plainFields rest else (name, value.plain) :: plainFields rest
termination_by structural fields => fields

end

mutual

/--
No instance is held at any depth.
-/
def InstanceFree : Value → Prop
  | .list items => InstanceFreeItems items
  | .map ⟨entries⟩ => InstanceFreeEntries entries
  | .object _ => False
  | _ => True
termination_by structural value => value

def InstanceFreeItems : List Value → Prop
  | [] => True
  | value :: rest => value.InstanceFree ∧ InstanceFreeItems rest
termination_by structural values => values

def InstanceFreeEntries : List (String × Value) → Prop
  | [] => True
  | (_, value) :: rest => value.InstanceFree ∧ InstanceFreeEntries rest
termination_by structural entries => entries

end

theorem instanceFree_list_iff {items : List Value} :
    (list items).InstanceFree ↔ ∀ value ∈ items, value.InstanceFree := by
  rw [InstanceFree]
  induction items with
  | nil => simp [InstanceFreeItems]
  | cons value rest ih => rw [InstanceFreeItems, ih, List.forall_mem_cons]

theorem instanceFree_map_iff {entries : Entries Value} :
    (map entries).InstanceFree ↔ ∀ entry ∈ entries.toList, entry.2.InstanceFree := by
  rcases entries with ⟨entries⟩
  rw [InstanceFree]
  induction entries with
  | nil => simp [InstanceFreeEntries]
  | cons entry rest ih => rw [InstanceFreeEntries, ih, List.forall_mem_cons]

/--
The fields that are not null.
-/
def shown (fields : Entries Value) : List (String × Value) :=
  fields.toList.filter fun field => !field.2.isNull

/--
The entries with their values made plain.
-/
def plainPairs (entries : List (String × Value)) : List (String × Value) :=
  entries.map fun entry => (entry.1, entry.2.plain)

theorem plain_list (items : List Value) : (list items).plain = .list (items.map plain) := by
  rw [plain]
  refine congrArg list ?_
  induction items with
  | nil => rfl
  | cons value rest ih => rw [plainItems, ih, List.map_cons]

theorem plain_map (entries : Entries Value) :
    (map entries).plain = .map ⟨plainPairs entries.toList⟩ := by
  rcases entries with ⟨entries⟩
  rw [plain]
  refine congrArg (map ∘ Entries.mk) ?_
  induction entries with
  | nil => rfl
  | cons entry rest ih =>
    rw [plainEntries, ih]
    rfl

theorem plain_object (inst : Instance) :
    (object inst).plain = .map ⟨plainPairs (shown inst.fields)⟩ := by
  rcases inst with ⟨model, ⟨fields⟩, order⟩
  rw [plain, plainInstance]
  refine congrArg (map ∘ Entries.mk) ?_
  unfold shown plainPairs
  induction fields with
  | nil => rfl
  | cons field rest ih =>
    rw [plainFields, ih, List.filter_cons]
    cases field.2.isNull <;> rfl

/--
The entries with their keys and values as tokens.
-/
def encodePairs (entries : List (String × Value)) : List (Token × Token) :=
  entries.map fun entry => (.string entry.1, entry.2.encode)

theorem encode_list (items : List Value) :
    (list items).encode = .seq (some items.length) (items.map encode) := by
  rw [encode]
  refine congrArg (Token.seq _) ?_
  induction items with
  | nil => rfl
  | cons value rest ih => rw [encodeItems, ih, List.map_cons]

theorem encode_map (entries : Entries Value) :
    (map entries).encode = .map (some entries.toList.length) (encodePairs entries.toList) := by
  rcases entries with ⟨entries⟩
  rw [encode]
  refine congrArg (Token.map _) ?_
  induction entries with
  | nil => rfl
  | cons entry rest ih =>
    rw [encodeEntries, ih]
    rfl

theorem encode_object (inst : Instance) :
    (object inst).encode
      = .map (some (shown inst.fields).length) (encodePairs (shown inst.fields)) := by
  rcases inst with ⟨model, ⟨fields⟩, order⟩
  have hfields : encodeFields fields = encodePairs (shown ⟨fields⟩) := by
    unfold shown encodePairs
    induction fields with
    | nil => rfl
    | cons field rest ih =>
      rw [encodeFields, ih, List.filter_cons]
      cases field.2.isNull <;> rfl
  rw [encode, encodeInstance, hfields]
  unfold encodePairs
  rw [List.length_map]

theorem mem_of_mem_shown {fields : Entries Value} {field : String × Value}
    (h : field ∈ shown fields) : field ∈ fields.toList :=
  (List.mem_filter.mp h).1

theorem map_fst_plainPairs (entries : List (String × Value)) :
    (plainPairs entries).map Prod.fst = entries.map Prod.fst := by
  unfold plainPairs
  rw [List.map_map]
  rfl

theorem distinct_plainPairs {entries : List (String × Value)} (h : (entries.map Prod.fst).Nodup) :
    (⟨plainPairs entries⟩ : Document).Distinct := by
  unfold Entries.Distinct Entries.keys
  rw [map_fst_plainPairs]
  exact h

theorem encodePairs_plainPairs {entries : List (String × Value)}
    (h : ∀ entry ∈ entries, entry.2.plain.encode = entry.2.encode) :
    encodePairs (plainPairs entries) = encodePairs entries := by
  unfold encodePairs plainPairs
  rw [List.map_map]
  apply List.map_congr_left
  intro entry hmem
  exact congrArg (Prod.mk _) (h entry hmem)

theorem decodeItems_map_encode {items : List Value}
    (h : ∀ value ∈ items, value.encode.decode = .ok value.plain) :
    Token.decodeItems .ample (items.map encode) = .ok (items.map plain) := by
  induction items with
  | nil => rfl
  | cons value rest ih =>
    rw [List.forall_mem_cons] at h
    rw [List.map_cons, Token.decodeItems, h.1, ih h.2]
    rfl

theorem decodeEntries_encodePairs {entries : List (String × Value)}
    (h : ∀ entry ∈ entries, entry.2.encode.decode = .ok entry.2.plain) :
    Token.decodeEntries .ample (encodePairs entries) = .ok (plainPairs entries) := by
  induction entries with
  | nil => rfl
  | cons entry rest ih =>
    rw [List.forall_mem_cons] at h
    have hrest := ih h.2
    unfold encodePairs at hrest ⊢
    rw [List.map_cons, Token.decodeEntries, h.1, hrest]
    rfl

/--
The keys differ, so that no entry is merged into another on the way back.
-/
theorem decode_map_encodePairs {entries : List (String × Value)} {hint : Option Nat}
    (hdistinct : (entries.map Prod.fst).Nodup)
    (h : ∀ entry ∈ entries, entry.2.encode.decode = .ok entry.2.plain) :
    (Token.map hint (encodePairs entries)).decode = .ok (.map ⟨plainPairs entries⟩) := by
  have hlist := Entries.ofList_toList (distinct_plainPairs hdistinct)
  rw [Token.decode, Token.reserve_entries_ample, decodeEntries_encodePairs h]
  exact congrArg (Except.ok ∘ Value.map) hlist

theorem decode_encode (value : Value) (h : value.WellKeyed) :
    value.encode.decode = .ok value.plain := by
  induction value using inductionOn with
  | null | boolean | integer | float | string => rfl
  | list items ih =>
    rw [wellKeyed_list_iff] at h
    rw [encode_list, plain_list, Token.decode, Token.reserve_items_ample]
    rw [decodeItems_map_encode fun value hmem => ih value hmem (h value hmem)]
    rfl
  | map entries ih =>
    rw [wellKeyed_map_iff] at h
    rw [encode_map, plain_map]
    apply decode_map_encodePairs h.1
    intro entry hmem
    exact ih entry hmem (h.2 entry hmem)
  | object inst ih =>
    rw [wellKeyed_object_iff] at h
    rw [encode_object, plain_object]
    apply decode_map_encodePairs
    . apply (List.filter_sublist.map Prod.fst).nodup h.1
    . intro field hmem
      have hfield := mem_of_mem_shown hmem
      exact ih field hfield (h.2 field hfield)

theorem encode_plain (value : Value) : value.plain.encode = value.encode := by
  induction value using inductionOn with
  | null | boolean | integer | float | string => rfl
  | list items ih =>
    have hitems : (items.map plain).map encode = items.map encode := by
      rw [List.map_map]
      apply List.map_congr_left ih
    rw [plain_list, encode_list, encode_list, hitems, List.length_map]
  | map entries ih =>
    rw [plain_map, encode_map, encode_map, encodePairs_plainPairs ih]
    unfold plainPairs
    rw [List.length_map]
  | object inst ih =>
    rw [plain_object, encode_map, encode_object]
    rw [encodePairs_plainPairs fun field hmem => ih field (mem_of_mem_shown hmem)]
    unfold plainPairs
    rw [List.length_map]

theorem announced_map_encodePairs {entries : List (String × Value)}
    (h : ∀ entry ∈ entries, entry.2.encode.Announced) :
    (Token.map (some entries.length) (encodePairs entries)).Announced := by
  rw [Token.Announced, Token.announcedEntries_iff]
  unfold encodePairs
  rw [List.length_map, List.forall_mem_map]
  refine ⟨rfl, ?_⟩
  intro entry hmem
  exact ⟨trivial, h entry hmem⟩

theorem announced_encode (value : Value) : value.encode.Announced := by
  induction value using inductionOn with
  | null | boolean | integer | float | string => trivial
  | list items ih =>
    rw [encode_list, Token.Announced, Token.announcedItems_iff, List.length_map]
    rw [List.forall_mem_map]
    exact ⟨rfl, ih⟩
  | map entries ih =>
    rw [encode_map]
    apply announced_map_encodePairs ih
  | object inst ih =>
    rw [encode_object]
    apply announced_map_encodePairs
    intro field hmem
    apply ih field (mem_of_mem_shown hmem)

theorem instanceFree_plainPairs {entries : List (String × Value)}
    (h : ∀ entry ∈ entries, entry.2.plain.InstanceFree) :
    (map ⟨plainPairs entries⟩).InstanceFree := by
  rw [instanceFree_map_iff]
  unfold plainPairs
  rw [List.forall_mem_map]
  exact h

theorem instanceFree_plain (value : Value) : value.plain.InstanceFree := by
  induction value using inductionOn with
  | null | boolean | integer | float | string => trivial
  | list items ih =>
    rw [plain_list, instanceFree_list_iff, List.forall_mem_map]
    exact ih
  | map entries ih =>
    rw [plain_map]
    apply instanceFree_plainPairs ih
  | object inst ih =>
    rw [plain_object]
    apply instanceFree_plainPairs
    intro field hmem
    apply ih field (mem_of_mem_shown hmem)

theorem plain_of_instanceFree (value : Value) (h : value.InstanceFree) : value.plain = value := by
  induction value using inductionOn with
  | null | boolean | integer | float | string => rfl
  | list items ih =>
    rw [instanceFree_list_iff] at h
    rw [plain_list, List.map_congr_left fun value hmem => ih value hmem (h value hmem)]
    rw [List.map_id']
  | map entries ih =>
    rw [instanceFree_map_iff] at h
    have hpairs : plainPairs entries.toList = entries.toList.map id := by
      apply List.map_congr_left
      intro entry hmem
      exact congrArg (Prod.mk entry.1) (ih entry hmem (h entry hmem))
    rw [plain_map, hpairs, List.map_id]
  | object inst ih => cases h

/--
Decoding what a value was encoded to gives the value back but for its instances, which come back as
maps of their fields.
-/
theorem decode_encode_of_wellKeyed {value : Value} (h : value.WellKeyed) :
    value.encode.decode = .ok value.plain
      ∧ value.plain.InstanceFree ∧ (value.InstanceFree → value.encode.decode = .ok value)
      ∧ value.plain.encode = value.encode ∧ value.encode.Announced := by
  have hdecode := decode_encode value h
  refine ⟨hdecode, instanceFree_plain value, ?_, encode_plain value, announced_encode value⟩
  intro hfree
  rw [hdecode, plain_of_instanceFree value hfree]

def delivery : Instance where
  model := "Delivery"
  fields := ⟨[
    ("weight", .float ⟨0x7ff8000000000001⟩),
    ("note", .null),
    ("lines", .list [
      .object ⟨"Line", ⟨[("sku", .string "A1"), ("gift", .null)]⟩, none⟩,
      .map ⟨[("stock", .integer (-9223372036854775808)), ("shelf", .null)]⟩])]⟩
  order := some ⟨["lines"], false⟩

theorem delivery_decoded :
    let back : Value := .map ⟨[
      ("weight", .float ⟨0x7ff8000000000001⟩),
      ("lines", .list [
        .map ⟨[("sku", .string "A1")]⟩,
        .map ⟨[("stock", .integer (-9223372036854775808)), ("shelf", .null)]⟩])]⟩
    (object delivery).WellKeyed ∧ (object delivery).encode.decode = .ok back
      ∧ back.encode = (object delivery).encode := by
  intro back
  have hkeyed : (object delivery).WellKeyed := by
    simp [delivery, WellKeyed, WellKeyedInstance, WellKeyedEntries, WellKeyedItems,
      Entries.Distinct, Entries.keys]
  rcases decode_encode_of_wellKeyed hkeyed with ⟨hdecode, _, _, hencode, _⟩
  exact ⟨hkeyed, hdecode, hencode⟩

end Value

end ContentModel
