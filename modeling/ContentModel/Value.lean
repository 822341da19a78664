import ContentModel.Binary64
import ContentModel.ElementOrder
import ContentModel.Entries

/-!
This module contains values and instances, the data that a content model speaks about. A value is
what a document reader hands over once scalars are read; an instance is a set of named values that
claims to follow some model. The questions asked here are structural: what kind a value is, whether
it counts as present, how many items it stands for.
-/

namespace ContentModel

mutual

/--
A single materialized value.
-/
inductive Value where
  | null
  | boolean (b : Bool)
  | integer (n : Int64)
  | float (x : Binary64)
  | string (s : String)
  | list (items : List Value)
  | map (entries : Entries Value)
  | object (inst : Instance)

/--
An object of some declared model: its fields in the order they were first set, and the order of its
child elements when the document it came from records one.
-/
structure Instance where
  model : String
  fields : Entries Value
  order : Option ElementOrder

end

instance : Inhabited Value := ⟨.null⟩

/--
A key-value document.
-/
abbrev Document := Entries Value

namespace Value

/--
The kinds of values.
-/
inductive Kind where
  | null
  | boolean
  | integer
  | float
  | string
  | list
  | map
  | object
deriving DecidableEq, Repr

/--
The word for a kind in messages.
-/
def Kind.word : Kind → String
  | .null => "null"
  | .boolean => "boolean"
  | .integer => "integer"
  | .float => "float"
  | .string => "string"
  | .list => "list"
  | .map => "map"
  | .object => "object"

def kind : Value → Kind
  | .null => .null
  | .boolean _ => .boolean
  | .integer _ => .integer
  | .float _ => .float
  | .string _ => .string
  | .list _ => .list
  | .map _ => .map
  | .object _ => .object

def isNull : Value → Bool
  | .null => true
  | _ => false

/--
A value is present unless it is null, an empty list or an empty map. So `false`, zero and the empty
string are present, and so is an object without fields.
-/
def isPresent : Value → Bool
  | .null => false
  | .list items => !items.isEmpty
  | .map entries => !entries.isEmpty
  | _ => true

/--
The number of items a value stands for: a list counts its items, null counts zero and all else
counts one.
-/
def occurrences : Value → Nat
  | .null => 0
  | .list items => items.length
  | _ => 1

def string? : Value → Option String
  | .string s => some s
  | _ => none

def boolean? : Value → Option Bool
  | .boolean b => some b
  | _ => none

def integer? : Value → Option Int64
  | .integer n => some n
  | _ => none

def map? : Value → Option Document
  | .map entries => some entries
  | _ => none

def object? : Value → Option Instance
  | .object inst => some inst
  | _ => none

mutual

/--
Equality of values. Values of different kinds differ; lists compare item by item; maps compare
without regard to the order of their entries; floats compare as numbers.
-/
def beq : Value → Value → Bool
  | .null, .null => true
  | .boolean a, .boolean b => a == b
  | .integer a, .integer b => a == b
  | .float a, .float b => a == b
  | .string a, .string b => a == b
  | .list as, .list bs => beqList as bs
  | .map ⟨as⟩, .map bs => as.length == bs.size && beqEntries as bs
  | .object a, .object b => beqInstance a b
  | _, _ => false
termination_by structural a => a

/--
Equality of instances: the same model name, equal fields in any order and the same element order.
-/
def beqInstance : Instance → Instance → Bool
  | ⟨model, ⟨as⟩, order⟩, b =>
    model == b.model && (as.length == b.fields.size && beqEntries as b.fields) && order == b.order
termination_by structural a => a

/--
Item by item equality of two lists of the same length.
-/
def beqList : List Value → List Value → Bool
  | [], [] => true
  | a :: as, b :: bs => beq a b && beqList as bs
  | _, _ => false
termination_by structural a => a

/--
Every one of the entries has an equal value under its key in `bs`.
-/
def beqEntries : List (String × Value) → Entries Value → Bool
  | [], _ => true
  | (key, a) :: as, bs =>
    (match bs.get? key with
      | some b => beq a b
      | none => false) && beqEntries as bs
termination_by structural a => a

end

instance : BEq Value := ⟨beq⟩

mutual

/--
No key stands twice in any of the maps and instances that the value holds at any depth.
-/
def WellKeyed : Value → Prop
  | .list items => WellKeyedItems items
  | .map ⟨entries⟩ => (⟨entries⟩ : Entries Value).Distinct ∧ WellKeyedEntries entries
  | .object inst => WellKeyedInstance inst
  | _ => True
termination_by structural value => value

def WellKeyedInstance : Instance → Prop
  | ⟨_, ⟨fields⟩, _⟩ => (⟨fields⟩ : Entries Value).Distinct ∧ WellKeyedEntries fields
termination_by structural inst => inst

def WellKeyedItems : List Value → Prop
  | [] => True
  | value :: rest => value.WellKeyed ∧ WellKeyedItems rest
termination_by structural values => values

def WellKeyedEntries : List (String × Value) → Prop
  | [] => True
  | (_, value) :: rest => value.WellKeyed ∧ WellKeyedEntries rest
termination_by structural entries => entries

end

/--
What holds of a value when it holds of all the values in it holds of every value.
-/
@[elab_as_elim]
theorem inductionOn {motive : Value → Prop} (value : Value) (null : motive .null)
    (boolean : ∀ b, motive (.boolean b)) (integer : ∀ n, motive (.integer n))
    (float : ∀ x, motive (.float x)) (string : ∀ s, motive (.string s))
    (list : ∀ items, (∀ value ∈ items, motive value) → motive (.list items))
    (map : ∀ entries : Entries Value, (∀ entry ∈ entries.toList, motive entry.2) →
      motive (.map entries))
    (object : ∀ inst : Instance, (∀ field ∈ inst.fields.toList, motive field.2) →
      motive (.object inst)) :
    motive value := by
  let held (entries : List (String × Value)) : Prop := ∀ entry ∈ entries, motive entry.2
  refine @Value.rec motive (fun inst => held inst.fields.toList)
    (fun items => ∀ value ∈ items, motive value) (fun entries => held entries.toList) held
    (fun entry => motive entry.2) null boolean integer float string list map object
    ?_ ?_ ?_ ?_ ?_ ?_ ?_ value
  . intro model fields order hfields
    exact hfields
  . intro value hmem
    cases hmem
  . intro value rest hvalue hrest
    exact List.forall_mem_cons.mpr ⟨hvalue, hrest⟩
  . intro entries hentries
    exact hentries
  . intro entry hmem
    cases hmem
  . intro entry rest hentry hrest
    exact List.forall_mem_cons.mpr ⟨hentry, hrest⟩
  . intro key value hvalue
    exact hvalue

theorem wellKeyedEntries_iff {entries : List (String × Value)} :
    WellKeyedEntries entries ↔ ∀ entry ∈ entries, entry.2.WellKeyed := by
  induction entries with
  | nil => simp [WellKeyedEntries]
  | cons entry rest ih => rw [WellKeyedEntries, ih, List.forall_mem_cons]

theorem wellKeyed_list_iff {items : List Value} :
    (list items).WellKeyed ↔ ∀ value ∈ items, value.WellKeyed := by
  rw [WellKeyed]
  induction items with
  | nil => simp [WellKeyedItems]
  | cons value rest ih => rw [WellKeyedItems, ih, List.forall_mem_cons]

theorem wellKeyed_map_iff {entries : Entries Value} :
    (map entries).WellKeyed
      ↔ entries.Distinct ∧ ∀ entry ∈ entries.toList, entry.2.WellKeyed := by
  rw [WellKeyed, wellKeyedEntries_iff]

theorem wellKeyed_object_iff {inst : Instance} :
    (object inst).WellKeyed
      ↔ inst.fields.Distinct ∧ ∀ field ∈ inst.fields.toList, field.2.WellKeyed := by
  rcases inst with ⟨model, ⟨fields⟩, order⟩
  rw [WellKeyed, WellKeyedInstance, wellKeyedEntries_iff]

end Value

/--
Types whose members are read as values.
-/
class ToValue (α : Type) where
  toValue : α → Value

export ToValue (toValue)

instance : ToValue Value := ⟨id⟩
instance : ToValue Bool := ⟨.boolean⟩
instance : ToValue Int64 := ⟨.integer⟩
instance : ToValue Int32 := ⟨fun n => .integer n.toInt64⟩
instance : ToValue Binary64 := ⟨.float⟩
instance : ToValue String := ⟨.string⟩
instance : ToValue Document := ⟨.map⟩
instance : ToValue Instance := ⟨.object⟩
instance {α : Type} [ToValue α] : ToValue (List α) := ⟨fun items => .list (items.map toValue)⟩

instance {α : Type} [ToValue α] : ToValue (Option α) where
  toValue
    | none => .null
    | some a => toValue a

namespace Instance

instance : BEq Instance := ⟨Value.beqInstance⟩

/--
An instance without fields.
-/
def new (model : String) : Instance := ⟨model, .empty, none⟩

instance : Inhabited Instance := ⟨new ""⟩

/--
The value of a field, if it was set.
-/
def get? (inst : Instance) (name : String) : Option Value := inst.fields.get? name

/--
Set a field; one that is already set keeps its place.
-/
def set (inst : Instance) (name : String) (value : Value) : Instance :=
  { inst with fields := inst.fields.insert name value }

/--
Drop a field; the others keep their order.
-/
def erase (inst : Instance) (name : String) : Instance :=
  { inst with fields := inst.fields.erase name }

/--
The field is set to a present value.
-/
def isPresent (inst : Instance) (name : String) : Bool :=
  match inst.get? name with
  | some value => value.isPresent
  | none => false

/--
The number of items the field stands for, none when it is not set.
-/
def occurrences (inst : Instance) (name : String) : Nat :=
  match inst.get? name with
  | some value => value.occurrences
  | none => 0

@[simp]
theorem get?_set_self (inst : Instance) (name : String) (value : Value) :
    (inst.set name value).get? name = some value :=
  Entries.get?_insert_self ..

theorem get?_set_of_ne (inst : Instance) {name other : String} (value : Value) (h : other ≠ name) :
    (inst.set name value).get? other = inst.get? other :=
  Entries.get?_insert_of_ne _ _ h

end Instance

end ContentModel
