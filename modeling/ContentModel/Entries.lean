/-!
This module contains `Entries`, an association list that remembers the order in which its keys
first came in. Writing to a key that is already there replaces the value in place; removing a key
keeps the order of the others.
-/

namespace ContentModel

/--
Keyed values in the order in which their keys were first inserted.
-/
structure Entries (α : Type) where
  toList : List (String × α)
deriving Inhabited, Repr, DecidableEq

namespace Entries

variable {α : Type}

/--
No entries at all.
-/
def empty : Entries α := ⟨[]⟩

instance : EmptyCollection (Entries α) := ⟨empty⟩

/--
The number of entries.
-/
def size (e : Entries α) : Nat := e.toList.length

def isEmpty (e : Entries α) : Bool := e.toList.isEmpty

/--
The keys in entry order.
-/
def keys (e : Entries α) : List String := e.toList.map Prod.fst

/--
No key stands twice.
-/
def Distinct (e : Entries α) : Prop := e.keys.Nodup

/--
The value under a key: the first one, when `toList` was built with repeated keys.
-/
def get? (e : Entries α) (key : String) : Option α :=
  go e.toList
where
  go : List (String × α) → Option α
    | [] => none
    | (k, v) :: rest => if k = key then some v else go rest

def contains (e : Entries α) (key : String) : Bool :=
  (e.get? key).isSome

/--
Put a value under a key: in place when the key is there, at the end otherwise.
-/
def insert (e : Entries α) (key : String) (value : α) : Entries α :=
  ⟨go e.toList⟩
where
  go : List (String × α) → List (String × α)
    | [] => [(key, value)]
    | (k, v) :: rest => if k = key then (k, value) :: rest else (k, v) :: go rest

/--
Drop the entry under a key.
-/
def erase (e : Entries α) (key : String) : Entries α :=
  ⟨e.toList.filter (·.1 != key)⟩

/--
Insert pairs one after the other.
-/
def insertAll (e : Entries α) (pairs : List (String × α)) : Entries α :=
  pairs.foldl (fun e pair => e.insert pair.1 pair.2) e

/--
The entries that inserting pairs one after the other builds: a repeated key keeps its first place
and takes its last value.
-/
def ofList (pairs : List (String × α)) : Entries α :=
  empty.insertAll pairs

@[simp]
theorem toList_empty : (empty : Entries α).toList = [] := rfl

@[simp]
theorem get?_empty (key : String) : (empty : Entries α).get? key = none := rfl

theorem get?_eq_none_iff (e : Entries α) (key : String) : e.get? key = none ↔ key ∉ e.keys := by
  obtain ⟨l⟩ := e
  simp only [get?, keys]
  induction l with
  | nil => simp [get?.go]
  | cons head tail ih =>
    obtain ⟨k, v⟩ := head
    by_cases h : k = key
    . simp [get?.go, h]
    . have h' : ¬ key = k := fun he => h he.symm
      simp only [get?.go, h, if_false, ih, List.map_cons, List.mem_cons, h', false_or]

@[simp]
theorem get?_insert_self (e : Entries α) (key : String) (value : α) :
    (e.insert key value).get? key = some value := by
  obtain ⟨l⟩ := e
  simp only [get?, insert]
  induction l with
  | nil => simp [insert.go, get?.go]
  | cons head tail ih =>
    obtain ⟨k, v⟩ := head
    by_cases h : k = key <;> simp [insert.go, get?.go, h, ih]

theorem get?_insert_of_ne (e : Entries α) {key other : String} (value : α) (h : other ≠ key) :
    (e.insert key value).get? other = e.get? other := by
  obtain ⟨l⟩ := e
  simp only [get?, insert]
  induction l with
  | nil => simp [insert.go, get?.go, h.symm]
  | cons head tail ih =>
    obtain ⟨k, v⟩ := head
    by_cases hk : k = key
    . subst hk
      simp [insert.go, get?.go, h.symm]
    . simp [insert.go, get?.go, hk, ih]

theorem keys_insert (e : Entries α) (key : String) (value : α) :
    (e.insert key value).keys = if key ∈ e.keys then e.keys else e.keys ++ [key] := by
  obtain ⟨l⟩ := e
  simp only [keys, insert]
  induction l with
  | nil => simp [insert.go]
  | cons head tail ih =>
    obtain ⟨k, v⟩ := head
    by_cases hk : k = key
    . simp [insert.go, hk]
    . have hk' : ¬ key = k := fun he => hk he.symm
      simp only [insert.go, hk, if_false, List.map_cons, ih, List.mem_cons, hk', false_or]
      split <;> simp_all

theorem insert_of_not_mem {e : Entries α} {key : String} (h : key ∉ e.keys) (value : α) :
    e.insert key value = ⟨e.toList ++ [(key, value)]⟩ := by
  obtain ⟨l⟩ := e
  simp only [keys] at h
  simp only [insert, mk.injEq]
  induction l with
  | nil => rfl
  | cons head tail ih =>
    obtain ⟨k, v⟩ := head
    rw [List.map_cons, List.mem_cons, not_or] at h
    have hk : ¬ k = key := fun he => h.1 he.symm
    simp only [insert.go, hk, if_false, ih h.2, List.cons_append]

theorem insert_of_get? {e : Entries α} {key : String} {value : α} (h : e.get? key = some value) :
    e.insert key value = e := by
  obtain ⟨l⟩ := e
  simp only [get?] at h
  simp only [insert, mk.injEq]
  induction l with
  | nil => cases h
  | cons head tail ih =>
    obtain ⟨k, v⟩ := head
    rw [get?.go] at h
    rw [insert.go]
    split at h
    . next hk =>
      cases h
      rw [if_pos hk]
    . next hk => rw [if_neg hk, ih h]

theorem insert_insert (e : Entries α) (key : String) (first last : α) :
    (e.insert key first).insert key last = e.insert key last := by
  obtain ⟨l⟩ := e
  simp only [insert, mk.injEq]
  induction l with
  | nil => simp [insert.go]
  | cons head tail ih =>
    obtain ⟨k, v⟩ := head
    by_cases hk : k = key <;> simp [insert.go, hk, ih]

theorem distinct_empty : (empty : Entries α).Distinct := by
  simp [Distinct, keys]

theorem distinct_insert {e : Entries α} (h : e.Distinct) (key : String) (value : α) :
    (e.insert key value).Distinct := by
  simp only [Distinct, keys_insert] at *
  split
  . exact h
  . rename_i hmem
    simp only [List.nodup_append, List.nodup_cons, List.not_mem_nil, not_false_eq_true,
      List.nodup_nil, and_self, List.mem_singleton, forall_eq, h, true_and]
    intro a ha he
    exact hmem (he ▸ ha)

theorem distinct_insertAll {e : Entries α} (h : e.Distinct) (pairs : List (String × α)) :
    (e.insertAll pairs).Distinct := by
  induction pairs generalizing e with
  | nil => exact h
  | cons head tail ih => exact ih (distinct_insert h head.1 head.2)

theorem distinct_ofList (pairs : List (String × α)) : (ofList pairs).Distinct :=
  distinct_insertAll distinct_empty pairs

theorem insertAll_of_nodup {e : Entries α} {pairs : List (String × α)}
    (h : (e.keys ++ pairs.map Prod.fst).Nodup) : e.insertAll pairs = ⟨e.toList ++ pairs⟩ := by
  induction pairs generalizing e with
  | nil =>
    rw [List.append_nil]
    rfl
  | cons head tail ih =>
    have hmem : head.1 ∉ e.keys := by
      intro hmem
      have hdisjoint := (List.nodup_append.mp h).2.2
      apply hdisjoint _ hmem _ List.mem_cons_self rfl
    have hinsert : e.insert head.1 head.2 = ⟨e.toList ++ [head]⟩ := insert_of_not_mem hmem head.2
    calc
      _ = (e.insert head.1 head.2).insertAll tail := rfl
      _ = ⟨e.toList ++ [head] ++ tail⟩ := by
        rw [hinsert]
        apply ih
        simpa [keys] using h
      _ = ⟨e.toList ++ head :: tail⟩ := by rw [← List.append_cons]

theorem ofList_toList {e : Entries α} (h : e.Distinct) : ofList e.toList = e :=
  insertAll_of_nodup h

theorem get?_eq_some_iff {e : Entries α} (h : e.Distinct) (key : String) (value : α) :
    e.get? key = some value ↔ (key, value) ∈ e.toList := by
  obtain ⟨l⟩ := e
  simp only [Distinct, keys] at h
  simp only [get?]
  induction l with
  | nil => simp [get?.go]
  | cons head tail ih =>
    obtain ⟨k, v⟩ := head
    rw [List.map_cons, List.nodup_cons] at h
    by_cases hk : k = key
    . subst hk
      have hmem : (k, value) ∉ tail := fun hmem => h.1 (List.mem_map.mpr ⟨_, hmem, rfl⟩)
      simp [get?.go, hmem, eq_comm]
    . have hk' : ¬ key = k := fun he => hk he.symm
      simp [get?.go, hk, hk', ih h.2]

theorem get?_eq_of_perm {e other : Entries α} (h : e.Distinct) (hperm : e.toList.Perm other.toList)
    (key : String) : other.get? key = e.get? key := by
  have hother : other.Distinct := (hperm.map Prod.fst).nodup_iff.mp h
  apply Option.ext
  intro value
  rw [get?_eq_some_iff hother, get?_eq_some_iff h, hperm.mem_iff]

end Entries

end ContentModel
