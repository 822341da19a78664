import Mathlib.Data.List.Basic
import Mathlib.Data.List.Induction
import Mathlib.Data.List.Nodup
import ContentModel.Entries

/-!
This module contains what becomes of keys that come more than once. Inserting pairs one after the other
leaves of each key the place at which it came first and the value with which it came last.
-/

namespace ContentModel

theorem eraseDups_concat {α : Type} [BEq α] [LawfulBEq α] (xs : List α) (x : α) :
    (xs ++ [x]).eraseDups = if x ∈ xs then xs.eraseDups else xs.eraseDups ++ [x] := by
  rw [List.eraseDups_append]
  split
  . next h => simp [List.removeAll, h]
  . next h => simp [List.removeAll, h, List.eraseDups_cons]

theorem nodup_eraseDups {α : Type} [BEq α] [LawfulBEq α] (xs : List α) : xs.eraseDups.Nodup := by
  induction xs using List.reverseRecOn with
  | nil => exact List.nodup_nil
  | append_singleton xs x ih =>
    rw [eraseDups_concat]
    split
    . exact ih
    . next h =>
      rw [← List.mem_eraseDups] at h
      rw [← List.concat_eq_append]
      exact List.Nodup.concat h ih

namespace Entries

variable {α : Type} {e : Entries α}

/--
The last pair of each key, in the order in which the keys first come.
-/
def latest (pairs : List (String × α)) : Entries α :=
  ⟨(pairs.map Prod.fst).eraseDups.filterMap fun key => pairs.reverse.find? (·.1 == key)⟩

theorem ofList_concat (pairs : List (String × α)) (pair : String × α) :
    ofList (pairs ++ [pair]) = (ofList pairs).insert pair.1 pair.2 := by
  unfold ofList insertAll
  rw [List.foldl_concat]

theorem keys_ofList (pairs : List (String × α)) :
    (ofList pairs).keys = (pairs.map Prod.fst).eraseDups := by
  induction pairs using List.reverseRecOn with
  | nil => rfl
  | append_singleton pairs pair ih =>
    rw [ofList_concat, keys_insert, List.map_append, List.map_singleton, eraseDups_concat, ih]
    simp only [List.mem_eraseDups]

theorem get?_ofList (pairs : List (String × α)) (key : String) :
    (ofList pairs).get? key = (pairs.reverse.find? (·.1 == key)).map Prod.snd := by
  induction pairs using List.reverseRecOn with
  | nil => rfl
  | append_singleton pairs pair ih =>
    rw [ofList_concat, List.reverse_append, List.reverse_singleton, List.singleton_append]
    by_cases hkey : pair.1 = key
    . rw [List.find?_cons_of_pos (by simpa using hkey), hkey, get?_insert_self]
      rfl
    . rw [List.find?_cons_of_neg (by simpa using hkey), get?_insert_of_ne _ _ (Ne.symm hkey), ih]

theorem toList_eq_filterMap (h : e.Distinct) :
    e.toList = e.keys.filterMap fun key => (e.get? key).map (key, ·) := by
  rcases e with ⟨entries⟩
  unfold Distinct at h
  simp only [keys, get?] at h ⊢
  induction entries with
  | nil => rfl
  | cons entry rest ih =>
    rw [List.map_cons, List.nodup_cons] at h
    have hfirst : get?.go entry.1 (entry :: rest) = some entry.2 := by
      simp [get?.go]
    have hrest : ∀ key ∈ rest.map Prod.fst,
        (get?.go key (entry :: rest)).map (key, ·) = (get?.go key rest).map (key, ·) := by
      intro key hkey
      have hne : entry.1 ≠ key := fun heq => h.1 (heq ▸ hkey)
      rw [get?.go, if_neg hne]
    rw [List.map_cons, List.filterMap_cons_some (by rw [hfirst]; rfl)]
    rw [List.filterMap_congr hrest, ← ih h.2]

theorem ofList_eq_latest (pairs : List (String × α)) : ofList pairs = latest pairs := by
  have htoList := toList_eq_filterMap (distinct_ofList pairs)
  have hpair (key : String) :
      ((ofList pairs).get? key).map (key, ·) = pairs.reverse.find? (·.1 == key) := by
    rw [get?_ofList]
    cases hfind : pairs.reverse.find? (·.1 == key) with
    | none => rfl
    | some pair =>
      have hkey : pair.1 = key := by
        simpa using List.find?_some hfind
      rw [← hkey]
      rfl
  rw [keys_ofList] at htoList
  simp only [hpair] at htoList
  exact congrArg Entries.mk htoList

end Entries

end ContentModel
