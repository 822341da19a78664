import ContentModel.Value

/-!
This module contains what it is for two values to be the same but for the order of the fields of
instances. The comparison of values cannot tell such values apart, as far as it has a value equal to
itself, which a float that is no number is not.
-/

namespace ContentModel

namespace Entries

variable {α : Type} {a b : Entries α}

theorem mem_keys_iff {key : String} : key ∈ a.keys ↔ ∃ value, a.get? key = some value := by
  rw [← Option.isSome_iff_exists, ← Option.ne_none_iff_isSome, ne_eq, get?_eq_none_iff]
  exact Decidable.not_not.symm

theorem perm_keys (ha : a.Distinct) (hb : b.Distinct)
    (h : ∀ key, a.get? key = none ↔ b.get? key = none) : a.keys.Perm b.keys := by
  refine (List.perm_ext_iff_of_nodup ha hb).mpr ?_
  intro key
  have hnone := h key
  rw [get?_eq_none_iff, get?_eq_none_iff] at hnone
  exact Decidable.not_iff_not.mp hnone

end Entries

namespace Value

/--
The same value but for the order of the fields of an instance and of the instances that it holds.
-/
inductive Same : Value → Value → Prop where
  | refl (value : Value) : Same value value
  | object {a b : Instance} (model : a.model = b.model) (order : a.order = b.order)
      (distinct : b.fields.Distinct) (keys : a.fields.keys.Perm b.fields.keys)
      (values : ∀ name v w, a.get? name = some v → b.get? name = some w → Same v w) :
      Same (.object a) (.object b)

theorem same_of_rel {a b : Instance} (hmodel : a.model = b.model) (horder : a.order = b.order)
    (ha : a.fields.Distinct) (hb : b.fields.Distinct)
    (h : ∀ name, Option.Rel Same (a.get? name) (b.get? name)) : Same (.object a) (.object b) := by
  refine .object hmodel horder hb (Entries.perm_keys ha hb ?_) ?_
  . intro name
    have hrel := h name
    unfold Instance.get? at hrel
    generalize a.fields.get? name = v at hrel ⊢
    generalize b.fields.get? name = w at hrel ⊢
    cases hrel <;> simp
  . intro name v w hv hw
    have hrel := h name
    rw [hv, hw] at hrel
    cases hrel with
    | some hsame => exact hsame

theorem rel_same_of_eq {a b : Option Value} (h : a = b) : Option.Rel Same a b := by
  subst h
  cases a with
  | none => exact .none
  | some value => exact .some (.refl value)

theorem beqEntries_iff {entries : List (String × Value)} {others : Entries Value} :
    beqEntries entries others = true
      ↔ ∀ entry ∈ entries, ∃ value, others.get? entry.1 = some value
          ∧ beq entry.2 value = true := by
  induction entries with
  | nil => simp [beqEntries]
  | cons entry rest ih =>
    rw [beqEntries, Bool.and_eq_true, ih, List.forall_mem_cons]
    refine and_congr_left' ?_
    cases others.get? entry.1 <;> simp

theorem beqInstance_iff {a b : Instance} :
    beqInstance a b = true
      ↔ a.model = b.model ∧ a.fields.size = b.fields.size
        ∧ beqEntries a.fields.toList b.fields = true ∧ a.order = b.order := by
  rcases a with ⟨model, ⟨entries⟩, order⟩
  simp [beqInstance, Entries.size, and_assoc]

theorem Same.beq {v w : Value} (h : Same v w) (hself : w.beq w = true) : v.beq w = true := by
  induction h with
  | refl value => exact hself
  | @object a b model order distinct keys values ih =>
    rw [Value.beq, beqInstance_iff, beqEntries_iff] at hself ⊢
    refine ⟨model, ?_, ?_, order⟩
    . have := keys.length_eq
      simpa [Entries.keys, Entries.size] using this
    . have hdistinct : a.fields.Distinct := keys.nodup_iff.mpr distinct
      rintro ⟨name, v⟩ hmem
      have hv : a.get? name = some v := (Entries.get?_eq_some_iff hdistinct name v).mpr hmem
      have hkey : name ∈ b.fields.keys := keys.mem_iff.mp (List.mem_map_of_mem (f := Prod.fst) hmem)
      rcases Entries.mem_keys_iff.mp hkey with ⟨w, hw⟩
      refine ⟨w, hw, ih name v w hv hw ?_⟩
      have hmem := (Entries.get?_eq_some_iff distinct name w).mp hw
      rcases hself.2.2.1 (name, w) hmem with ⟨w', hw', hbeq⟩
      rw [hw] at hw'
      cases hw'
      exact hbeq

end Value

end ContentModel
