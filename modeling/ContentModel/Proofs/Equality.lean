import Mathlib.Data.List.Perm.Subperm
import ContentModel.Proofs.Sameness

/-!
This module contains the laws of the comparison of values. As long as no key stands twice it is a
partial equivalence that does not see the order of entries and fields, and the values that are not equal
to themselves are those that hold a NaN.
-/

namespace ContentModel

namespace Value

/--
A NaN stands somewhere in the value.
-/
inductive HoldsNaN : Value → Prop where
  | float {x : Binary64} (h : x.isNaN = true) : HoldsNaN (.float x)
  | list {items : List Value} {value : Value} (hmem : value ∈ items) (h : HoldsNaN value) :
      HoldsNaN (.list items)
  | map {entries : Entries Value} {entry : String × Value} (hmem : entry ∈ entries.toList)
      (h : HoldsNaN entry.2) : HoldsNaN (.map entries)
  | object {inst : Instance} {field : String × Value} (hmem : field ∈ inst.fields.toList)
      (h : HoldsNaN field.2) : HoldsNaN (.object inst)

/--
The second value comes from the first one when entries of maps and fields of instances are put in other
places, at any depth.
-/
inductive Rearranged : Value → Value → Prop where
  | refl (value : Value) : Rearranged value value
  | trans {u v w : Value} (first : Rearranged u v) (second : Rearranged v w) : Rearranged u w
  | map {a b : Entries Value} (h : a.toList.Perm b.toList) : Rearranged (.map a) (.map b)
  | object {model : String} {a b : Entries Value} {order : Option ElementOrder}
      (h : a.toList.Perm b.toList) : Rearranged (.object ⟨model, a, order⟩) (.object ⟨model, b, order⟩)
  | item {before rest : List Value} {v w : Value} (h : Rearranged v w) :
      Rearranged (.list (before ++ v :: rest)) (.list (before ++ w :: rest))
  | entry {before rest : List (String × Value)} {key : String} {v w : Value} (h : Rearranged v w) :
      Rearranged (.map ⟨before ++ (key, v) :: rest⟩) (.map ⟨before ++ (key, w) :: rest⟩)
  | field {model : String} {before rest : List (String × Value)} {name : String} {v w : Value}
      {order : Option ElementOrder} (h : Rearranged v w) :
      Rearranged (.object ⟨model, ⟨before ++ (name, v) :: rest⟩, order⟩)
        (.object ⟨model, ⟨before ++ (name, w) :: rest⟩, order⟩)

/--
The same places are taken, by equal values.
-/
structure Pointwise {ι : Type} (f g : ι → Option Value) : Prop where
  none_iff : ∀ i, f i = none ↔ g i = none
  beq : ∀ i v w, f i = some v → g i = some w → v.beq w = true

namespace Pointwise

variable {ι : Type} {f g k : ι → Option Value}

theorem symm (hsymm : ∀ i v w, f i = some v → g i = some w → v.beq w = true → w.beq v = true)
    (h : Pointwise f g) : Pointwise g f := by
  constructor
  case none_iff =>
    intro i
    exact (h.none_iff i).symm
  case beq =>
    intro i w v hw hv
    exact hsymm i v w hv hw (h.beq i v w hv hw)

theorem trans
    (htrans : ∀ i u v w, f i = some u → g i = some v → k i = some w →
      u.beq v = true → v.beq w = true → u.beq w = true)
    (hfg : Pointwise f g) (hgk : Pointwise g k) : Pointwise f k := by
  constructor
  case none_iff =>
    intro i
    exact (hfg.none_iff i).trans (hgk.none_iff i)
  case beq =>
    intro i u w hu hw
    cases hv : g i with
    | none =>
      rw [hgk.none_iff, hw] at hv
      cases hv
    | some v => exact htrans i u v w hu hv hw (hfg.beq i u v hu hv) (hgk.beq i v w hv hw)

theorem self_iff : Pointwise f f ↔ ∀ i v, f i = some v → v.beq v = true := by
  constructor
  . intro h i v hv
    exact h.beq i v v hv hv
  . intro h
    refine ⟨fun _ => .rfl, ?_⟩
    intro i v w hv hw
    rw [hv] at hw
    cases hw
    exact h i v hv

end Pointwise

section Containers

variable {items others : List Value} {a b : Entries Value} {inst other : Instance} {w : Value}

theorem beqList_iff :
    beqList items others = true
      ↔ Pointwise (fun i : Nat => items[i]?) (fun i : Nat => others[i]?) := by
  induction items generalizing others with
  | nil =>
    cases others with
    | nil => simp [beqList, Pointwise.self_iff]
    | cons value rest =>
      refine iff_of_false (by simp [beqList]) ?_
      intro h
      simpa using h.none_iff 0
  | cons first rest ih =>
    cases others with
    | nil =>
      refine iff_of_false (by simp [beqList]) ?_
      intro h
      simpa using h.none_iff 0
    | cons value behind =>
      rw [beqList, Bool.and_eq_true, ih]
      constructor
      . rintro ⟨hfirst, hrest⟩
        constructor
        case none_iff =>
          rintro (_ | i)
          . simp
          . exact hrest.none_iff i
        case beq =>
          rintro (_ | i) v w hv hw
          . cases hv
            cases hw
            exact hfirst
          . exact hrest.beq i v w hv hw
      . intro h
        refine ⟨h.beq 0 first value rfl rfl, ?_⟩
        constructor
        case none_iff =>
          intro i
          exact h.none_iff (i + 1)
        case beq =>
          intro i v w hv hw
          exact h.beq (i + 1) v w hv hw

theorem size_eq_and_beqEntries_iff (ha : a.Distinct) (hb : b.Distinct) :
    a.size = b.size ∧ beqEntries a.toList b = true ↔ Pointwise a.get? b.get? := by
  rw [beqEntries_iff]
  constructor
  . rintro ⟨hsize, hvalues⟩
    have hsubset : a.keys ⊆ b.keys := by
      intro key hkey
      rcases List.mem_map.mp hkey with ⟨entry, hentry, rfl⟩
      rcases hvalues entry hentry with ⟨w, hw, _⟩
      exact Entries.mem_keys_iff.mpr ⟨w, hw⟩
    have hlength : b.keys.length ≤ a.keys.length := by
      simpa [Entries.keys, Entries.size] using Nat.le_of_eq hsize.symm
    -- As many distinct keys, all of them in the other map, are the same keys.
    have hperm : a.keys.Perm b.keys :=
      (List.subperm_of_subset ha hsubset).perm_of_length_le hlength
    constructor
    case none_iff =>
      intro key
      rw [Entries.get?_eq_none_iff, Entries.get?_eq_none_iff, hperm.mem_iff]
    case beq =>
      intro key v w hv hw
      rcases hvalues (key, v) ((Entries.get?_eq_some_iff ha key v).mp hv) with ⟨w', hw', hbeq⟩
      rw [hw] at hw'
      cases hw'
      exact hbeq
  . intro h
    constructor
    . have hlength := (Entries.perm_keys ha hb h.none_iff).length_eq
      simpa [Entries.keys, Entries.size] using hlength
    . rintro ⟨key, v⟩ hmem
      have hv := (Entries.get?_eq_some_iff ha key v).mpr hmem
      cases hw : b.get? key with
      | none =>
        rw [← h.none_iff, hv] at hw
        cases hw
      | some w => exact ⟨w, rfl, h.beq key v w hv hw⟩

theorem beq_iff_eq_of_kind {v : Value} (h : v.kind ∈ [.null, .boolean, .integer, .string]) :
    v.beq w = true ↔ v = w := by
  cases v <;> cases w <;> simp_all [beq, kind]

theorem beq_list_iff :
    (list items).beq w = true
      ↔ ∃ others, w = .list others
          ∧ Pointwise (fun i : Nat => items[i]?) (fun i : Nat => others[i]?) := by
  cases w <;> simp [beq, beqList_iff]

theorem beq_map_iff (ha : a.Distinct) (hw : w.WellKeyed) :
    (map a).beq w = true ↔ ∃ b, w = .map b ∧ Pointwise a.get? b.get? := by
  cases w with
  | map b =>
    have hentries := size_eq_and_beqEntries_iff ha (wellKeyed_map_iff.mp hw).1
    rcases a with ⟨entries⟩
    rw [beq, Bool.and_eq_true, beq_iff_eq]
    constructor
    . intro h
      exact ⟨b, rfl, hentries.mp h⟩
    . rintro ⟨_, ⟨⟩, h⟩
      exact hentries.mpr h
  | _ => simp [beq]

theorem beq_object_iff (hinst : inst.fields.Distinct) (hw : w.WellKeyed) :
    (object inst).beq w = true
      ↔ ∃ other, w = .object other ∧ inst.model = other.model ∧ inst.order = other.order
          ∧ Pointwise inst.get? other.get? := by
  cases w with
  | object other =>
    have hfields := size_eq_and_beqEntries_iff hinst (wellKeyed_object_iff.mp hw).1
    rw [beq, beqInstance_iff]
    constructor
    . rintro ⟨hmodel, hsize, hentries, horder⟩
      exact ⟨other, rfl, hmodel, horder, hfields.mp ⟨hsize, hentries⟩⟩
    . rintro ⟨_, ⟨⟩, hmodel, horder, h⟩
      rcases hfields.mpr h with ⟨hsize, hentries⟩
      exact ⟨hmodel, hsize, hentries, horder⟩
  | _ => simp [beq]

end Containers

section Laws

variable {a : Entries Value} {u v w : Value}

theorem wellKeyed_object_iff_map {inst : Instance} :
    (object inst).WellKeyed ↔ (map inst.fields).WellKeyed := by
  rw [wellKeyed_object_iff, wellKeyed_map_iff]

theorem mem_of_get? (ha : (map a).WellKeyed) {key : String} (h : a.get? key = some v) :
    (key, v) ∈ a.toList :=
  (Entries.get?_eq_some_iff (wellKeyed_map_iff.mp ha).1 key v).mp h

theorem wellKeyed_of_get? (ha : (map a).WellKeyed) {key : String} (h : a.get? key = some v) :
    v.WellKeyed :=
  (wellKeyed_map_iff.mp ha).2 _ (mem_of_get? ha h)

theorem beq_symm (hv : v.WellKeyed) (hw : w.WellKeyed) (h : v.beq w = true) : w.beq v = true := by
  induction v using inductionOn generalizing w with
  | null | boolean | integer | string =>
    rw [beq_iff_eq_of_kind (by simp [kind])] at h
    subst h
    exact (beq_iff_eq_of_kind (by simp [kind])).mpr rfl
  | float x =>
    cases w with
    | float y =>
      rw [beq] at h ⊢
      rw [Binary64.beq_comm, h]
    | _ => cases h
  | list items ih =>
    rcases beq_list_iff.mp h with ⟨others, rfl, hitems⟩
    rw [wellKeyed_list_iff] at hv hw
    refine beq_list_iff.mpr ⟨items, rfl, hitems.symm ?_⟩
    intro i v w hgetv hgetw
    have hmem := List.mem_of_getElem? hgetv
    exact ih v hmem (hv v hmem) (hw w (List.mem_of_getElem? hgetw))
  | map entries ih =>
    rcases (beq_map_iff (wellKeyed_map_iff.mp hv).1 hw).mp h with ⟨others, rfl, hentries⟩
    refine (beq_map_iff (wellKeyed_map_iff.mp hw).1 hv).mpr ⟨entries, rfl, hentries.symm ?_⟩
    intro key v w hgetv hgetw
    exact ih _ (mem_of_get? hv hgetv) (wellKeyed_of_get? hv hgetv) (wellKeyed_of_get? hw hgetw)
  | object inst ih =>
    rcases (beq_object_iff (wellKeyed_object_iff.mp hv).1 hw).mp h
      with ⟨other, rfl, hmodel, horder, hfields⟩
    refine (beq_object_iff (wellKeyed_object_iff.mp hw).1 hv).mpr
      ⟨inst, rfl, hmodel.symm, horder.symm, hfields.symm ?_⟩
    rw [wellKeyed_object_iff_map] at hv hw
    intro name v w hgetv hgetw
    exact ih _ (mem_of_get? hv hgetv) (wellKeyed_of_get? hv hgetv) (wellKeyed_of_get? hw hgetw)

theorem beq_comm (hv : v.WellKeyed) (hw : w.WellKeyed) : v.beq w = w.beq v :=
  Bool.eq_iff_iff.mpr ⟨beq_symm hv hw, beq_symm hw hv⟩

theorem beq_trans (hu : u.WellKeyed) (hv : v.WellKeyed) (hw : w.WellKeyed) (huv : u.beq v = true)
    (hvw : v.beq w = true) : u.beq w = true := by
  induction u using inductionOn generalizing v w with
  | null | boolean | integer | string =>
    rw [beq_iff_eq_of_kind (by simp [kind])] at huv
    subst huv
    exact hvw
  | float x =>
    cases v with
    | float y =>
      cases w with
      | float z => exact Binary64.beq_trans huv hvw
      | _ => cases hvw
    | _ => cases huv
  | list items ih =>
    rcases beq_list_iff.mp huv with ⟨mids, rfl, hitems⟩
    rcases beq_list_iff.mp hvw with ⟨others, rfl, hmids⟩
    rw [wellKeyed_list_iff] at hu hv hw
    refine beq_list_iff.mpr ⟨others, rfl, hitems.trans ?_ hmids⟩
    intro i u v w hgetu hgetv hgetw
    have hmem := List.mem_of_getElem? hgetu
    exact ih u hmem (hu u hmem) (hv v (List.mem_of_getElem? hgetv))
      (hw w (List.mem_of_getElem? hgetw))
  | map entries ih =>
    rcases (beq_map_iff (wellKeyed_map_iff.mp hu).1 hv).mp huv with ⟨mids, rfl, hentries⟩
    rcases (beq_map_iff (wellKeyed_map_iff.mp hv).1 hw).mp hvw with ⟨others, rfl, hmids⟩
    refine (beq_map_iff (wellKeyed_map_iff.mp hu).1 hw).mpr ⟨others, rfl, hentries.trans ?_ hmids⟩
    intro key u v w hgetu hgetv hgetw
    exact ih _ (mem_of_get? hu hgetu) (wellKeyed_of_get? hu hgetu) (wellKeyed_of_get? hv hgetv)
      (wellKeyed_of_get? hw hgetw)
  | object inst ih =>
    rcases (beq_object_iff (wellKeyed_object_iff.mp hu).1 hv).mp huv
      with ⟨mid, rfl, hmodel, horder, hfields⟩
    rcases (beq_object_iff (wellKeyed_object_iff.mp hv).1 hw).mp hvw
      with ⟨other, rfl, hmodel', horder', hmids⟩
    refine (beq_object_iff (wellKeyed_object_iff.mp hu).1 hw).mpr
      ⟨other, rfl, hmodel.trans hmodel', horder.trans horder', hfields.trans ?_ hmids⟩
    rw [wellKeyed_object_iff_map] at hu hv hw
    intro name u v w hgetu hgetv hgetw
    exact ih _ (mem_of_get? hu hgetu) (wellKeyed_of_get? hu hgetu) (wellKeyed_of_get? hv hgetv)
      (wellKeyed_of_get? hw hgetw)

theorem holdsNaN_list_iff {items : List Value} :
    (list items).HoldsNaN ↔ ∃ value ∈ items, value.HoldsNaN := by
  constructor
  . rintro ⟨⟩
    next value h hmem => exact ⟨value, hmem, h⟩
  . rintro ⟨value, hmem, h⟩
    exact .list hmem h

theorem holdsNaN_map_iff {entries : Entries Value} :
    (map entries).HoldsNaN ↔ ∃ entry ∈ entries.toList, entry.2.HoldsNaN := by
  constructor
  . rintro ⟨⟩
    next entry h hmem => exact ⟨entry, hmem, h⟩
  . rintro ⟨entry, hmem, h⟩
    exact .map hmem h

theorem holdsNaN_object_iff {inst : Instance} :
    (object inst).HoldsNaN ↔ ∃ field ∈ inst.fields.toList, field.2.HoldsNaN := by
  constructor
  . rintro ⟨⟩
    next field h hmem => exact ⟨field, hmem, h⟩
  . rintro ⟨field, hmem, h⟩
    exact .object hmem h

theorem pointwise_self_iff (ha : (map a).WellKeyed) :
    Pointwise a.get? a.get? ↔ ∀ entry ∈ a.toList, entry.2.beq entry.2 = true := by
  rw [Pointwise.self_iff]
  constructor
  . rintro h ⟨key, v⟩ hmem
    exact h key v ((Entries.get?_eq_some_iff (wellKeyed_map_iff.mp ha).1 key v).mpr hmem)
  . intro h key v hget
    exact h _ (mem_of_get? ha hget)

/--
A value is equal to itself unless it holds a NaN.
-/
theorem beq_self_iff (hv : v.WellKeyed) : v.beq v = true ↔ ¬ v.HoldsNaN := by
  induction v using inductionOn with
  | null | boolean | integer | string =>
    refine iff_of_true ((beq_iff_eq_of_kind (by simp [kind])).mpr rfl) ?_
    rintro ⟨⟩
  | float x =>
    rw [beq, Binary64.beq_self, Bool.not_eq_true', ← Bool.not_eq_true]
    refine not_congr ⟨.float, ?_⟩
    rintro ⟨⟩
    next h => exact h
  | list items ih =>
    rw [wellKeyed_list_iff] at hv
    calc
      _ ↔ Pointwise (fun i : Nat => items[i]?) (fun i : Nat => items[i]?) := by simp [beq, beqList_iff]
      _ ↔ ∀ value ∈ items, value.beq value = true := by
        rw [Pointwise.self_iff, forall_comm]
        simp [List.mem_iff_getElem?]
      _ ↔ ∀ value ∈ items, ¬ value.HoldsNaN :=
        forall₂_congr fun value hmem => ih value hmem (hv value hmem)
      _ ↔ _ := by simp [holdsNaN_list_iff]
  | map entries ih =>
    have hvalues := (wellKeyed_map_iff.mp hv).2
    calc
      _ ↔ Pointwise entries.get? entries.get? := by
        simp [beq_map_iff (wellKeyed_map_iff.mp hv).1 hv]
      _ ↔ ∀ entry ∈ entries.toList, entry.2.beq entry.2 = true := pointwise_self_iff hv
      _ ↔ ∀ entry ∈ entries.toList, ¬ entry.2.HoldsNaN :=
        forall₂_congr fun entry hmem => ih entry hmem (hvalues entry hmem)
      _ ↔ _ := by simp [holdsNaN_map_iff]
  | object inst ih =>
    have hvalues := (wellKeyed_object_iff.mp hv).2
    calc
      _ ↔ Pointwise inst.get? inst.get? := by
        simp [beq_object_iff (wellKeyed_object_iff.mp hv).1 hv]
      _ ↔ ∀ field ∈ inst.fields.toList, field.2.beq field.2 = true :=
        pointwise_self_iff (wellKeyed_object_iff_map.mp hv)
      _ ↔ ∀ field ∈ inst.fields.toList, ¬ field.2.HoldsNaN :=
        forall₂_congr fun field hmem => ih field hmem (hvalues field hmem)
      _ ↔ _ := by simp [holdsNaN_object_iff]

end Laws

section Rearranged

variable {a b c : Entries Value} {before rest : List (String × Value)} {key : String}
  {v w x : Value}

theorem wellKeyed_map_of_perm (h : a.toList.Perm b.toList) (ha : (map a).WellKeyed) :
    (map b).WellKeyed := by
  rw [wellKeyed_map_iff] at ha ⊢
  refine ⟨(h.map Prod.fst).nodup_iff.mp ha.1, ?_⟩
  intro entry hmem
  exact ha.2 entry (h.mem_iff.mpr hmem)

theorem wellKeyed_map_of_replace (h : v.WellKeyed → w.WellKeyed)
    (ha : (map ⟨before ++ (key, v) :: rest⟩).WellKeyed) :
    (map ⟨before ++ (key, w) :: rest⟩).WellKeyed := by
  simp only [wellKeyed_map_iff, Entries.Distinct, Entries.keys, List.map_append, List.map_cons,
    List.forall_mem_append, List.forall_mem_cons] at ha ⊢
  exact ⟨ha.1, ha.2.1, h ha.2.2.1, ha.2.2.2⟩

theorem beqEntries_of_perm (h : a.toList.Perm b.toList) (c : Entries Value) :
    beqEntries a.toList c = beqEntries b.toList c := by
  rw [Bool.eq_iff_iff, beqEntries_iff, beqEntries_iff]
  simp only [h.mem_iff]

theorem beqEntries_of_replace (h : ∀ x, c.get? key = some x → v.beq x = w.beq x) :
    beqEntries (before ++ (key, v) :: rest) c = beqEntries (before ++ (key, w) :: rest) c := by
  have hentry : (∃ x, c.get? key = some x ∧ v.beq x = true)
      ↔ ∃ x, c.get? key = some x ∧ w.beq x = true := by
    refine exists_congr fun x => and_congr_right ?_
    intro hx
    rw [h x hx]
  rw [Bool.eq_iff_iff, beqEntries_iff, beqEntries_iff]
  simp only [List.forall_mem_append, List.forall_mem_cons, hentry]

theorem beqList_of_replace {before rest others : List Value}
    (h : ∀ x ∈ others, v.beq x = w.beq x) :
    beqList (before ++ v :: rest) others = beqList (before ++ w :: rest) others := by
  induction before generalizing others with
  | nil =>
    cases others with
    | nil => rfl
    | cons other behind =>
      rw [List.nil_append, List.nil_append, beqList, beqList, h other List.mem_cons_self]
  | cons first before ih =>
    cases others with
    | nil => rfl
    | cons other behind =>
      rw [List.forall_mem_cons] at h
      rw [List.cons_append, List.cons_append, beqList, beqList, ih h.2]

theorem beq_map_congr (hsize : a.size = b.size) (hx : x.WellKeyed)
    (h : ∀ c, (map c).WellKeyed → beqEntries a.toList c = beqEntries b.toList c) :
    (map a).beq x = (map b).beq x := by
  cases x with
  | map c =>
    rcases a with ⟨as⟩
    rcases b with ⟨bs⟩
    rw [beq, beq, h c hx]
    exact congrArg (fun n => (n == c.size) && beqEntries bs c) hsize
  | _ => rfl

theorem beq_object_congr {model : String} {order : Option ElementOrder} (hsize : a.size = b.size)
    (hx : x.WellKeyed) (h : ∀ c, (map c).WellKeyed → beqEntries a.toList c = beqEntries b.toList c) :
    (object ⟨model, a, order⟩).beq x = (object ⟨model, b, order⟩).beq x := by
  cases x with
  | object other =>
    rw [beq, beq, Bool.eq_iff_iff, beqInstance_iff, beqInstance_iff]
    rw [hsize, h other.fields (wellKeyed_object_iff_map.mp hx)]
  | _ => rfl

theorem Rearranged.wellKeyed (h : Rearranged v w) (hv : v.WellKeyed) : w.WellKeyed := by
  induction h with
  | refl value => exact hv
  | trans first second ihfirst ihsecond => exact ihsecond (ihfirst hv)
  | map h => exact wellKeyed_map_of_perm h hv
  | object h =>
    rw [wellKeyed_object_iff_map] at hv ⊢
    exact wellKeyed_map_of_perm h hv
  | item h ih =>
    rw [wellKeyed_list_iff, List.forall_mem_append, List.forall_mem_cons] at hv ⊢
    exact ⟨hv.1, ih hv.2.1, hv.2.2⟩
  | entry h ih => exact wellKeyed_map_of_replace ih hv
  | field h ih =>
    rw [wellKeyed_object_iff_map] at hv ⊢
    exact wellKeyed_map_of_replace ih hv

theorem Rearranged.beq_eq (h : Rearranged v w) (hv : v.WellKeyed) (hx : x.WellKeyed) :
    v.beq x = w.beq x := by
  induction h generalizing x with
  | refl value => rfl
  | trans first second ihfirst ihsecond =>
    rw [ihfirst hv hx, ihsecond (first.wellKeyed hv) hx]
  | map h => exact beq_map_congr h.length_eq hx fun c _ => beqEntries_of_perm h c
  | object h => exact beq_object_congr h.length_eq hx fun c _ => beqEntries_of_perm h c
  | item h ih =>
    rw [wellKeyed_list_iff, List.forall_mem_append, List.forall_mem_cons] at hv
    cases x with
    | list others =>
      rw [wellKeyed_list_iff] at hx
      apply beqList_of_replace
      intro other hmem
      exact ih hv.2.1 (hx other hmem)
    | _ => rfl
  | @entry before rest key v w h ih =>
    have hentry := (wellKeyed_map_iff.mp hv).2 (key, v) (by simp)
    refine beq_map_congr (by simp [Entries.size]) hx fun c hc => ?_
    apply beqEntries_of_replace
    intro other hget
    exact ih hentry (wellKeyed_of_get? hc hget)
  | @field model before rest name v w order h ih =>
    have hfield := (wellKeyed_object_iff.mp hv).2 (name, v) (by simp)
    refine beq_object_congr (by simp [Entries.size]) hx fun c hc => ?_
    apply beqEntries_of_replace
    intro other hget
    exact ih hfield (wellKeyed_of_get? hc hget)

end Rearranged

/--
The comparison of values in which no key stands twice is symmetric and transitive, it has a value equal
to itself exactly when no NaN is in it, and it does not see in which order entries and fields stand.
Instances compare as the values that hold them.
-/
theorem beq_partialEquivalence {u v w : Value} (hu : u.WellKeyed) (hv : v.WellKeyed)
    (hw : w.WellKeyed) :
    (u == v) = (v == u)
      ∧ ((u == v) = true → (v == w) = true → (u == w) = true)
      ∧ ((u == u) = true ↔ ¬ u.HoldsNaN)
      ∧ (∀ u' v', Rearranged u u' → Rearranged v v' → (u' == v') = (u == v))
      ∧ ∀ a b : Instance, (a == b) = (object a == object b) := by
  refine ⟨beq_comm hu hv, beq_trans hu hv hw, beq_self_iff hu, ?_, fun a b => rfl⟩
  intro u' v' hu' hv'
  change u'.beq v' = u.beq v
  calc
    u'.beq v' = u.beq v' := (hu'.beq_eq hu (hv'.wellKeyed hv)).symm
    _ = v'.beq u := beq_comm hu (hv'.wellKeyed hv)
    _ = v.beq u := (hv'.beq_eq hv hu).symm
    _ = u.beq v := beq_comm hv hu

/--
A receipt with a single line.
-/
def receipt (line : List (String × Value)) (total : Binary64) : Value :=
  .object {
    model := "Receipt"
    fields := ⟨[("lines", .list [.map ⟨line⟩]), ("total", .float total)]⟩
    order := some ⟨["lines", "total"], false⟩ }

theorem receipts_equal :
    let line : List (String × Value) := [("sku", .string "A1"), ("count", .integer 2)]
    let zero := receipt line ⟨0⟩
    let turned := receipt line.reverse ⟨0⟩
    let negative := receipt line ⟨0x8000000000000000⟩
    (zero.WellKeyed ∧ turned.WellKeyed ∧ negative.WellKeyed)
      ∧ (zero == turned) = true ∧ (turned == negative) = true ∧ ¬ turned.HoldsNaN := by
  intro line zero turned negative
  have hkeyed : zero.WellKeyed ∧ turned.WellKeyed ∧ negative.WellKeyed := by
    simp [zero, turned, negative, line, receipt, WellKeyed, WellKeyedInstance, WellKeyedEntries,
      WellKeyedItems, Entries.Distinct, Entries.keys]
  have hline : Rearranged (.map ⟨line⟩) (.map ⟨line.reverse⟩) :=
    .map (List.reverse_perm line).symm
  have hlines : Rearranged (.list [.map ⟨line⟩]) (.list [.map ⟨line.reverse⟩]) :=
    @Rearranged.item [] [] _ _ hline
  have hturned : Rearranged zero turned := @Rearranged.field "Receipt" [] _ _ _ _ _ hlines
  have hself : (turned == turned) = true := rfl
  have hnegative : (zero == negative) = true := rfl
  rcases beq_partialEquivalence hkeyed.2.1 hkeyed.1 hkeyed.2.2
    with ⟨hsymm, htrans, hnan, hplaces, _⟩
  have hback : (turned == zero) = true := by
    rw [← hplaces turned turned (.refl turned) hturned, hself]
  refine ⟨hkeyed, ?_, htrans hback hnegative, hnan.mp hself⟩
  rw [← hsymm, hback]

end Value

end ContentModel
