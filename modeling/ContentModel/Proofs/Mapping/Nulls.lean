import ContentModel.Proofs.Mapping.Safety
import ContentModel.Proofs.Validation.Agreement

/-!
This module contains what nulls in a document do to the instance that is read from it. A null makes no
attribute present, but it makes the nested instance that it is read into.
-/

namespace ContentModel

namespace Instance

variable {inst other : Instance} {name : String}

/--
The value of the attribute, unless it is null.
-/
def given? (inst : Instance) (name : String) : Option Value :=
  (inst.get? name).filter fun value => !value.isNull

theorem isPresent_eq_any_given? (inst : Instance) (name : String) :
    inst.isPresent name = (inst.given? name).any Value.isPresent := by
  unfold isPresent given?
  cases inst.get? name with
  | none => rfl
  | some value => cases value <;> rfl

theorem isPresent_congr (h : inst.given? name = other.given? name) :
    inst.isPresent name = other.isPresent name := by
  rw [isPresent_eq_any_given?, isPresent_eq_any_given?, h]

theorem occurrences_congr (h : inst.given? name = other.given? name) :
    inst.occurrences name = other.occurrences name := by
  have hgiven (inst : Instance) :
      inst.occurrences name = ((inst.given? name).map Value.occurrences).getD 0 := by
    unfold occurrences given?
    cases inst.get? name with
    | none => rfl
    | some value => cases value <;> rfl
  rw [hgiven inst, hgiven other, h]

theorem occurrences_of_obstacle? (h : inst.obstacle? name = none) :
    inst.occurrences name = (inst.isPresent name).toNat := by
  unfold obstacle? at h
  unfold occurrences isPresent
  cases hget : inst.get? name with
  | none => rfl
  | some value =>
    rw [hget] at h
    cases value with
    | null => rfl
    | object inner => rfl
    | _ => cases h

end Instance

namespace Tie

variable {inst back : Instance} {renderNil : Bool} {doc : Document} {tie : Tie}
  {before ties : List Tie} {name : String}

theorem value_of_direct (h : tie.target = ⟨name, none⟩) (inst : Instance) :
    tie.target.value inst = (inst.get? name).getD .null := by
  rw [h, Target.value_of_holder Target.holder_direct]
  rfl

theorem get?_of_last?_eq_none (h : last? doc name ties = none) (htie : tie ∈ ties)
    (hslot : tie.slot = name) : doc.get? tie.field = none := by
  rw [last?, List.getLast?_eq_none_iff, List.filter_eq_nil_iff] at h
  have hcontains := h tie htie
  rw [hslot, beq_self_eq_true, Bool.true_and, Entries.contains] at hcontains
  simpa using hcontains

/--
The document holds what the ties have written for an instance.
-/
structure Writes (inst : Instance) (renderNil : Bool) (doc : Document) (ties : List Tie) : Prop where
  get_eq : ∀ tie ∈ ties, tie.target.get inst = .ok (tie.target.value inst)
  get?_eq : ∀ tie ∈ ties, doc.get? tie.field
    = if tie.renders inst renderNil then some (tie.target.value inst) else none

theorem writes_of_foldlM (h : ties.foldlM (write inst renderNil) .empty = .ok doc)
    (hdistinct : (ties.map (·.field)).Nodup) : Writes inst renderNil doc ties := by
  have hties := (get?_of_foldlM_write h hdistinct).2
  constructor
  case get_eq =>
    intro tie htie
    exact (hties tie htie).1
  case get?_eq =>
    intro tie htie
    exact (hties tie htie).2

namespace Writes

theorem obstacle?_eq_none (h : Writes inst renderNil doc ties) (htie : tie ∈ ties)
    (hdelegate : tie.target.delegate = some name) : inst.obstacle? name = none := by
  rw [Option.eq_none_iff_forall_ne_some]
  intro value hvalue
  have hblocked : inst.blocked? tie.target.delegate = some (.delegateValue name (some value.kind)) :=
    Instance.blocked?_eq_some_iff.mpr ⟨name, value, hdelegate, hvalue, rfl⟩
  rw [← Target.get_eq_error_iff, h.get_eq tie htie] at hblocked
  cases hblocked

theorem mono (h : Writes inst renderNil doc ties) (hsubset : ∀ tie ∈ before, tie ∈ ties) :
    Writes inst renderNil doc before := by
  constructor
  case get_eq =>
    intro tie htie
    exact h.get_eq tie (hsubset tie htie)
  case get?_eq =>
    intro tie htie
    exact h.get?_eq tie (hsubset tie htie)

theorem get?_of_contains (h : Writes inst renderNil doc ties) (htie : tie ∈ ties)
    (hcontains : doc.contains tie.field = true) :
    doc.get? tie.field = some (tie.target.value inst) := by
  have hget := h.get?_eq tie htie
  unfold Entries.contains at hcontains
  split at hget
  . exact hget
  . rw [hget] at hcontains
    cases hcontains

/--
A tie of the attribute itself has left there what the written instance holds.
-/
theorem given?_of_left (h : Writes inst renderNil doc ties)
    (hleft : Left doc back name (last? doc name ties)) (hlast : last? doc name ties = some tie)
    (hdirect : tie.target.delegate = none) : back.given? name = inst.given? name := by
  rcases mem_of_last? hlast with ⟨htie, hslot, hcontains⟩
  rw [hlast, Left, hdirect] at hleft
  dsimp only at hleft
  rw [h.get?_of_contains htie hcontains, value_of_direct (eq_direct_of_slot hslot hdirect)] at hleft
  unfold Instance.given?
  rw [hleft]
  cases inst.get? name <;> rfl

/--
Reading puts nothing in the place of a nested instance that was not there before writing.
-/
theorem obstacle?_of_left (h : Writes inst renderNil doc ties)
    (hleft : Left doc back name (last? doc name ties)) (hobstacle : inst.obstacle? name = none) :
    back.obstacle? name = none := by
  have hgiven (inst : Instance) :
      inst.obstacle? name = (inst.given? name).filter (·.object?.isNone) := by
    unfold Instance.obstacle? Instance.given?
    rw [Option.filter_filter]
  cases hlast : last? doc name ties with
  | none =>
    rw [hlast, Left] at hleft
    rw [Instance.obstacle?, hleft]
    rfl
  | some tie =>
    cases hdelegate : tie.target.delegate with
    | none =>
      rw [hgiven, h.given?_of_left hleft hlast hdelegate, ← hgiven]
      exact hobstacle
    | some delegate =>
      rw [hlast, Left, hdelegate] at hleft
      rcases hleft with ⟨inner, hinner⟩
      rw [Instance.obstacle?, hinner]
      rfl

theorem exists_forM_read {attributes : List Attribute} (h : Writes inst renderNil doc ties)
    (hlinked : ∀ tie ∈ ties, ∀ delegate, tie.target.delegate = some delegate →
      (Attribute.nested? attributes delegate).isSome)
    (model : String) :
    ∃ back, ties.forM (read attributes doc) (.new model) = .ok () back := by
  cases hread : ties.forM (read attributes doc) (.new model) with
  | ok result back => exact ⟨back, rfl⟩
  | error e left =>
    exfalso
    rcases exists_of_forM_eq_error hread with ⟨before, tie, after, mid, rfl, hbefore, herror⟩
    have hblocked := read_eq_error (hlinked tie (by simp)) herror
    rcases Instance.blocked?_eq_some_iff.mp hblocked with ⟨delegate, value, hdelegate, hvalue, _⟩
    -- What is in the way of this tie was in the way when the instance was written.
    have htie : tie ∈ before ++ tie :: after := List.mem_append_right _ List.mem_cons_self
    have hbefore' : Writes inst renderNil doc before := by
      apply h.mono
      intro other hother
      exact List.mem_append_left _ hother
    rw [hbefore'.obstacle?_of_left (left_of_forM_read_new hbefore delegate)
      (h.obstacle?_eq_none htie hdelegate)] at hvalue
    cases hvalue

/--
An attribute that no tie delegates through gets back what it has held, if it is tied to a field at all.
-/
theorem given?_of_not_through (h : Writes inst renderNil doc ties)
    (hleft : Left doc back name (last? doc name ties))
    (hthrough : ∀ tie ∈ ties, tie.target.delegate ≠ some name) :
    back.given? name = if ⟨name, none⟩ ∈ ties.map (·.target) then inst.given? name else none := by
  cases hlast : last? doc name ties with
  | none =>
    have hback : back.given? name = none := by
      rw [hlast, Left] at hleft
      rw [Instance.given?, hleft]
      rfl
    rw [hback]
    split
    . next hmem =>
      rcases List.mem_map.mp hmem with ⟨tie, htie, heq⟩
      have hslot : tie.slot = name := by
        rw [slot, heq]
        rfl
      have hget := h.get?_eq tie htie
      rw [get?_of_last?_eq_none hlast htie hslot, renders, value_of_direct heq] at hget
      unfold Instance.given?
      cases hvalue : inst.get? name with
      | none => rfl
      | some value =>
        rw [hvalue] at hget
        cases value with
        | null => rfl
        | _ => cases hget
    . rfl
  | some tie =>
    rcases mem_of_last? hlast with ⟨htie, hslot, _⟩
    have hdirect : tie.target.delegate = none := by
      rw [Option.eq_none_iff_forall_ne_some]
      intro delegate hdelegate
      apply hthrough tie htie
      rw [slot, hdelegate] at hslot
      rw [hdelegate, ← hslot]
      rfl
    rw [h.given?_of_left hleft hlast hdirect, if_pos]
    rw [← eq_direct_of_slot hslot hdirect]
    apply List.mem_map_of_mem htie

theorem isPresent_of_left (h : Writes inst renderNil doc ties)
    (hleft : Left doc back name (last? doc name ties)) :
    back.isPresent name
      = (last? doc name ties).any fun tie => tie.target.delegate.isSome || inst.isPresent name := by
  cases hlast : last? doc name ties with
  | none =>
    rw [hlast, Left] at hleft
    rw [Instance.isPresent, hleft]
    rfl
  | some tie =>
    cases hdelegate : tie.target.delegate with
    | none =>
      rw [Instance.isPresent_congr (h.given?_of_left hleft hlast hdelegate)]
      simp [hdelegate]
    | some delegate =>
      rw [hlast, Left, hdelegate] at hleft
      rcases hleft with ⟨inner, hinner⟩
      rw [Instance.isPresent, hinner]
      simp [hdelegate, Value.isPresent]

end Writes

theorem order_of_forM_read {attributes : List Attribute} {inst final : Instance}
    (h : ties.forM (read attributes doc) inst = .ok () final) : final.order = inst.order := by
  induction ties generalizing inst with
  | nil =>
    cases h
    rfl
  | cons tie rest ih =>
    rcases exists_of_forM_read_cons h with ⟨next, hread, hrest⟩
    rw [ih hrest]
    rcases exists_of_read hread with ⟨_, rfl⟩ | ⟨held, _, rfl, _⟩ <;> rfl

/--
Two instances that were read from documents of one instance ask for the same validation as soon as they
agree on the attributes that are delegated through.
-/
theorem alike_of_left {model : Model} {renderNil' : Bool} {doc' : Document} {back' : Instance}
    (h : Writes inst renderNil doc ties) (h' : Writes inst renderNil' doc' ties)
    (hread : ties.forM (read model.attributes doc) model.newInstance = .ok () back)
    (hread' : ties.forM (read model.attributes doc') model.newInstance = .ok () back')
    (hthrough : ∀ name, (∃ tie ∈ ties, tie.target.delegate = some name) →
      back.isPresent name = back'.isPresent name) : model.Alike back back' := by
  have hleft := left_of_forM_read_new hread
  have hleft' := left_of_forM_read_new hread'
  have hdirect (name : String) (hnot : ¬ ∃ tie ∈ ties, tie.target.delegate = some name) :
      back.given? name = back'.given? name := by
    simp only [not_exists, not_and] at hnot
    rw [h.given?_of_not_through (hleft name) hnot, h'.given?_of_not_through (hleft' name) hnot]
  constructor
  case present =>
    intro a _
    by_cases hmem : ∃ tie ∈ ties, tie.target.delegate = some a.name
    . exact hthrough a.name hmem
    . exact Instance.isPresent_congr (hdirect a.name hmem)
  case counts =>
    intro a _ _
    by_cases hmem : ∃ tie ∈ ties, tie.target.delegate = some a.name
    . -- What is held under a delegate counts as one item, or as none when it is not present.
      have hpresent := hthrough a.name hmem
      rcases hmem with ⟨tie, htie, hdelegate⟩
      have hobstacle := h.obstacle?_eq_none htie hdelegate
      rw [Instance.occurrences_of_obstacle? (h.obstacle?_of_left (hleft a.name) hobstacle)]
      rw [Instance.occurrences_of_obstacle? (h'.obstacle?_of_left (hleft' a.name) hobstacle)]
      rw [hpresent]
    . exact Instance.occurrences_congr (hdirect a.name hmem)
  case order => rw [order_of_forM_read hread, order_of_forM_read hread']

end Tie

/--
Whether nulls are written makes no difference to an instance that is read back, except for the
attributes that are delegated through. Such an attribute is present when the last of its fields in the
document is read through it, or when it is the target of that field itself and was present before.
-/
theorem Declaration.presence_of_written {declaration : Declaration} {model : Model}
    (h : declaration.build.value = .ok model) {format : Format} {ties : List Tie}
    (hrules : (model.mappingOrIdentity format).rules = ties.map Tie.rule)
    (hdistinct : (ties.map (·.field)).Nodup) {inst : Instance} {renderNil : Bool} {doc : Document}
    (hdoc : (model.toDocument format inst renderNil).value = .ok doc) :
    ∃ (written : Bool → Document) (back : Bool → Instance),
      (∀ nulls, (model.toDocument format inst nulls).value = .ok (written nulls)
          ∧ (model.fromDocument format (written nulls)).value = .ok (back nulls))
        ∧ (∀ name, (∀ tie ∈ ties, tie.target.delegate ≠ some name) →
          (back true).isPresent name = (back false).isPresent name)
        ∧ (∀ name nulls, (back nulls).isPresent name
          = (Tie.last? (written nulls) name ties).any fun tie =>
              tie.target.delegate.isSome || inst.isPresent name)
        ∧ ((∀ name, (∃ tie ∈ ties, tie.target.delegate = some name) →
            (back true).isPresent name = (back false).isPresent name) →
          ∀ anchor, (model.validate (back true) anchor).value
            = (model.validate (back false) anchor).value) := by
  have hkey : (model.mappingOrIdentity format).format.isKeyValue = true := by
    rw [← Bool.not_eq_false]
    intro hformat
    rw [Model.toDocument, Mapping.toDocument, hformat] at hdoc
    cases hdoc
  have hlinked := nested_of_ties h hrules
  have hwrite (nulls : Bool) : (model.toDocument format inst nulls).value
      = ties.foldlM (Tie.write inst nulls) .empty :=
    Mapping.value_toDocument_of_rules hrules hkey inst nulls
  rw [hwrite] at hdoc
  have hgets := (Tie.writes_of_foldlM hdoc hdistinct).get_eq
  have hpass (nulls : Bool) : ∃ written back,
      ties.foldlM (Tie.write inst nulls) .empty = .ok written
        ∧ Tie.Writes inst nulls written ties
        ∧ ties.forM (Tie.read model.attributes written) model.newInstance = .ok () back := by
    rcases Tie.exists_foldlM_write hgets nulls .empty with ⟨written, hwritten⟩
    have hwrites := Tie.writes_of_foldlM hwritten hdistinct
    rcases hwrites.exists_forM_read hlinked model.name with ⟨back, hback⟩
    exact ⟨written, back, hwritten, hwrites, hback⟩
  choose written back hwritten hwrites hback using hpass
  have hleft (nulls : Bool) := Tie.left_of_forM_read_new (hback nulls)
  refine ⟨written, back, ?_, ?_, ?_, ?_⟩
  . intro nulls
    rw [hwrite, hwritten, Model.value_fromDocument_eq_ok_iff]
    rw [Mapping.value_fromDocument_of_rules hrules hkey, hback]
    exact ⟨rfl, rfl⟩
  . intro name hnot
    apply Instance.isPresent_congr
    rw [(hwrites true).given?_of_not_through (hleft true name) hnot]
    rw [(hwrites false).given?_of_not_through (hleft false name) hnot]
  . intro name nulls
    apply (hwrites nulls).isPresent_of_left (hleft nulls name)
  . intro hthrough anchor
    apply Model.validate_congr (wellNested_of_build h)
    apply Tie.alike_of_left (hwrites true) (hwrites false) (hback true) (hback false) hthrough

def Declaration.memo : Declaration where
  name := "Memo"
  kind := .model
  items := [
    .block (.particle (.choice none) [
      .leaf ⟨"sender", .model "Contact", .one⟩,
      .leaf ⟨"subject", .string, .one⟩]),
    .mapping .json [
      .rule { name := "from", target := some "name", delegate := some "sender" },
      .rule { name := "phone", target := some "phone", delegate := some "sender" },
      .rule { name := "subject", target := some "subject" }]]

def Tie.memo : List Tie := [
  ⟨"from", ⟨"name", some "sender"⟩, none⟩,
  ⟨"phone", ⟨"phone", some "sender"⟩, none⟩,
  ⟨"subject", ⟨"subject", none⟩, none⟩]

theorem memo_of_sender :
    let model := Declaration.memo.model
    let inst := (Instance.new "Memo").set "sender"
      (toValue ((Instance.new "Contact").set "name" (toValue "Ada")))
    (model.mappingOrIdentity .json).rules = Tie.memo.map Tie.rule
      ∧ (model.toDocument .json inst false).value = .ok ⟨[("from", toValue "Ada")]⟩
      ∧ ∃ (written : Bool → Document) (back : Bool → Instance),
        (∀ nulls, (model.toDocument .json inst nulls).value = .ok (written nulls)
            ∧ (model.fromDocument .json (written nulls)).value = .ok (back nulls))
          ∧ (∀ name, (∀ tie ∈ Tie.memo, tie.target.delegate ≠ some name) →
            (back true).isPresent name = (back false).isPresent name)
          ∧ (∀ name nulls, (back nulls).isPresent name
            = (Tie.last? (written nulls) name Tie.memo).any fun tie =>
                tie.target.delegate.isSome || inst.isPresent name)
          ∧ ((∀ name, (∃ tie ∈ Tie.memo, tie.target.delegate = some name) →
              (back true).isPresent name = (back false).isPresent name) →
            ∀ anchor, (model.validate (back true) anchor).value
              = (model.validate (back false) anchor).value) := by
  intro model inst
  have hbuild : Declaration.memo.build.value = .ok model := rfl
  have hrules : (model.mappingOrIdentity .json).rules = Tie.memo.map Tie.rule := rfl
  have hdoc : (model.toDocument .json inst false).value = .ok ⟨[("from", toValue "Ada")]⟩ := rfl
  exact ⟨hrules, hdoc, Declaration.presence_of_written hbuild hrules (by decide) hdoc⟩

/--
The nulls of a missing sender are read into a sender, who then stands beside the subject.
-/
theorem memo_gains_sender :
    let model := Declaration.memo.model
    let inst := (Instance.new "Memo").set "subject" (toValue "Hi")
    let sender := ((Instance.new "Contact").set "name" .null).set "phone" .null
    let nulls : Document := ⟨[("from", .null), ("phone", .null), ("subject", toValue "Hi")]⟩
    let back := ((Instance.new "Memo").set "sender" (toValue sender)).set "subject" (toValue "Hi")
    Declaration.memo.build.value = .ok model
      ∧ (model.mappingOrIdentity .json).rules = Tie.memo.map Tie.rule
      ∧ (Tie.memo.map (·.field)).Nodup
      ∧ (model.toDocument .json inst true).value = .ok nulls
      ∧ (model.fromDocument .json nulls).value = .ok back
      ∧ (model.toDocument .json inst false).value = .ok ⟨[("subject", toValue "Hi")]⟩
      ∧ (model.fromDocument .json ⟨[("subject", toValue "Hi")]⟩).value = .ok inst
      ∧ back.isPresent "sender" = true ∧ inst.isPresent "sender" = false
      ∧ (model.validate back .lenient).value = [.invalidChoice ["sender", "subject"]]
      ∧ (model.validate inst .lenient).value = [] := by
  intro model inst sender nulls back
  refine ⟨rfl, rfl, by decide, rfl, rfl, rfl, rfl, rfl, rfl, ?_⟩
  decide

end ContentModel
