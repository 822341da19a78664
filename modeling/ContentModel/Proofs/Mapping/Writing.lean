import ContentModel.Proofs.Declaration.Mappings

/-!
This module contains what a writing pass does, entry by entry. A group is written as a whole at the
place where it was declared, however the collector comes by its functions and wherever the pass finds
out that the rules of the group have ended.
-/

namespace ContentModel

/--
What a caller's function makes of a document, without what a function that fails leaves behind.
-/
def written (write : Writer) (inst : Instance) (doc : Document) : Except MappingError Document :=
  match write inst doc with
  | .ok () doc => .ok doc
  | .error e _ => .error e

/--
The value of a field, null when it is not set.
-/
def Instance.field (inst : Instance) (name : String) : Value := (inst.get? name).getD .null

/--
What there is to write of a target: a field of the instance itself, or of the instance in the field of
the delegate. A field that is not set counts as null and a delegate that is null has only nulls, but
under any other delegate there is nothing to be found.
-/
def Target.held (target : Target) (inst : Instance) : Except MappingError Value :=
  match target.delegate with
  | none => .ok (inst.field target.name)
  | some delegate =>
    match inst.field delegate with
    | .null => .ok .null
    | .object inner => .ok (inner.field target.name)
    | other => .error (.delegateValue delegate (some other.kind))

theorem Target.get_eq_held (target : Target) (inst : Instance) : target.get inst = target.held inst := by
  rcases target with ⟨name, delegate⟩
  unfold get holder held
  cases delegate with
  | none => rfl
  | some delegate =>
    dsimp only [Instance.field]
    cases inst.get? delegate with
    | none => rfl
    | some value => cases value <;> rfl

/--
What a rule without functions says: a field is exchanged with a target.
-/
structure Tie where
  field : String
  target : Target
  renderNil : Option Bool := none

namespace Tie

def rule (tie : Tie) : Rule := ⟨tie.field, .target tie.target, tie.renderNil⟩

/--
Write what the target holds under the field, a null only when it is asked for.
-/
def write (inst : Instance) (renderNil : Bool) (doc : Document) (tie : Tie) :
    Except MappingError Document := do
  let value ← tie.target.held inst
  if value.isNull && !tie.renderNil.getD renderNil then
    return doc
  else
    return doc.insert tie.field value

end Tie

namespace MappingEntry

/--
Write one declared entry behind the document so far. A group with fields writes to a document of its
own, which then goes into the other.
-/
def write (inst : Instance) (renderNil : Bool) (doc : Document) :
    MappingEntry → Except MappingError Document
  | .rule draft =>
    match draft.write, draft.target with
    | some write, _ => written write inst doc
    | none, some name =>
      Tie.write inst renderNil doc ⟨draft.name, ⟨name, draft.delegate⟩, draft.renderNil⟩
    | none, none => return doc
  | .group functions fields =>
    if fields.isEmpty then
      return doc
    else do
      let part ← written functions.write inst .empty
      return doc.insertAll part.toList

end MappingEntry

theorem Rule.serialize_custom (name : String) (functions : Custom) (target delegate : Option String)
    (renderNil : Option Bool) (inst : Instance) (doc : Document) :
    (Rule.mk name (.custom functions target delegate) renderNil).serialize inst doc
      = match functions.write inst doc with
        | .ok () doc => .ok none doc
        | .error e doc => .error e doc := by
  unfold serialize
  dsimp only [bind, EStateM.bind]
  cases functions.write inst doc <;> rfl

namespace Collector

variable {groups : Collector} {id : GroupId} {functions : Custom}

theorem ids_append (groups : Collector) (id : GroupId) (bucket : Bucket) :
    ids ⟨groups.buckets ++ [(id, bucket)]⟩ = groups.ids ++ [id] := by
  simp [ids]

/--
The groups seen so far are numbered below `n`.
-/
def Below (groups : Collector) (n : Nat) : Prop := ∀ id ∈ groups.ids, id.index < n

theorem below_empty (n : Nat) : empty.Below n := by
  intro id hid
  cases hid

theorem Below.not_mem {m n : Nat} (h : groups.Below m) (hle : m ≤ n) : ⟨n⟩ ∉ groups.ids := by
  intro hmem
  have : n < m := h ⟨n⟩ hmem
  omega

theorem Below.mono {m n : Nat} (h : groups.Below m) (hle : m ≤ n) : groups.Below n := by
  intro id hid
  exact Nat.lt_of_lt_of_le (h id hid) hle

theorem Below.append {m n : Nat} (h : groups.Below m) (hle : m ≤ n) (bucket : Bucket) :
    Below ⟨groups.buckets ++ [(⟨n⟩, bucket)]⟩ (n + 1) := by
  intro id hid
  rw [ids_append] at hid
  rcases List.mem_append.mp hid with hid | hid
  . have := h id hid
    omega
  . cases List.mem_singleton.mp hid
    exact Nat.lt_succ_self n

theorem enter_of_not_mem (h : id ∉ groups.ids) (field : String) :
    groups.enter (.grouped id functions field)
      = ⟨groups.buckets ++ [(id, ⟨functions, .empty, false⟩)]⟩ :=
  if_neg h

theorem enter_of_mem (h : id ∈ groups.ids) (field : String) :
    groups.enter (.grouped id functions field) = groups :=
  if_pos h

theorem find?_append_of_not_mem (h : id ∉ groups.ids) (bucket : Bucket) :
    find? ⟨groups.buckets ++ [(id, bucket)]⟩ id = some bucket := by
  unfold find? ids at *
  rw [List.lookup_append, List.lookup_eq_none_iff.mpr, Option.none_or, List.lookup_cons_self]
  intro entry hentry
  have hne : id ≠ entry.1 := fun heq => h (List.mem_map.mpr ⟨entry, hentry, heq.symm⟩)
  simpa using hne

theorem ids_modify (groups : Collector) (id : GroupId) (f : Bucket → Bucket) :
    (groups.modify id f).ids = groups.ids := by
  unfold ids modify
  rw [List.map_map]
  apply List.map_congr_left
  intro entry _
  rw [Function.comp_apply]
  split
  . next heq => exact heq.symm
  . rfl

theorem ids_flush (groups : Collector) (id : GroupId) (inst : Instance) (doc : Document) :
    (groups.flush id inst doc).1.ids = groups.ids := by
  unfold flush
  split
  . rfl
  . split
    . rfl
    . dsimp only
      split <;> apply ids_modify

theorem value_flush_of_not_mem (h : id ∉ groups.ids) (inst : Instance) (doc : Document) :
    (flush ⟨groups.buckets ++ [(id, ⟨functions, .empty, false⟩)]⟩ id inst doc).2.value
      = (written functions.write inst .empty).map fun part => doc.insertAll part.toList := by
  unfold flush written
  rw [find?_append_of_not_mem h]
  dsimp only [Bool.false_eq_true, if_false]
  cases functions.write inst .empty <;> rfl

end Collector

namespace Mapping.Writing

variable {inst : Instance} {renderNil : Bool} {doc : Document} {groups : Collector} {id : GroupId}
  {rule : Rule} {rules : List Rule}

theorem value_run_cons (state : Writing) :
    (run inst renderNil state (rule :: rules)).value
      = (state.step rule inst renderNil).value >>= fun state =>
          (run inst renderNil state rules).value := by
  rw [run, Logged.value_bind]
  cases (state.step rule inst renderNil).value <;> rfl

theorem value_close :
    (close ⟨doc, groups, some id⟩ inst).value
      = (groups.flush id inst doc).2.value.map fun document =>
          ⟨document, (groups.flush id inst doc).1, none⟩ := rfl

theorem value_step_of_none (h : rule.group? = none) :
    (step ⟨doc, groups, none⟩ rule inst renderNil).value
      = (put ⟨doc, groups, none⟩ rule inst renderNil).value := by
  rw [step, if_pos h, Logged.value_bind, Logged.value_pure]
  dsimp only
  rw [h]

theorem value_step_of_some (h : rule.group? = some id) :
    (step ⟨doc, groups, none⟩ rule inst renderNil).value
      = .ok ⟨doc, groups.enter rule, some id⟩ := by
  rw [step, h, if_neg (Option.some_ne_none id)]
  rfl

theorem value_step_of_same (h : rule.group? = some id) :
    (step ⟨doc, groups, some id⟩ rule inst renderNil).value
      = .ok ⟨doc, groups.enter rule, some id⟩ := by
  rw [step, h, if_pos rfl]
  rfl

theorem value_step_of_left (h : rule.group? ≠ some id) :
    (step ⟨doc, groups, some id⟩ rule inst renderNil).value
      = (close ⟨doc, groups, some id⟩ inst).value >>= fun state =>
          (step state rule inst renderNil).value := by
  rw [step, if_neg h, Logged.value_bind, value_close]
  cases (groups.flush id inst doc).2.value with
  | error e => rfl
  | ok document =>
    dsimp only [Except.map, bind, Except.bind]
    cases hgroup : rule.group? with
    | none => rw [value_step_of_none hgroup]
    | some other =>
      rw [value_step_of_some hgroup]
      rfl

theorem value_run_of_left (h : ∀ rule ∈ rules, rule.group? ≠ some id) :
    (run inst renderNil ⟨doc, groups, some id⟩ rules).value
      = (groups.flush id inst doc).2.value >>= fun document =>
          (run inst renderNil ⟨document, (groups.flush id inst doc).1, none⟩ rules).value := by
  cases rules with
  | nil =>
    rw [run, value_close]
    cases (groups.flush id inst doc).2.value <;> rfl
  | cons rule rest =>
    rw [value_run_cons, value_step_of_left (h rule List.mem_cons_self), value_close]
    cases (groups.flush id inst doc).2.value with
    | error e => rfl
    | ok document => exact (value_run_cons _).symm

theorem value_run_of_mem (h : id ∈ groups.ids) (functions : Custom) (fields : List String) :
    (run inst renderNil ⟨doc, groups, some id⟩
        (fields.map (Rule.grouped id functions) ++ rules)).value
      = (run inst renderNil ⟨doc, groups, some id⟩ rules).value := by
  induction fields with
  | nil => rfl
  | cons field rest ih =>
    rw [List.map_cons, List.cons_append, value_run_cons, value_step_of_same rfl]
    rw [Collector.enter_of_mem h]
    exact ih

theorem value_run_group (h : id ∉ groups.ids) (functions : Custom) (field : String)
    (fields : List String) :
    (run inst renderNil ⟨doc, groups, none⟩
        ((field :: fields).map (Rule.grouped id functions) ++ rules)).value
      = (run inst renderNil
          ⟨doc, ⟨groups.buckets ++ [(id, ⟨functions, .empty, false⟩)]⟩, some id⟩ rules).value := by
  rw [List.map_cons, List.cons_append, value_run_cons, value_step_of_some rfl]
  rw [Collector.enter_of_not_mem h]
  apply value_run_of_mem
  simp [Collector.ids]

theorem value_put {draft : RuleDraft} (h : draft.complete = .ok rule) :
    (put ⟨doc, groups, none⟩ rule inst renderNil).value
      = (MappingEntry.write inst renderNil doc (.rule draft)).map fun document =>
          ⟨document, groups, none⟩ := by
  unfold RuleDraft.complete at h
  split at h
  . next read write hread hwrite =>
    cases h
    rw [put, Rule.serialize_custom, MappingEntry.write, hwrite]
    unfold written
    dsimp only
    cases write inst doc <;> rfl
  . next hread hwrite =>
    split at h
    . next name htarget =>
      cases h
      rw [put, Rule.serialize, MappingEntry.write, hwrite, htarget]
      dsimp only [Tie.write]
      rw [Target.get_eq_held]
      cases Target.held ⟨name, draft.delegate⟩ inst with
      | error e => rfl
      | ok value =>
        change Logged.value (if _ then _ else _) = Except.map _ (if _ then _ else _)
        split <;> rfl
    . cases h
  . cases h

theorem value_run_of_numbered {lo hi : Nat} {entries : List MappingEntry}
    (h : MappingEntry.Numbered lo hi entries rules) (hgroups : groups.Below lo) :
    (run inst renderNil ⟨doc, groups, none⟩ rules).value.map (·.document)
      = entries.foldlM (MappingEntry.write inst renderNil) doc := by
  induction h generalizing groups doc with
  | nil h => rfl
  | @rule lo hi draft complete entries rules h rest ih =>
    rw [value_run_cons, value_step_of_none (RuleDraft.group?_of_complete_eq_ok h), value_put h]
    rw [List.foldlM_cons]
    cases MappingEntry.write inst renderNil doc (.rule draft) with
    | error e => rfl
    | ok document => exact ih hgroups
  | @group lo hi n functions fields entries rules h rest ih =>
    have hnew := hgroups.not_mem h
    have hother : ∀ rule ∈ rules, rule.group? ≠ some ⟨n⟩ := by
      intro rule hrule hgroup
      have : n + 1 ≤ n := rest.le_index hrule hgroup
      omega
    rw [List.foldlM_cons]
    cases fields with
    | nil => exact ih (hgroups.mono (Nat.le_succ_of_le h))
    | cons field fields =>
      rw [value_run_group hnew, value_run_of_left hother]
      rw [Collector.value_flush_of_not_mem hnew, MappingEntry.write]
      cases written functions.write inst .empty with
      | error e => rfl
      | ok part =>
        refine ih ?_
        unfold Collector.Below
        rw [Collector.ids_flush]
        exact hgroups.append h _

end Mapping.Writing

theorem Mapping.value_toDocument {mapping : Mapping} {lo hi : Nat} {entries : List MappingEntry}
    (h : MappingEntry.Numbered lo hi entries mapping.rules)
    (hformat : mapping.format.isKeyValue = true) (inst : Instance) (renderNil : Bool) :
    (mapping.toDocument inst renderNil).value
      = entries.foldlM (MappingEntry.write inst renderNil) .empty := by
  rw [toDocument, if_pos hformat, Logged.value_bind]
  exact Writing.value_run_of_numbered h (Collector.below_empty lo)

/--
Writing a key-value document goes through the declared entries one after the other up to the first
error, and a group is a single entry. Other formats are refused at once.
-/
theorem Declaration.toDocument_eq_foldlM {declaration : Declaration} {model : Model}
    (h : declaration.build.value = .ok model) {mapping : Mapping} (hmapping : mapping ∈ model.mappings)
    (inst : Instance) (renderNil : Bool) :
    (mapping.format.isKeyValue = true →
        (mapping.toDocument inst renderNil).value
          = (declaration.entries mapping.format).foldlM (MappingEntry.write inst renderNil) .empty)
      ∧ (mapping.format.isKeyValue = false →
        mapping.toDocument inst renderNil = pure (.error (.notKeyValue mapping.format))) := by
  constructor
  . intro hformat
    rcases numbered_of_build h hmapping with ⟨n, hnumbered⟩
    exact mapping.value_toDocument hnumbered hformat inst renderNil
  . intro hformat
    rw [Mapping.toDocument, hformat]
    rfl

/--
Functions that copy some fields, all of which have to be set.
-/
def Custom.copying (fields : List String) : Custom where
  read value inst :=
    match value with
    | .map entries => .ok () (entries.toList.foldl (fun inst entry => inst.set entry.1 entry.2) inst)
    | other => .error (.notDocument other.kind) inst
  write inst doc :=
    match fields.mapM fun field => (inst.get? field).map (field, ·) with
    | some pairs => .ok () (doc.insertAll pairs)
    | none => .error (.custom "copy" "nothing to copy") doc

def Declaration.invoice : Declaration where
  name := "Invoice"
  kind := .model
  items := [
    .mapping .xml [.group (.copying ["number"]) ["number"]],
    .mapping .keyValue [
      .rule { name := "number", target := some "number" },
      .group (.copying ["street", "town"]) ["street", "town"],
      .group (.copying ["tax"]) ["tax"]],
    .block (.leaf ⟨"number", .string, .one⟩),
    .block (.leaf ⟨"buyer", .model "Buyer", .one⟩),
    .mapping .keyValue [
      .rule { name := "note", target := some "note", delegate := some "buyer", renderNil := some true },
      .rule {
        name := "stamp",
        read := some fun value inst => .ok () (inst.set "stamp" value),
        write := some (Custom.copying ["stamp"]).write }]]

theorem invoice_written :
    let mapping := Declaration.invoice.model.mappings[1]
    let inst := (Instance.new "Invoice").set "stamp" (toValue true) |>.set "street" (toValue "S")
      |>.set "town" (toValue "T")
    let taxed := inst.set "tax" (toValue (5 : Int64))
    let buyer := (Instance.new "Buyer").set "note" (toValue "urgent")
    let bought := (taxed.set "number" (toValue "N1")).set "buyer" (.object buyer)
    let broken := taxed.set "buyer" (toValue "Bob")
    (mapping.toDocument inst false).value = .error (.custom "copy" "nothing to copy")
      ∧ (mapping.toDocument taxed false).value = .ok ⟨[
          ("street", toValue "S"), ("town", toValue "T"), ("tax", toValue (5 : Int64)),
          ("note", .null), ("stamp", toValue true)]⟩
      ∧ (mapping.toDocument bought false).value = .ok ⟨[
          ("number", toValue "N1"), ("street", toValue "S"), ("town", toValue "T"),
          ("tax", toValue (5 : Int64)), ("note", toValue "urgent"), ("stamp", toValue true)]⟩
      ∧ (mapping.toDocument broken false).value = .error (.delegateValue "buyer" (some .string)) := by
  intro mapping inst taxed buyer bought broken
  have hbuild : Declaration.invoice.build.value = .ok Declaration.invoice.model := rfl
  have hmapping : mapping ∈ Declaration.invoice.model.mappings := List.getElem_mem _
  have hwritten (inst : Instance) := (Declaration.toDocument_eq_foldlM hbuild hmapping inst false).1 rfl
  exact ⟨hwritten inst, hwritten taxed, hwritten bought, hwritten broken⟩

end ContentModel
