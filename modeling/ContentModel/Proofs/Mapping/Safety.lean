import ContentModel.Proofs.Mapping.RoundTrip

/-!
This module contains what can go wrong in a pass over a mapping. An error comes from a function of
the caller, or from a value that is held where a nested instance belongs when it is needed.
-/

namespace ContentModel

theorem exists_of_foldlM_eq_error {ε α β : Type} {f : β → α → Except ε β} {xs : List α} {start : β}
    {e : ε} (h : xs.foldlM f start = .error e) :
    ∃ before x after mid, xs = before ++ x :: after ∧ before.foldlM f start = .ok mid
      ∧ f mid x = .error e := by
  induction xs generalizing start with
  | nil => cases h
  | cons x rest ih =>
    rw [List.foldlM_cons] at h
    cases hx : f start x with
    | error e' =>
      rw [hx] at h
      cases h
      exact ⟨[], x, rest, start, rfl, rfl, hx⟩
    | ok next =>
      rw [hx] at h
      rcases ih h with ⟨before, y, after, mid, rfl, hbefore, hy⟩
      refine ⟨x :: before, y, after, mid, rfl, ?_, hy⟩
      rw [List.foldlM_cons, hx]
      exact hbefore

theorem exists_of_forM_eq_error {ε σ α : Type} {f : α → EStateM ε σ Unit} {xs : List α}
    {start final : σ} {e : ε} (h : xs.forM f start = .error e final) :
    ∃ before x after mid, xs = before ++ x :: after ∧ before.forM f start = .ok () mid
      ∧ f x mid = .error e final := by
  induction xs generalizing start with
  | nil => cases h
  | cons x rest ih =>
    rw [List.forM] at h
    dsimp only [bind, EStateM.bind] at h
    cases hx : f x start with
    | error e' final' =>
      rw [hx] at h
      cases h
      exact ⟨[], x, rest, start, rfl, rfl, hx⟩
    | ok result next =>
      rw [hx] at h
      rcases ih h with ⟨before, y, after, mid, rfl, hbefore, hy⟩
      refine ⟨x :: before, y, after, mid, rfl, ?_, hy⟩
      rw [List.forM]
      dsimp only [bind, EStateM.bind]
      rw [hx]
      exact hbefore

/--
The value of the attribute, if it is neither null nor an instance.
-/
def Instance.obstacle? (inst : Instance) (name : String) : Option Value :=
  (inst.get? name).filter fun value => !value.isNull && value.object?.isNone

/--
The error of looking for a nested instance under the delegate, if something else is held there.
-/
def Instance.blocked? (inst : Instance) (delegate : Option String) : Option MappingError :=
  delegate.bind fun name =>
    (inst.obstacle? name).map fun value => .delegateValue name (some value.kind)

theorem Instance.blocked?_eq_some_iff {inst : Instance} {delegate : Option String} {e : MappingError} :
    inst.blocked? delegate = some e
      ↔ ∃ name value, delegate = some name ∧ inst.obstacle? name = some value
        ∧ e = .delegateValue name (some value.kind) := by
  simp [blocked?, Option.bind_eq_some_iff, @eq_comm _ _ e]

theorem Instance.obstacle?_eq_some_iff {inst : Instance} {name : String} {value : Value} :
    inst.obstacle? name = some value
      ↔ inst.get? name = some value ∧ value.isNull = false ∧ value.object? = none := by
  simp [obstacle?, Option.filter_eq_some_iff]

namespace Target

variable {target : Target} {inst next : Instance} {attributes : List Attribute} {value : Value}
  {e : MappingError}

theorem get_eq_error_iff : target.get inst = .error e ↔ inst.blocked? target.delegate = some e := by
  rcases target with ⟨name, delegate⟩
  unfold get holder
  cases delegate with
  | none => simp [Instance.blocked?, bind, Except.bind, pure, Except.pure]
  | some delegate =>
    cases hget : inst.get? delegate with
    | none =>
      simp [Instance.blocked?, Instance.obstacle?, hget, bind, Except.bind, pure, Except.pure]
    | some held =>
      cases held <;>
        simp [Instance.blocked?, Instance.obstacle?, hget, Option.filter_some, Value.isNull,
          Value.object?, bind, Except.bind, pure, Except.pure]

theorem update_eq_error_iff
    (hlinked : ∀ delegate, target.delegate = some delegate →
      (Attribute.nested? attributes delegate).isSome) :
    target.update attributes inst value = .error e ↔ inst.blocked? target.delegate = some e := by
  rcases target with ⟨name, delegate⟩
  cases delegate with
  | none => simp [update, Instance.blocked?]
  | some delegate =>
    rcases Option.isSome_iff_exists.mp (hlinked delegate rfl) with ⟨innerModel, hmodel⟩
    simp only [update, Instance.field, hmodel]
    cases hget : inst.get? delegate with
    | none => simp [Instance.blocked?, Instance.obstacle?, hget]
    | some held =>
      cases held <;>
        simp [Instance.blocked?, Instance.obstacle?, hget, Option.filter_some, Value.isNull,
          Value.object?]

theorem blocked?_of_assign
    (hlinked : ∀ delegate, target.delegate = some delegate →
      (Attribute.nested? attributes delegate).isSome)
    (h : target.assign attributes value inst = .error e next) :
    inst.blocked? target.delegate = some e := by
  unfold assign at h
  cases hset : target.update attributes inst value with
  | ok set =>
    rw [hset] at h
    cases h
  | error e' =>
    rw [hset] at h
    cases h
    rw [update_eq_error_iff hlinked] at hset
    exact hset

theorem exists_of_update_eq_ok (h : target.update attributes inst value = .ok next) :
    (target.delegate = none ∧ next = inst.set target.name value)
      ∨ ∃ delegate inner, target.delegate = some delegate
        ∧ next = inst.set delegate (.object inner) := by
  rcases target with ⟨name, delegate⟩
  cases delegate with
  | none =>
    cases h
    exact .inl ⟨rfl, rfl⟩
  | some delegate =>
    right
    unfold update at h
    dsimp only at h
    split at h
    . cases h
    . split at h
      . cases h
        exact ⟨delegate, _, rfl, rfl⟩
      . cases h
        exact ⟨delegate, _, rfl, rfl⟩
      . cases h

end Target

namespace Tie

variable {attributes : List Attribute} {doc : Document} {inst next final : Instance} {tie : Tie}
  {before ties : List Tie} {name : String}

/--
The attribute of the instance itself that the field is read into.
-/
def slot (tie : Tie) : String := tie.target.delegate.getD tie.target.name

/--
The last of the ties that is read into the attribute.
-/
def last? (doc : Document) (name : String) (ties : List Tie) : Option Tie :=
  (ties.filter fun tie => tie.slot == name && doc.contains tie.field).getLast?

theorem last?_append (doc : Document) (name : String) (before : List Tie) (tie : Tie) :
    last? doc name (before ++ [tie])
      = if tie.slot = name ∧ doc.contains tie.field = true then some tie
        else last? doc name before := by
  unfold last?
  rw [List.filter_append]
  split
  . next h => simp [h.1, h.2]
  . next h =>
    have hfalse : (tie.slot == name && doc.contains tie.field) = false := by
      simpa using h
    rw [List.filter_cons_of_neg (by simp [hfalse]), List.filter_nil, List.append_nil]

theorem mem_of_last? (h : last? doc name ties = some tie) :
    tie ∈ ties ∧ tie.slot = name ∧ doc.contains tie.field = true := by
  have hmem := List.mem_of_getLast? h
  rw [List.mem_filter, Bool.and_eq_true, beq_iff_eq] at hmem
  exact hmem

/--
What is held under an attribute that was last read by the given tie, if by any.
-/
def Left (doc : Document) (inst : Instance) (name : String) : Option Tie → Prop
  | none => inst.get? name = none
  | some tie =>
    match tie.target.delegate with
    | none => inst.get? name = doc.get? tie.field
    | some _ => ∃ inner, inst.get? name = some (.object inner)

theorem Left.congr {last : Option Tie} (h : Left doc inst name last)
    (hsame : next.get? name = inst.get? name) : Left doc next name last := by
  unfold Left at *
  rw [hsame]
  exact h

theorem exists_of_read (h : read attributes doc tie inst = .ok () next) :
    (doc.get? tie.field = none ∧ next = inst)
      ∨ ∃ held, doc.contains tie.field = true ∧ next = inst.set tie.slot held
        ∧ ((tie.target.delegate = none ∧ doc.get? tie.field = some held)
          ∨ ∃ delegate inner, tie.target.delegate = some delegate ∧ held = .object inner) := by
  unfold read at h
  cases hvalue : doc.get? tie.field with
  | none =>
    rw [hvalue] at h
    cases h
    exact .inl ⟨rfl, rfl⟩
  | some value =>
    rw [hvalue] at h
    unfold Target.assign at h
    dsimp only at h
    split at h
    . next hset =>
      cases h
      have hcontains : doc.contains tie.field = true := by
        rw [Entries.contains, hvalue]
        rfl
      right
      unfold slot
      rcases Target.exists_of_update_eq_ok hset with ⟨hdirect, rfl⟩ | ⟨delegate, inner, hdelegate, rfl⟩
      . rw [hdirect]
        exact ⟨value, hcontains, rfl, .inl ⟨rfl, rfl⟩⟩
      . rw [hdelegate]
        exact ⟨.object inner, hcontains, rfl, .inr ⟨delegate, inner, rfl, rfl⟩⟩
    . cases h

theorem left_of_read (h : read attributes doc tie inst = .ok () next)
    (hbefore : Left doc inst name (last? doc name before)) :
    Left doc next name (last? doc name (before ++ [tie])) := by
  rw [last?_append]
  rcases exists_of_read h with ⟨hnone, rfl⟩ | ⟨held, hcontains, rfl, hheld⟩
  . rw [Entries.contains, hnone, if_neg (by simp)]
    exact hbefore
  . split
    . next heq =>
      rw [Left, ← heq.1, Instance.get?_set_self]
      rcases hheld with ⟨hdirect, hvalue⟩ | ⟨delegate, inner, hdelegate, rfl⟩
      . rw [hdirect, hvalue]
      . rw [hdelegate]
        exact ⟨inner, rfl⟩
    . next hne =>
      apply hbefore.congr
      apply Instance.get?_set_of_ne
      intro heq
      exact hne ⟨heq.symm, hcontains⟩

theorem left_of_forM_read (h : ties.forM (read attributes doc) inst = .ok () final)
    (hbefore : Left doc inst name (last? doc name before)) :
    Left doc final name (last? doc name (before ++ ties)) := by
  -- The ties that were read move over to those before, which the last tie is looked for among.
  induction ties generalizing before inst with
  | nil =>
    cases h
    rw [List.append_nil]
    exact hbefore
  | cons tie rest ih =>
    rcases exists_of_forM_read_cons h with ⟨next, hread, hrest⟩
    rw [List.append_cons]
    apply ih hrest
    apply left_of_read hread hbefore

/--
What a pass leaves under an attribute of a new instance is decided by the last tie that is read into
it.
-/
theorem left_of_forM_read_new {model : String}
    (h : ties.forM (read attributes doc) (.new model) = .ok () final) (name : String) :
    Left doc final name (last? doc name ties) := by
  have hstart : Left doc (.new model) name (last? doc name []) := rfl
  apply left_of_forM_read h hstart

theorem write_eq_error_iff {renderNil : Bool} {e : MappingError} :
    write inst renderNil doc tie = .error e ↔ inst.blocked? tie.target.delegate = some e := by
  rw [← Target.get_eq_error_iff, write, ← Target.get_eq_held]
  cases tie.target.get inst with
  | error e' => simp [bind, Except.bind]
  | ok value =>
    dsimp only [bind, Except.bind]
    split <;> simp [pure, Except.pure]

theorem foldlM_write_eq_error_iff {renderNil : Bool} {e : MappingError} :
    ties.foldlM (write inst renderNil) doc = .error e
      ↔ ties.findSome? (fun tie => inst.blocked? tie.target.delegate) = some e := by
  induction ties generalizing doc with
  | nil => simp [pure, Except.pure]
  | cons tie rest ih =>
    rw [List.foldlM_cons, List.findSome?_cons]
    cases hwrite : write inst renderNil doc tie with
    | error e' =>
      rw [write_eq_error_iff.mp hwrite]
      simp [bind, Except.bind]
    | ok next =>
      have hnone : inst.blocked? tie.target.delegate = none := by
        rw [Option.eq_none_iff_forall_ne_some]
        intro e' hblocked
        rw [write_eq_error_iff.mpr hblocked] at hwrite
        cases hwrite
      rw [hnone]
      exact ih

theorem read_eq_error {left : Instance} {e : MappingError}
    (hlinked : ∀ delegate, tie.target.delegate = some delegate →
      (Attribute.nested? attributes delegate).isSome)
    (h : read attributes doc tie inst = .error e left) :
    inst.blocked? tie.target.delegate = some e := by
  unfold read at h
  cases hvalue : doc.get? tie.field with
  | none =>
    rw [hvalue] at h
    cases h
  | some value =>
    rw [hvalue] at h
    apply Target.blocked?_of_assign hlinked h

/--
Where a tie finds something else than an instance, that was put there by a tie of the attribute itself.
-/
theorem Left.direct_of_blocked? {last : Option Tie} {e : MappingError}
    (h : Left doc inst name last) (hblocked : inst.blocked? (some name) = some e) :
    ∃ tie, last = some tie ∧ tie.target.delegate = none := by
  rcases Instance.blocked?_eq_some_iff.mp hblocked with ⟨_, value, heq, hvalue, _⟩
  cases heq
  rcases Instance.obstacle?_eq_some_iff.mp hvalue with ⟨hget, _, hobject⟩
  cases last with
  | none =>
    rw [Left, hget] at h
    cases h
  | some tie =>
    refine ⟨tie, rfl, ?_⟩
    cases hdelegate : tie.target.delegate with
    | none => rfl
    | some delegate =>
      rw [Left, hdelegate] at h
      rcases h with ⟨inner, hinner⟩
      rw [hget] at hinner
      cases hinner
      cases hobject

theorem eq_direct_of_slot (h : tie.slot = name) (hdirect : tie.target.delegate = none) :
    tie.target = ⟨name, none⟩ := by
  rcases tie with ⟨field, ⟨target, delegate⟩, renderNil⟩
  cases hdirect
  cases h
  rfl

theorem exists_of_forM_read_eq_error {model : String} {left : Instance} {e : MappingError}
    (hlinked : ∀ tie ∈ ties, ∀ delegate, tie.target.delegate = some delegate →
      (Attribute.nested? attributes delegate).isSome)
    (h : ties.forM (read attributes doc) (.new model) = .error e left) :
    ∃ before tie after delegate kind, ties = before ++ tie :: after
      ∧ tie.target.delegate = some delegate ∧ e = .delegateValue delegate (some kind)
      ∧ ∃ other ∈ before, other.target = ⟨delegate, none⟩ := by
  rcases exists_of_forM_eq_error h with ⟨before, tie, after, mid, rfl, hbefore, hread⟩
  have hblocked := read_eq_error (hlinked tie (by simp)) hread
  rcases Instance.blocked?_eq_some_iff.mp hblocked with ⟨delegate, value, hdelegate, _, heq⟩
  refine ⟨before, tie, after, delegate, value.kind, rfl, hdelegate, heq, ?_⟩
  -- Before the tie that fails all went well, so the last of those ties has put the value there.
  rw [hdelegate] at hblocked
  rcases (left_of_forM_read_new hbefore delegate).direct_of_blocked? hblocked
    with ⟨other, hlast, hdirect⟩
  rcases mem_of_last? hlast with ⟨hmem, hslot, _⟩
  exact ⟨other, hmem, eq_direct_of_slot hslot hdirect⟩

theorem slot_mem_of_problem? (h : tie.rule.problem? attributes = none) :
    tie.slot ∈ attributes.map (·.name) := by
  rcases tie with ⟨field, ⟨target, delegate⟩, renderNil⟩
  cases delegate with
  | none => simpa [Rule.problem?, rule, Rule.delegate?, slot] using h
  | some delegate =>
    have hnested : (Attribute.nested? attributes delegate).isSome = true :=
      Rule.isSome_nested?_of_problem? h rfl
    rw [Attribute.nested?, Option.isSome_iff_exists] at hnested
    rcases hnested with ⟨innerModel, hmodel⟩
    rcases Option.bind_eq_some_iff.mp hmodel with ⟨a, hfind, _⟩
    have hname : a.name = delegate := by simpa using List.find?_some hfind
    exact List.mem_map.mpr ⟨a, List.mem_of_find?_eq_some hfind, hname⟩

theorem exists_of_mem_keys {model : String}
    (h : ties.forM (read attributes doc) (.new model) = .ok () final)
    (hname : name ∈ final.fields.keys) : ∃ tie ∈ ties, tie.slot = name := by
  have hleft := left_of_forM_read_new h name
  cases hlast : last? doc name ties with
  | none =>
    rw [hlast, Left, Instance.get?, Entries.get?_eq_none_iff] at hleft
    exact absurd hname hleft
  | some tie =>
    rcases mem_of_last? hlast with ⟨htie, hslot, _⟩
    exact ⟨tie, htie, hslot⟩

end Tie

namespace MappingEntry

variable {attributes : List Attribute} {inst left : Instance} {renderNil : Bool} {doc : Document}
  {entry : MappingEntry} {e : MappingError}

/--
Why an entry cannot be written: its function gives the error, or something else is held where it looks
for a nested instance.
-/
def WriteError (inst : Instance) (doc : Document) (e : MappingError) : MappingEntry → Prop
  | .rule draft =>
    match draft.write with
    | some write => written write inst doc = .error e
    | none => inst.blocked? draft.delegate = some e
  | .group functions _ => written functions.write inst .empty = .error e

/--
Why a field cannot be read by an entry that is no group.
-/
def ReadError (doc : Document) (inst : Instance) (e : MappingError) : MappingEntry → Prop
  | .rule draft =>
    ∃ value, doc.get? draft.name = some value
      ∧ match draft.read with
        | some read => ∃ left, read value inst = .error e left
        | none => inst.blocked? draft.delegate = some e
  | .group .. => False

theorem writeError_of_write (h : write inst renderNil doc entry = .error e) :
    entry.WriteError inst doc e := by
  cases entry with
  | rule draft =>
    rw [WriteError]
    rw [write] at h
    cases hwrite : draft.write with
    | some write =>
      rw [hwrite] at h
      exact h
    | none =>
      rw [hwrite] at h
      cases htarget : draft.target with
      | none =>
        rw [htarget] at h
        cases h
      | some name =>
        rw [htarget] at h
        exact Tie.write_eq_error_iff.mp h
  | group functions fields =>
    rw [WriteError]
    rw [write] at h
    split at h
    . cases h
    . cases hpart : written functions.write inst .empty with
      | error e' =>
        rw [hpart] at h
        cases h
        rfl
      | ok part =>
        rw [hpart] at h
        cases h

theorem readError_of_readAlone {draft : RuleDraft} {rule : Rule}
    (hcomplete : draft.complete = .ok rule) (hproblem : rule.problem? attributes = none)
    (h : readAlone attributes doc (.rule draft) inst = .error e left) :
    ReadError doc inst e (.rule draft) := by
  rw [readAlone] at h
  cases hvalue : doc.get? draft.name with
  | none =>
    rw [hvalue] at h
    cases h
  | some value =>
    rw [hvalue] at h
    refine ⟨value, hvalue, ?_⟩
    unfold RuleDraft.readValue at h
    cases hread : draft.read with
    | some read =>
      rw [hread] at h
      exact ⟨left, h⟩
    | none =>
      rw [hread] at h
      cases htarget : draft.target with
      | none =>
        rw [htarget] at h
        cases h
      | some name =>
        rw [htarget] at h
        refine Target.blocked?_of_assign ?_ h
        intro delegate hdelegate
        rw [← RuleDraft.delegate?_of_complete_eq_ok hcomplete] at hdelegate
        apply Rule.isSome_nested?_of_problem? hproblem hdelegate

theorem Numbered.exists_rule {lo hi : Nat} {entries : List MappingEntry} {rules : List Rule}
    (h : Numbered lo hi entries rules) {draft : RuleDraft} (hdraft : .rule draft ∈ entries) :
    ∃ rule ∈ rules, draft.complete = .ok rule := by
  induction h with
  | nil h => cases hdraft
  | @rule lo hi first complete entries rules h rest ih =>
    rcases List.mem_cons.mp hdraft with heq | hdraft
    . cases heq
      exact ⟨complete, List.mem_cons_self, h⟩
    . rcases ih hdraft with ⟨rule, hrule, hcomplete⟩
      exact ⟨rule, List.mem_cons_of_mem _ hrule, hcomplete⟩
  | group h rest ih =>
    rcases List.mem_cons.mp hdraft with heq | hdraft
    . cases heq
    . rcases ih hdraft with ⟨rule, hrule, hcomplete⟩
      exact ⟨rule, List.mem_append_right _ hrule, hcomplete⟩

/--
Some entry cannot be written behind those before it.
-/
def WriteFailure (inst : Instance) (renderNil : Bool) (entries : List MappingEntry)
    (e : MappingError) : Prop :=
  ∃ before entry after doc, entries = before ++ entry :: after
    ∧ before.foldlM (write inst renderNil) .empty = .ok doc ∧ entry.WriteError inst doc e

/--
Some field cannot be read behind those before it, or the read function of a group gives the error.
-/
def ReadFailure (attributes : List Attribute) (doc : Document) (start : Instance)
    (entries : List MappingEntry) (e : MappingError) : Prop :=
  (∃ before entry after mid, entries = before ++ entry :: after
      ∧ before.forM (readAlone attributes doc) start = .ok () mid ∧ entry.ReadError doc mid e)
    ∨ ∃ alone before part after mid left,
      entries.forM (readAlone attributes doc) start = .ok () alone
        ∧ entries.filterMap (part? doc) = before ++ part :: after
        ∧ before.forM (fun part => part.1.read (.map part.2)) alone = .ok () mid
        ∧ part.1.read (.map part.2) mid = .error e left

theorem writeFailure_of_foldlM {entries : List MappingEntry}
    (h : entries.foldlM (write inst renderNil) .empty = .error e) :
    WriteFailure inst renderNil entries e := by
  rcases exists_of_foldlM_eq_error h with ⟨before, entry, after, doc, heq, hbefore, hwrite⟩
  exact ⟨before, entry, after, doc, heq, hbefore, writeError_of_write hwrite⟩

theorem readFailure_of_readAll {lo hi : Nat} {entries : List MappingEntry} {rules : List Rule}
    (hnumbered : Numbered lo hi entries rules)
    (hproblem : ∀ rule ∈ rules, rule.problem? attributes = none)
    (h : readAll attributes doc entries inst = .error e left) :
    ReadFailure attributes doc inst entries e := by
  unfold readAll at h
  dsimp only [bind, EStateM.bind] at h
  cases halone : entries.forM (readAlone attributes doc) inst with
  | error e' left' =>
    rw [halone] at h
    cases h
    rcases exists_of_forM_eq_error halone with ⟨before, entry, after, mid, rfl, hbefore, hread⟩
    refine .inl ⟨before, entry, after, mid, rfl, hbefore, ?_⟩
    cases entry with
    | rule draft =>
      have hdraft : .rule draft ∈ before ++ .rule draft :: after := by simp
      rcases hnumbered.exists_rule hdraft with ⟨rule, hrule, hcomplete⟩
      exact readError_of_readAlone hcomplete (hproblem rule hrule) hread
    | group functions fields => cases hread
  | ok result alone =>
    rw [halone] at h
    rcases exists_of_forM_eq_error h with ⟨before, part, after, mid, heq, hbefore, hread⟩
    exact .inr ⟨alone, before, part, after, mid, left, halone, heq, hbefore, hread⟩

end MappingEntry

namespace Model

variable {model : Model} {format : Format} {doc : Document}

theorem value_fromDocument_eq_error_iff {e : MappingError} :
    (model.fromDocument format doc).value = .error e
      ↔ ∃ left, ((model.mappingOrIdentity format).fromDocument model.attributes doc
          model.newInstance).value = .error e left := by
  rw [fromDocument, Logged.value_bind]
  cases ((model.mappingOrIdentity format).fromDocument model.attributes doc model.newInstance).value
  . simp [pure]
  . simp [pure]

end Model

namespace Declaration

variable {declaration : Declaration} {model : Model}

/--
The entries behind the mapping that is used for a format. Without a mapping every attribute has one.
-/
def usedEntries (declaration : Declaration) (model : Model) (format : Format) : List MappingEntry :=
  match model.mapping? format with
  | some mapping => declaration.entries mapping.format
  | none => model.attributes.map fun a => .rule { name := a.name, target := some a.name }

theorem numbered_usedEntries (h : declaration.build.value = .ok model) (format : Format) :
    ∃ n, MappingEntry.Numbered 0 n (declaration.usedEntries model format)
      (model.mappingOrIdentity format).rules := by
  unfold usedEntries Model.mappingOrIdentity
  cases hmapping : model.mapping? format with
  | some mapping => exact numbered_of_build h (Model.of_mapping?_eq_some hmapping).1
  | none =>
    refine ⟨0, ?_⟩
    have hnumbered := Tie.numbered_map_entry
      (model.attributes.map fun a => ⟨a.name, ⟨a.name, none⟩, none⟩)
    rw [List.map_map, List.map_map] at hnumbered
    exact hnumbered

/--
A pass over an accepted mapping fails only where a function fails or where something else is held in
the place of a nested instance. Without functions it is known beforehand whether writing fails, reading
fails only behind a rule that reads into the delegate itself, and what was read has declared fields.
-/
theorem mapping_safe (h : declaration.build.value = .ok model) {format : Format}
    (hformat : format.isKeyValue = true) :
    (∀ inst renderNil e, (model.toDocument format inst renderNil).value = .error e →
        MappingEntry.WriteFailure inst renderNil (declaration.usedEntries model format) e)
      ∧ (∀ doc e, (model.fromDocument format doc).value = .error e →
        MappingEntry.ReadFailure model.attributes doc model.newInstance
          (declaration.usedEntries model format) e)
      ∧ ((∀ rule ∈ (model.mappingOrIdentity format).rules, rule.custom? = none) →
        (∀ inst renderNil e, (model.toDocument format inst renderNil).value = .error e
            ↔ (model.mappingOrIdentity format).rules.findSome? (inst.blocked? ·.delegate?) = some e)
          ∧ (∀ doc e, (model.fromDocument format doc).value = .error e →
            ∃ before rule after delegate kind,
              (model.mappingOrIdentity format).rules = before ++ rule :: after
                ∧ rule.delegate? = some delegate ∧ e = .delegateValue delegate (some kind)
                ∧ ∃ other ∈ before, other.handler = .target ⟨delegate, none⟩)
          ∧ (∀ doc back, (model.fromDocument format doc).value = .ok back →
            ∀ name ∈ back.fields.keys, name ∈ model.attributes.map (·.name))) := by
  have hkey : (model.mappingOrIdentity format).format.isKeyValue = true :=
    (model.isKeyValue_mappingOrIdentity format).trans hformat
  have hproblem := problem?_mappingOrIdentity h format
  rcases numbered_usedEntries h format with ⟨n, hnumbered⟩
  refine ⟨?_, ?_, ?_⟩
  . intro inst renderNil e herror
    rw [Model.toDocument, Mapping.value_toDocument hnumbered hkey] at herror
    apply MappingEntry.writeFailure_of_foldlM herror
  . intro doc e herror
    rcases Model.value_fromDocument_eq_error_iff.mp herror with ⟨left, hleft⟩
    rw [Mapping.value_fromDocument hnumbered hkey] at hleft
    apply MappingEntry.readFailure_of_readAll hnumbered hproblem hleft
  . intro hcustom
    -- Without functions all rules are ties.
    rcases Rule.exists_ties hcustom with ⟨ties, hrules⟩
    have hlinked := nested_of_ties h hrules
    refine ⟨?_, ?_, ?_⟩
    . intro inst renderNil e
      rw [Model.toDocument, Mapping.value_toDocument_of_rules hrules hkey]
      rw [Tie.foldlM_write_eq_error_iff, hrules, List.findSome?_map]
      rfl
    . intro doc e herror
      rcases Model.value_fromDocument_eq_error_iff.mp herror with ⟨left, hleft⟩
      rw [Mapping.value_fromDocument_of_rules hrules hkey] at hleft
      rcases Tie.exists_of_forM_read_eq_error hlinked hleft
        with ⟨before, tie, after, delegate, kind, rfl, hdelegate, heq, other, hother, hdirect⟩
      refine ⟨before.map Tie.rule, tie.rule, after.map Tie.rule, delegate, kind, ?_, hdelegate,
        heq, ?_⟩
      . rw [hrules, List.map_append, List.map_cons]
      . refine ⟨other.rule, List.mem_map_of_mem hother, ?_⟩
        rw [Tie.rule, hdirect]
    . intro doc back hback name hname
      rw [Model.value_fromDocument_eq_ok_iff, Mapping.value_fromDocument_of_rules hrules hkey] at hback
      rcases Tie.exists_of_mem_keys hback hname with ⟨tie, htie, rfl⟩
      apply Tie.slot_mem_of_problem?
      apply hproblem
      rw [hrules]
      apply List.mem_map_of_mem htie

end Declaration

def Declaration.shipment : Declaration where
  name := "Shipment"
  kind := .model
  items := [
    .block (.leaf ⟨"owner", .model "Person", .one⟩),
    .mapping .json [
      .rule { name := "owner", target := some "owner" },
      .rule { name := "name", target := some "name", delegate := some "owner" }],
    .mapping .keyValue [
      .rule { name := "name", target := some "name", delegate := some "owner" },
      .group (.copying ["weight"]) ["weight"]]]

theorem shipment_safe :
    let model := Declaration.shipment.model
    let rules := (model.mappingOrIdentity .json).rules
    let inst := Instance.new "Shipment"
    let doc : Document := ⟨[("owner", toValue "Ada"), ("name", toValue "Ada")]⟩
    (model.toDocument .yaml inst false).value = .error (.custom "copy" "nothing to copy")
      ∧ MappingEntry.WriteFailure inst false (Declaration.shipment.usedEntries model .yaml)
        (.custom "copy" "nothing to copy")
      ∧ (model.fromDocument .json doc).value = .error (.delegateValue "owner" (some .string))
      ∧ ∃ before rule after delegate kind, rules = before ++ rule :: after
        ∧ rule.delegate? = some delegate
        ∧ MappingError.delegateValue "owner" (some .string) = .delegateValue delegate (some kind)
        ∧ ∃ other ∈ before, other.handler = .target ⟨delegate, none⟩ := by
  intro model rules inst doc
  have hbuild : Declaration.shipment.build.value = .ok model := rfl
  have hcustom : ∀ rule ∈ rules, rule.custom? = none := by
    intro rule hrule
    have hrules : rules = [.direct "owner", ⟨"name", .target ⟨"name", some "owner"⟩, none⟩] := rfl
    rw [hrules] at hrule
    simp only [List.mem_cons, List.not_mem_nil, or_false] at hrule
    rcases hrule with rfl | rfl <;> rfl
  have hyaml : Format.yaml.isKeyValue = true := rfl
  have hjson : Format.json.isKeyValue = true := rfl
  refine ⟨rfl, ?_, rfl, ?_⟩
  . exact (Declaration.mapping_safe hbuild hyaml).1 inst false _ rfl
  . exact ((Declaration.mapping_safe hbuild hjson).2.2 hcustom).2.1 doc _ rfl

end ContentModel
