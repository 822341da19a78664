import Mathlib.Data.List.Induction
import Mathlib.Data.List.Forall2
import Mathlib.Data.List.Nodup
import ContentModel.Proofs.Mapping.Ties

/-!
This module contains the round trip through documents for mappings with groups. As long as no two rules
share a field and every group keeps to its own fields, a group reads back what it has written itself
and nothing else.
-/

namespace ContentModel

namespace Entries

variable {α : Type} {e other part : Entries α} {keys : List String}

theorem get?_cons (name key : String) (value : α) (rest : List (String × α)) :
    get? ⟨(name, value) :: rest⟩ key = if name = key then some value else get? ⟨rest⟩ key := rfl

theorem get?_insertAll (h : part.Distinct) (e : Entries α) (key : String) :
    (e.insertAll part.toList).get? key = (part.get? key).or (e.get? key) := by
  rcases part with ⟨pairs⟩
  unfold insertAll
  induction pairs generalizing e with
  | nil => rfl
  | cons pair rest ih =>
    rcases pair with ⟨name, value⟩
    simp only [Distinct, Entries.keys, List.map_cons, List.nodup_cons] at h
    rw [List.foldl_cons, ih _ h.2, get?_cons]
    split
    . next heq =>
      subst heq
      have hnone : get? ⟨rest⟩ name = none := by
        rw [get?_eq_none_iff]
        exact h.1
      rw [hnone, get?_insert_self]
      rfl
    . next hne => rw [get?_insert_of_ne _ _ (Ne.symm hne)]

theorem only_congr (h : ∀ key ∈ keys, other.get? key = e.get? key) :
    other.only keys = e.only keys := by
  unfold only
  congr 1
  apply List.filterMap_congr
  intro key hkey
  rw [List.mem_eraseDups] at hkey
  rw [h key hkey]

theorem distinct_only (e : Entries α) (keys : List String) : (e.only keys).Distinct := by
  induction keys using List.reverseRecOn with
  | nil => apply distinct_empty
  | append_singleton keys key ih =>
    cases hkey : e.get? key with
    | none =>
      rw [only_append_of_none hkey]
      apply ih
    | some value =>
      rw [← insert_only hkey]
      apply distinct_insert ih

theorem perm_only (h : e.Distinct) (hkeys : ∀ key ∈ e.keys, key ∈ keys) :
    (e.only keys).toList.Perm e.toList := by
  have honly := distinct_only e keys
  rw [List.perm_ext_iff_of_nodup (List.Nodup.of_map _ honly) (List.Nodup.of_map _ h)]
  rintro ⟨key, value⟩
  rw [← get?_eq_some_iff honly, ← get?_eq_some_iff h, get?_only]
  split
  . rfl
  . next hkey =>
    have hnone : e.get? key = none := by
      rw [get?_eq_none_iff]
      intro hmem
      apply hkey
      apply hkeys key hmem
    rw [hnone]

end Entries

/--
The rules are ties and groups.
-/
def Rule.Plain (rule : Rule) : Prop := rule.group? = none → rule.custom? = none

namespace MappingEntry

variable {inst : Instance} {renderNil : Bool} {doc final : Document} {entries : List MappingEntry}
  {rules : List Rule} {lo hi : Nat}

/--
A group with what it writes, if it writes anything.
-/
def section? (inst : Instance) : MappingEntry → Option (Custom × Document)
  | .rule _ => none
  | .group functions fields =>
    match written functions.write inst .empty with
    | .ok part => if fields.isEmpty || part.isEmpty then none else some (functions, part)
    | .error _ => none

/--
A group writes no fields but its own, and no field twice.
-/
def Within (inst : Instance) : MappingEntry → Prop
  | .rule _ => True
  | .group functions fields =>
    fields ≠ [] → ∀ part, written functions.write inst .empty = .ok part →
      part.Distinct ∧ ∀ field ∈ part.keys, field ∈ fields

/--
What the entries have written between two documents: each of them the fields that are its own.
-/
structure Wrote (inst : Instance) (renderNil : Bool) (entries : List MappingEntry)
    (rules : List Rule) (doc final : Document) : Prop where
  others : ∀ field ∉ rules.map (·.name), final.get? field = doc.get? field
  ties : ∀ tie ∈ rules.filterMap Rule.tie?, tie.target.get inst = .ok (tie.target.value inst)
    ∧ final.get? tie.field
      = if tie.renders inst renderNil then some (tie.target.value inst) else none
  groups : ∀ functions fields, .group functions fields ∈ entries → fields ≠ [] →
    ∃ part, written functions.write inst .empty = .ok part
      ∧ ∀ field ∈ fields, final.get? field = part.get? field

theorem filterMap_tie?_map_grouped (id : GroupId) (functions : Custom) (fields : List String) :
    (fields.map (Rule.grouped id functions)).filterMap Rule.tie? = [] := by
  simp [List.filterMap_map, Function.comp_def, Rule.grouped, Rule.tie?]

theorem forM_readAlone_of_numbered (h : Numbered lo hi entries rules)
    (hplain : ∀ rule ∈ rules, rule.Plain) (attributes : List Attribute) (doc : Document) :
    entries.forM (readAlone attributes doc)
      = (rules.filterMap Rule.tie?).forM (Tie.read attributes doc) := by
  induction h with
  | nil h => rfl
  | @rule lo hi draft complete entries rules h rest ih =>
    rw [List.forall_mem_cons] at hplain
    rcases RuleDraft.exists_tie h (hplain.1 (RuleDraft.group?_of_complete_eq_ok h))
      with ⟨tie, hrule, hentry⟩
    rw [List.filterMap_cons_some (Rule.tie?_eq_some_iff.mpr hrule), hentry]
    rw [List.forM, List.forM, ih hplain.2]
    rfl
  | @group lo hi n functions fields entries rules h rest ih =>
    rw [List.forall_mem_append] at hplain
    rw [List.filterMap_append, filterMap_tie?_map_grouped, List.nil_append, ← ih hplain.2]
    rw [List.forM, readAlone]
    rfl

theorem get?_of_write_group {functions : Custom} {fields : List String}
    (hwithin : Within inst (.group functions fields))
    (h : write inst renderNil doc (.group functions fields) = .ok final) :
    (∀ field ∉ fields, final.get? field = doc.get? field)
      ∧ (fields ≠ [] → ∃ part, written functions.write inst .empty = .ok part
        ∧ ∀ field ∈ fields, final.get? field = (part.get? field).or (doc.get? field)) := by
  rw [write] at h
  cases fields with
  | nil =>
    cases h
    simp
  | cons first rest =>
    rw [List.isEmpty_cons, if_neg Bool.false_ne_true] at h
    cases hpart : written functions.write inst .empty with
    | error e =>
      rw [hpart] at h
      cases h
    | ok part =>
      rw [hpart] at h
      cases h
      rcases hwithin (List.cons_ne_nil _ _) part hpart with ⟨hdistinct, hkeys⟩
      constructor
      . intro field hfield
        have hnone : part.get? field = none := by
          rw [Entries.get?_eq_none_iff]
          intro hmem
          apply hfield
          apply hkeys field hmem
        rw [Entries.get?_insertAll hdistinct, hnone, Option.none_or]
      . intro _
        refine ⟨part, rfl, ?_⟩
        intro field _
        apply Entries.get?_insertAll hdistinct

theorem Wrote.nil (inst : Instance) (renderNil : Bool) (doc : Document) :
    Wrote inst renderNil [] [] doc doc := by
  constructor
  case others => simp
  case ties => simp
  case groups => simp

theorem Wrote.tie {next : Document} {tie : Tie}
    (h : Wrote inst renderNil entries rules next final) (hdistinct : tie.field ∉ rules.map (·.name))
    (hnew : doc.get? tie.field = none) (hwrite : Tie.write inst renderNil doc tie = .ok next) :
    Wrote inst renderNil (tie.entry :: entries) (tie.rule :: rules) doc final := by
  rcases Tie.get?_of_write hwrite with ⟨hnext_of_ne, hget, hnext⟩
  constructor
  case others =>
    intro field hfield
    rw [List.map_cons, List.mem_cons, not_or] at hfield
    rw [h.others field hfield.2, hnext_of_ne field hfield.1]
  case ties =>
    rw [List.filterMap_cons_some (Rule.tie?_eq_some_iff.mpr rfl), List.forall_mem_cons]
    refine ⟨⟨hget, ?_⟩, h.ties⟩
    rw [h.others tie.field hdistinct, hnext, hnew]
  case groups =>
    intro functions fields hmem
    rw [List.mem_cons] at hmem
    rcases hmem with heq | hmem
    . cases heq
    . exact h.groups functions fields hmem

theorem map_name_grouped (id : GroupId) (functions : Custom) (fields : List String) :
    (fields.map (Rule.grouped id functions)).map (·.name) = fields := by
  rw [List.map_map]
  exact List.map_id' fields

theorem Wrote.group {next : Document} {functions : Custom} {fields : List String}
    (h : Wrote inst renderNil entries rules next final)
    (hwithin : Within inst (.group functions fields))
    (hapart : ∀ field ∈ fields, field ∉ rules.map (·.name))
    (hnew : ∀ field ∈ fields, doc.get? field = none)
    (hwrite : write inst renderNil doc (.group functions fields) = .ok next) (id : GroupId) :
    Wrote inst renderNil (.group functions fields :: entries)
      (fields.map (Rule.grouped id functions) ++ rules) doc final := by
  rcases get?_of_write_group hwithin hwrite with ⟨hnext_of_not_mem, hgroup⟩
  constructor
  case others =>
    intro field hfield
    rw [List.map_append, map_name_grouped, List.mem_append, not_or] at hfield
    rw [h.others field hfield.2, hnext_of_not_mem field hfield.1]
  case ties =>
    rw [List.filterMap_append, filterMap_tie?_map_grouped]
    exact h.ties
  case groups =>
    intro functions' fields' hmem hne
    rw [List.mem_cons] at hmem
    rcases hmem with heq | hmem
    . cases heq
      rcases hgroup hne with ⟨part, hpart, hnext⟩
      refine ⟨part, hpart, ?_⟩
      intro field hfield
      rw [h.others field (hapart field hfield), hnext field hfield, hnew field hfield, Option.or_none]
    . exact h.groups functions' fields' hmem hne

theorem wrote_of_numbered (h : Numbered lo hi entries rules) (hplain : ∀ rule ∈ rules, rule.Plain)
    (hdistinct : (rules.map (·.name)).Nodup) (hwithin : ∀ entry ∈ entries, entry.Within inst)
    (hnew : ∀ field ∈ rules.map (·.name), doc.get? field = none)
    (hdoc : entries.foldlM (write inst renderNil) doc = .ok final) :
    Wrote inst renderNil entries rules doc final := by
  induction h generalizing doc with
  | nil h =>
    cases hdoc
    apply Wrote.nil
  | @rule lo hi draft complete entries rules h rest ih =>
    rw [List.forall_mem_cons] at hplain hwithin
    rw [List.map_cons, List.nodup_cons] at hdistinct
    rw [List.map_cons, List.forall_mem_cons] at hnew
    rcases RuleDraft.exists_tie h (hplain.1 (RuleDraft.group?_of_complete_eq_ok h))
      with ⟨tie, rfl, hentry⟩
    rw [List.foldlM_cons, hentry] at hdoc
    rw [hentry]
    cases hwrite : write inst renderNil doc tie.entry with
    | error e =>
      rw [hwrite] at hdoc
      cases hdoc
    | ok next =>
      rw [hwrite] at hdoc
      refine Wrote.tie ?_ hdistinct.1 hnew.1 hwrite
      refine ih hplain.2 hdistinct.2 hwithin.2 ?_ hdoc
      -- What the tie has written is none of the fields behind it.
      intro field hfield
      rw [(Tie.get?_of_write hwrite).1, hnew.2 field hfield]
      rintro rfl
      exact hdistinct.1 hfield
  | @group lo hi n functions fields entries rules h rest ih =>
    rw [List.forall_mem_append] at hplain
    rw [List.forall_mem_cons] at hwithin
    rw [List.map_append, map_name_grouped, List.nodup_append] at hdistinct
    rw [List.map_append, map_name_grouped, List.forall_mem_append] at hnew
    rcases hdistinct with ⟨-, hdistinct, hdisjoint⟩
    have hapart : ∀ field ∈ fields, field ∉ rules.map (·.name) := by
      intro field hfield hmem
      apply hdisjoint field hfield field hmem
      rfl
    rw [List.foldlM_cons] at hdoc
    cases hwrite : write inst renderNil doc (.group functions fields) with
    | error e =>
      rw [hwrite] at hdoc
      cases hdoc
    | ok next =>
      rw [hwrite] at hdoc
      refine Wrote.group ?_ hwithin.1 hapart hnew.1 hwrite _
      refine ih hplain.2 hdistinct hwithin.2 ?_ hdoc
      intro field hfield
      rw [(get?_of_write_group hwithin.1 hwrite).1, hnew.2 field hfield]
      intro hmem
      exact hapart field hmem hfield

theorem Wrote.rel_part?_section? (h : Wrote inst renderNil entries rules doc final)
    (hwithin : ∀ entry ∈ entries, entry.Within inst) {entry : MappingEntry}
    (hentry : entry ∈ entries) :
    Option.Rel (fun taken given : Custom × Document =>
        taken.1 = given.1 ∧ taken.2.toList.Perm given.2.toList)
      (part? final entry) (section? inst entry) := by
  cases entry with
  | rule draft => exact .none
  | group functions fields =>
    cases fields with
    | nil =>
      have hnone : section? inst (.group functions []) = none := by
        rw [section?]
        cases written functions.write inst .empty <;> rfl
      rw [hnone]
      exact .none
    | cons first rest =>
      have hne := List.cons_ne_nil first rest
      rcases h.groups functions _ hentry hne with ⟨part, hpart, hfinal⟩
      rcases hwithin _ hentry hne part hpart with ⟨hdistinct, hkeys⟩
      have hperm := Entries.perm_only hdistinct hkeys
      have hempty : (part.only (first :: rest)).isEmpty = part.isEmpty := by
        unfold Entries.isEmpty
        rw [Bool.eq_iff_iff, List.isEmpty_iff, List.isEmpty_iff]
        constructor
        . intro heq
          rw [heq] at hperm
          apply hperm.symm.eq_nil
        . intro heq
          rw [heq] at hperm
          apply hperm.eq_nil
      rw [part?, section?, Entries.only_congr hfinal, hpart, hempty]
      dsimp only
      cases part.isEmpty with
      | true => exact .none
      | false => exact .some ⟨rfl, hperm⟩

theorem Wrote.forall₂_part?_section? (h : Wrote inst renderNil entries rules doc final)
    (hwithin : ∀ entry ∈ entries, entry.Within inst) :
    List.Forall₂ (fun taken given => taken.1 = given.1 ∧ taken.2.toList.Perm given.2.toList)
      (entries.filterMap (part? final)) (entries.filterMap (section? inst)) := by
  have hsame : List.Forall₂ (fun x y => x = y ∧ x ∈ entries) entries entries := by
    rw [List.forall₂_same]
    intro entry hentry
    exact ⟨rfl, hentry⟩
  refine List.rel_filterMap ?_ hsame
  rintro entry _ ⟨rfl, hentry⟩
  apply h.rel_part?_section? hwithin hentry

end MappingEntry

/--
The rules are ties and groups, no two of them share a field, no attribute is a target itself and on the
way to another target, and every group keeps to its own fields when the instance is written.
-/
structure Mapping.Sectioned (mapping : Mapping) (entries : List MappingEntry) (inst : Instance) :
    Prop where
  plain : ∀ rule ∈ mapping.rules, rule.Plain
  distinct : (mapping.rules.map (·.name)).Nodup
  apart : Target.Apart ((mapping.rules.filterMap Rule.tie?).map (·.target))
  within : ∀ entry ∈ entries, entry.Within inst

namespace Declaration

variable {declaration : Declaration} {model : Model} {mapping : Mapping}

theorem nested_of_mem_ties (h : declaration.build.value = .ok model)
    (hmapping : mapping ∈ model.mappings) {tie : Tie}
    (htie : tie ∈ mapping.rules.filterMap Rule.tie?) {delegate : String}
    (hdelegate : tie.target.delegate = some delegate) :
    (Attribute.nested? model.attributes delegate).isSome = true := by
  rcases List.mem_filterMap.mp htie with ⟨rule, hrule, heq⟩
  rw [Rule.tie?_eq_some_iff] at heq
  subst heq
  exact Rule.isSome_nested?_of_problem? (problem?_of_build h hmapping hrule) hdelegate

/--
A document that was written is read in two steps. First every target whose field is in the document is
set, without error; then the groups that wrote something read it back, in the order of the declaration.
-/
theorem fromDocument_sections (h : declaration.build.value = .ok model)
    (hmapping : mapping ∈ model.mappings) (hformat : mapping.format.isKeyValue = true)
    {inst : Instance} (hsections : mapping.Sectioned (declaration.entries mapping.format) inst)
    {renderNil : Bool} {doc : Document}
    (hdoc : (mapping.toDocument inst renderNil).value = .ok doc) :
    ∃ (start : Instance) (parts : List (Custom × Document)),
      (declaration.entries mapping.format).forM (MappingEntry.readAlone model.attributes doc)
          model.newInstance = .ok () start
        ∧ (∀ rule ∈ mapping.rules, ∀ target, rule.handler = .target target →
            ∀ value, doc.get? rule.name = some value → target.get start = .ok value)
        ∧ List.Forall₂ (fun taken given => taken.1 = given.1 ∧ taken.2.toList.Perm given.2.toList)
            parts ((declaration.entries mapping.format).filterMap (MappingEntry.section? inst))
        ∧ (mapping.fromDocument model.attributes doc model.newInstance).value
            = parts.forM (fun part => part.1.read (.map part.2)) start := by
  rcases numbered_of_build h hmapping with ⟨n, hnumbered⟩
  rw [Mapping.value_toDocument hnumbered hformat] at hdoc
  have hnew : ∀ field ∈ mapping.rules.map (·.name), Entries.get? (.empty : Document) field = none :=
    fun _ _ => rfl
  have hwrote := MappingEntry.wrote_of_numbered hnumbered hsections.plain hsections.distinct
    hsections.within hnew hdoc
  have hparts := hwrote.forall₂_part?_section? hsections.within
  have halone := MappingEntry.forM_readAlone_of_numbered hnumbered hsections.plain model.attributes doc
  have hapart : Target.Apart ([] ++ (List.filter (Tie.renders inst renderNil)
      (mapping.rules.filterMap Rule.tie?)).map (·.target)) := by
    refine hsections.apart.subset ?_
    intro target htarget
    exact ((List.filter_sublist).map _).subset htarget
  have hfields (tie : Tie) (htie : tie ∈ mapping.rules.filterMap Rule.tie?) :=
    (hwrote.ties tie htie).2
  have hnested (tie : Tie) (htie : tie ∈ mapping.rules.filterMap Rule.tie?) (delegate : String)
      (hdelegate : tie.target.delegate = some delegate) :=
    nested_of_mem_ties h hmapping htie hdelegate
  rcases (Instance.Holds.new model.attributes model.name (·.value inst)).exists_forM_read
    hfields hnested hapart with ⟨start, hread, hstart⟩
  rw [← halone] at hread
  refine ⟨start, _, hread, ?_, hparts, ?_⟩
  . intro rule hrule target htarget value hvalue
    have hmem : ⟨rule.name, target, rule.renderNil⟩ ∈ mapping.rules.filterMap Rule.tie? := by
      refine List.mem_filterMap.mpr ⟨rule, hrule, ?_⟩
      rw [Rule.tie?, htarget]
    have hfield := hfields _ hmem
    rw [hvalue] at hfield
    split at hfield
    . next hrenders =>
      rw [Option.some.inj hfield]
      refine hstart.get_eq_of_mem hapart ?_
      exact List.mem_map.mpr ⟨_, List.mem_filter.mpr ⟨hmem, hrenders⟩, rfl⟩
    . cases hfield
  . rw [Mapping.value_fromDocument hnumbered hformat, MappingEntry.readAll]
    change EStateM.bind _ _ _ = _
    unfold EStateM.bind
    rw [Model.newInstance, hread]

end Declaration

/--
Functions that copy those of the fields that are set, the last one first.
-/
def Custom.sharing (fields : List String) : Custom where
  read := (Custom.copying fields).read
  write inst doc :=
    .ok () (doc.insertAll (fields.reverse.filterMap fun field => (inst.get? field).map (field, ·)))

def Declaration.booking : Declaration where
  name := "Booking"
  kind := .model
  items := [
    .block (.leaf ⟨"ref", .string, .one⟩),
    .block (.leaf ⟨"guest", .model "Guest", .one⟩),
    .mapping .keyValue [
      .group (.sharing ["from", "to"]) ["from", "to"],
      .group (.sharing ["extra"]) ["extra"],
      .rule { name := "ref", target := some "ref" }],
    .mapping .keyValue [
      .rule { name := "guest", target := some "name", delegate := some "guest" },
      .group (.sharing ["paid"]) ["paid"]]]

theorem booking_sections :
    let mapping := Declaration.booking.model.mappings[0]
    let attributes := Declaration.booking.model.attributes
    let guest := (Instance.new "Guest").set "name" (toValue "Ada")
    let inst := (Instance.new "Booking").set "from" (toValue "F") |>.set "to" (toValue "T")
      |>.set "guest" (toValue guest) |>.set "paid" (toValue true)
    let doc : Document := ⟨[("to", toValue "T"), ("from", toValue "F"), ("ref", .null),
      ("guest", toValue "Ada"), ("paid", toValue true)]⟩
    let entries := Declaration.booking.entries mapping.format
    (mapping.toDocument inst true).value = .ok doc
      ∧ entries.filterMap (MappingEntry.section? inst)
        = [(.sharing ["from", "to"], ⟨[("to", toValue "T"), ("from", toValue "F")]⟩),
          (.sharing ["paid"], ⟨[("paid", toValue true)]⟩)]
      ∧ ∃ (start : Instance) (parts : List (Custom × Document)),
        entries.forM (MappingEntry.readAlone attributes doc) (.new "Booking") = .ok () start
          ∧ (∀ rule ∈ mapping.rules, ∀ target, rule.handler = .target target →
              ∀ value, doc.get? rule.name = some value → target.get start = .ok value)
          ∧ List.Forall₂ (fun taken given => taken.1 = given.1 ∧ taken.2.toList.Perm given.2.toList)
              parts (entries.filterMap (MappingEntry.section? inst))
          ∧ (mapping.fromDocument attributes doc (.new "Booking")).value
              = parts.forM (fun part => part.1.read (.map part.2)) start := by
  intro mapping attributes guest inst doc entries
  have hbuild : Declaration.booking.build.value = .ok Declaration.booking.model := rfl
  have hmapping : mapping ∈ Declaration.booking.model.mappings := List.getElem_mem _
  have hdoc : (mapping.toDocument inst true).value = .ok doc := rfl
  have hsections : mapping.Sectioned entries inst := by
    constructor
    case plain =>
      have hrules : mapping.rules = [.grouped ⟨0⟩ (.sharing ["from", "to"]) "from",
          .grouped ⟨0⟩ (.sharing ["from", "to"]) "to", .grouped ⟨1⟩ (.sharing ["extra"]) "extra",
          .direct "ref", ⟨"guest", .target ⟨"name", some "guest"⟩, none⟩,
          .grouped ⟨2⟩ (.sharing ["paid"]) "paid"] := rfl
      rw [hrules]
      simp [Rule.Plain, Rule.grouped, Rule.group?, Rule.direct, Rule.custom?]
    case distinct => decide
    case apart => decide
    case within =>
      have hwithin (fields : List String) (part : Document)
          (hpart : written (Custom.sharing fields).write inst .empty = .ok part) :
          part = (Entries.ofList (fields.reverse.filterMap fun field =>
            (inst.get? field).map (field, ·))) :=
        (Except.ok.inj hpart).symm
      have hentries : entries = [.group (.sharing ["from", "to"]) ["from", "to"],
          .group (.sharing ["extra"]) ["extra"], .rule { name := "ref", target := some "ref" },
          .rule { name := "guest", target := some "name", delegate := some "guest" },
          .group (.sharing ["paid"]) ["paid"]] := rfl
      rw [hentries]
      simp only [List.forall_mem_cons, List.not_mem_nil, false_implies, implies_true, and_true]
      refine ⟨?_, ?_, trivial, trivial, ?_⟩
      all_goals
        intro _ part hpart
        rw [hwithin _ part hpart]
        refine ⟨Entries.distinct_ofList _, ?_⟩
        decide
  refine ⟨hdoc, rfl, ?_⟩
  exact Declaration.fromDocument_sections hbuild hmapping rfl hsections hdoc

end ContentModel
