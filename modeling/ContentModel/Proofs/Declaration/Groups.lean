import ContentModel.Proofs.Declaration.Mappings

/-!
This module contains the mapping groups of a declaration: which numbers they are handed while the items
are taken, and where their rules stand in the mappings of an accepted model.
-/

namespace ContentModel

/--
A mapping group with the number that it is handed and what it is declared with.
-/
structure MappingGroup where
  id : GroupId
  format : Format
  functions : Custom
  fields : List String

def MappingGroup.rules (group : MappingGroup) : List Rule :=
  group.fields.map (Rule.grouped group.id group.functions)

theorem MappingGroup.custom?_of_mem {group : MappingGroup} {rule : Rule} (h : rule ∈ group.rules) :
    rule.custom? = some group.functions := by
  rcases List.mem_map.mp h with ⟨field, _, rfl⟩
  rfl

/--
The numbers that stand in the rules are those of the groups.
-/
def MappingGroup.Number (groups : List MappingGroup) (rules : List Rule) : Prop :=
  ∀ rule ∈ rules, ∀ id, rule.group? = some id → id ∈ groups.map (·.id)

theorem MappingGroup.Number.append {groups others : List MappingGroup} {rules more : List Rule}
    (h : Number groups rules) (h' : Number others more) :
    Number (groups ++ others) (rules ++ more) := by
  intro rule hrule id hid
  rw [List.map_append, List.mem_append]
  rcases List.mem_append.mp hrule with hrule | hrule
  . exact .inl (h rule hrule id hid)
  . exact .inr (h' rule hrule id hid)

namespace MappingEntry

/--
What a group is declared with.
-/
def group? (format : Format) : MappingEntry → Option (Format × Custom × List String)
  | .rule _ => none
  | .group functions fields => some (format, functions, fields)

/--
The groups among declared entries, numbered from `n`.
-/
def groups (format : Format) (n : Nat) : List MappingEntry → List MappingGroup
  | [] => []
  | .rule _ :: rest => groups format n rest
  | .group functions fields :: rest =>
    ⟨⟨n⟩, format, functions, fields⟩ :: groups format (n + 1) rest

variable {format : Format} {entries : List MappingEntry} {n : Nat}

theorem map_declared_groups (format : Format) (n : Nat) (entries : List MappingEntry) :
    (groups format n entries).map (fun group => (group.format, group.functions, group.fields))
      = entries.filterMap (group? format) := by
  induction entries generalizing n with
  | nil => rfl
  | cons entry rest ih =>
    cases entry with
    | rule draft =>
      rw [groups, List.filterMap_cons_none (by rfl)]
      exact ih n
    | group functions fields =>
      rw [groups, List.filterMap_cons_some (by rfl), List.map_cons, ih (n + 1)]

theorem map_format_groups (format : Format) (entries : List MappingEntry) :
    (entries.filterMap (group? format)).map (·.1) = (entries.filter isGroup).map fun _ => format := by
  induction entries with
  | nil => rfl
  | cons entry rest ih =>
    cases entry with
    | rule draft =>
      rw [List.filterMap_cons_none (by rfl), List.filter_cons_of_neg (by simp [isGroup])]
      exact ih
    | group functions fields =>
      rw [List.filterMap_cons_some (by rfl), List.filter_cons_of_pos (by rfl), List.map_cons,
        List.map_cons, ih]

theorem map_index_groups (format : Format) (n : Nat) (entries : List MappingEntry) :
    (groups format n entries).map (·.id.index) = List.range' n (entries.countP isGroup) := by
  induction entries generalizing n with
  | nil => rfl
  | cons entry rest ih =>
    cases entry with
    | rule draft =>
      rw [groups, List.countP_cons_of_neg (by simp [isGroup])]
      exact ih n
    | group functions fields =>
      rw [groups, List.countP_cons_of_pos (by rfl), List.range'_succ, List.map_cons, ih (n + 1)]

/--
A rule with the number of a group is one of the rules of that group.
-/
theorem exists_group_of_mem {rule : Rule} (hrule : rule ∈ (elaborate n entries).1) {id : GroupId}
    (hid : rule.group? = some id) :
    ∃ group ∈ groups format n entries, group.id = id ∧ group.format = format ∧ rule ∈ group.rules := by
  induction entries generalizing n with
  | nil => cases hrule
  | cons entry rest ih =>
    cases entry with
    | rule draft =>
      rw [elaborate] at hrule
      cases hcomplete : draft.complete with
      | ok complete =>
        rw [hcomplete] at hrule
        rcases List.mem_cons.mp hrule with rfl | hrule
        . rw [RuleDraft.group?_of_complete_eq_ok hcomplete] at hid
          cases hid
        . exact ih hrule
      | error problem =>
        rw [hcomplete] at hrule
        exact ih hrule
    | group functions fields =>
      rw [elaborate] at hrule
      rcases List.mem_append.mp hrule with hrule | hrule
      . rcases List.mem_map.mp hrule with ⟨field, hfield, rfl⟩
        cases hid
        exact ⟨_, List.mem_cons_self, rfl, rfl, List.mem_map_of_mem hfield⟩
      . rcases ih hrule with ⟨group, hgroup, hrest⟩
        exact ⟨group, List.mem_cons_of_mem _ hgroup, hrest⟩

theorem number_groups : MappingGroup.Number (groups format n entries) (elaborate n entries).1 := by
  intro rule hrule id hid
  rcases exists_group_of_mem hrule hid with ⟨group, hgroup, rfl, _⟩
  exact List.mem_map_of_mem hgroup

/--
The rules of a group stand between those of the entries before it and those of the entries behind it.
-/
theorem exists_split {group : MappingGroup} (h : group ∈ groups format n entries) :
    group.format = format ∧ ∃ front m back,
      groups format n entries = groups format n front ++ group :: groups format m back
        ∧ (elaborate n entries).1 = (elaborate n front).1 ++ group.rules ++ (elaborate m back).1 := by
  induction entries generalizing n with
  | nil => cases h
  | cons entry rest ih =>
    cases entry with
    | rule draft =>
      rcases ih h with ⟨hformat, front, m, back, hgroups, hrules⟩
      refine ⟨hformat, .rule draft :: front, m, back, hgroups, ?_⟩
      rw [elaborate, elaborate]
      cases draft.complete with
      | ok complete =>
        dsimp only
        rw [hrules, List.cons_append, List.cons_append]
      | error problem => exact hrules
    | group functions fields =>
      rcases List.mem_cons.mp h with rfl | h
      . exact ⟨rfl, [], n + 1, rest, rfl, rfl⟩
      . rcases ih h with ⟨hformat, front, m, back, hgroups, hrules⟩
        refine ⟨hformat, .group functions fields :: front, m, back, ?_, ?_⟩
        . rw [groups, groups, hgroups, List.cons_append]
        . rw [elaborate, elaborate]
          dsimp only
          rw [hrules, List.append_assoc, List.append_assoc, List.append_assoc]

end MappingEntry

/--
The rules for a format that are declared together, taken when the next group gets the number `first`.
-/
structure MappingBlock where
  first : Nat
  format : Format
  entries : List MappingEntry

namespace MappingBlock

def rules (block : MappingBlock) : List Rule := (MappingEntry.elaborate block.first block.entries).1

def groups (block : MappingBlock) : List MappingGroup :=
  MappingEntry.groups block.format block.first block.entries

/--
The rules of the blocks for a format, in the order of the blocks.
-/
def rulesFor (format : Format) (blocks : List MappingBlock) : List Rule :=
  (blocks.filter (·.format = format)).flatMap rules

def groupsOf (blocks : List MappingBlock) : List MappingGroup := blocks.flatMap groups

/--
Blocks one behind the other, with the groups numbered from `n`.
-/
def numbered : Nat → List (Format × List MappingEntry) → List MappingBlock
  | _, [] => []
  | n, (format, entries) :: rest =>
    ⟨n, format, entries⟩ :: numbered (n + entries.countP MappingEntry.isGroup) rest

variable {format : Format} {blocks : List MappingBlock}

theorem rulesFor_append (format : Format) (front back : List MappingBlock) :
    rulesFor format (front ++ back) = rulesFor format front ++ rulesFor format back := by
  unfold rulesFor
  rw [List.filter_append, List.flatMap_append]

theorem rulesFor_self (block : MappingBlock) : rulesFor block.format [block] = block.rules := by
  simp [rulesFor]

theorem rulesFor_of_ne {block : MappingBlock} (h : block.format ≠ format) :
    rulesFor format [block] = [] := by
  simp [rulesFor, h]

theorem rulesFor_eq_nil (h : format ∉ blocks.map (·.format)) : rulesFor format blocks = [] := by
  rw [rulesFor, List.filter_eq_nil_iff.mpr, List.flatMap_nil]
  intro block hblock heq
  exact h (List.mem_map.mpr ⟨block, hblock, by simpa using heq⟩)

theorem exists_group_of_mem_rulesFor {rule : Rule} (hrule : rule ∈ rulesFor format blocks)
    {id : GroupId} (hid : rule.group? = some id) :
    ∃ group ∈ groupsOf blocks, group.id = id ∧ group.format = format ∧ rule ∈ group.rules := by
  rcases List.mem_flatMap.mp hrule with ⟨block, hblock, hrule⟩
  rw [List.mem_filter, decide_eq_true_iff] at hblock
  rcases MappingEntry.exists_group_of_mem hrule hid with ⟨group, hgroup, hgroupId, hformat, hmem⟩
  exact ⟨group, List.mem_flatMap.mpr ⟨block, hblock.1, hgroup⟩, hgroupId, hformat.trans hblock.2, hmem⟩

theorem number_rulesFor : MappingGroup.Number (groupsOf blocks) (rulesFor format blocks) := by
  intro rule hrule id hid
  rcases exists_group_of_mem_rulesFor hrule hid with ⟨group, hgroup, rfl, _⟩
  exact List.mem_map_of_mem hgroup

/--
Where no two groups share a number, the rules of a group stand next to each other among those for its
format, and no other rule there has its number.
-/
theorem exists_contiguous (hdistinct : ((groupsOf blocks).map (·.id)).Nodup) {group : MappingGroup}
    (h : group ∈ groupsOf blocks) :
    ∃ front back, rulesFor group.format blocks = front ++ group.rules ++ back
      ∧ ∀ rule ∈ front ++ back, rule.group? ≠ some group.id := by
  rcases List.mem_flatMap.mp h with ⟨block, hblock, hgroup⟩
  rcases List.append_of_mem hblock with ⟨before, behind, rfl⟩
  rcases MappingEntry.exists_split hgroup with ⟨hformat, entries, m, others, hgroups, hrules⟩
  let above := groupsOf before ++ MappingEntry.groups block.format block.first entries
  let below := MappingEntry.groups block.format m others ++ groupsOf behind
  let front := rulesFor group.format before ++ (MappingEntry.elaborate block.first entries).1
  let back := (MappingEntry.elaborate m others).1 ++ rulesFor group.format behind
  have hgroupsOf : groupsOf (before ++ block :: behind) = above ++ group :: below := by
    rw [groupsOf, List.flatMap_append, List.flatMap_cons, groups, hgroups]
    simp [above, below, groupsOf]
  have hrulesFor : rulesFor group.format (before ++ block :: behind) = front ++ group.rules ++ back := by
    rw [List.append_cons, rulesFor_append, rulesFor_append, hformat, rulesFor_self, rules, hrules]
    simp [front, back, hformat]
  have hfront : MappingGroup.Number above front := by
    apply MappingGroup.Number.append number_rulesFor MappingEntry.number_groups
  have hback : MappingGroup.Number below back := by
    apply MappingGroup.Number.append MappingEntry.number_groups number_rulesFor
  refine ⟨front, back, hrulesFor, ?_⟩
  intro rule hrule hid
  have hmem : group.id ∈ (above ++ below).map (·.id) :=
    hfront.append hback rule hrule group.id hid
  rw [hgroupsOf, List.map_append, List.map_cons, List.nodup_middle, ← List.map_append,
    List.nodup_cons] at hdistinct
  exact hdistinct.1 hmem

theorem mem_of_mem_numbered {block : MappingBlock} {n : Nat}
    {mappings : List (Format × List MappingEntry)} (h : block ∈ numbered n mappings) :
    (block.format, block.entries) ∈ mappings := by
  induction mappings generalizing n with
  | nil => cases h
  | cons mapping rest ih =>
    rcases List.mem_cons.mp h with rfl | h
    . exact List.mem_cons_self
    . exact List.mem_cons_of_mem _ (ih h)

theorem map_declared_numbered (n : Nat) (mappings : List (Format × List MappingEntry)) :
    (groupsOf (numbered n mappings)).map (fun group => (group.format, group.functions, group.fields))
      = mappings.flatMap fun mapping => mapping.2.filterMap (MappingEntry.group? mapping.1) := by
  induction mappings generalizing n with
  | nil => rfl
  | cons mapping rest ih =>
    rw [numbered, groupsOf, List.flatMap_cons, List.map_append, List.flatMap_cons]
    exact congrArg₂ (· ++ ·) (MappingEntry.map_declared_groups mapping.1 n mapping.2) (ih _)

theorem map_index_numbered (n : Nat) (mappings : List (Format × List MappingEntry)) :
    (groupsOf (numbered n mappings)).map (·.id.index)
      = List.range' n (groupsOf (numbered n mappings)).length := by
  induction mappings generalizing n with
  | nil => rfl
  | cons mapping rest ih =>
    let block : MappingBlock := ⟨n, mapping.1, mapping.2⟩
    have hgroups : block.groups.map (·.id.index)
        = List.range' n (mapping.2.countP MappingEntry.isGroup) :=
      MappingEntry.map_index_groups mapping.1 n mapping.2
    have hlength := congrArg List.length hgroups
    rw [List.length_map, List.length_range'] at hlength
    change (block.groups ++ groupsOf (numbered _ rest)).map _
      = List.range' n (block.groups ++ groupsOf (numbered _ rest)).length
    rw [List.map_append, List.length_append, hgroups, hlength, ih, List.range'_append_1]

end MappingBlock

namespace Draft

open MappingBlock

/--
The blocks of rules among items, as they are taken one after the other.
-/
def mappingBlocks (kind : ModelKind) (draft : Draft) : List Item → List MappingBlock
  | [] => []
  | item :: rest =>
    (item.mapping?.map fun mapping => ⟨draft.nextGroup, mapping.1, mapping.2⟩).toList
      ++ mappingBlocks kind (draft.add kind item) rest

theorem mappingBlocks_eq (kind : ModelKind) (items : List Item) (draft : Draft) :
    draft.mappingBlocks kind items = numbered draft.nextGroup (items.filterMap Item.mapping?) := by
  induction items generalizing draft with
  | nil => rfl
  | cons item rest ih =>
    have hstate := congrArg Prod.snd (mappings_foldl kind [item] draft)
    rw [mappingBlocks, ih]
    cases hitem : item.mapping? with
    | none =>
      rw [List.filterMap_cons_none hitem]
      rw [List.filterMap_cons_none hitem] at hstate
      exact congrArg (numbered · _) hstate
    | some mapping =>
      rw [List.filterMap_cons_some hitem]
      rw [List.filterMap_cons_some hitem] at hstate
      exact congrArg (_ :: numbered · _) hstate

/--
The mappings hold the rules of the blocks so far, each the rules for its format.
-/
structure Concatenates (blocks : List MappingBlock) (mappings : List Mapping) : Prop where
  distinct : (mappings.map (·.format)).Nodup
  formats : ∀ format, format ∈ mappings.map (·.format) ↔ format ∈ blocks.map (·.format)
  rules : ∀ mapping ∈ mappings, mapping.rules = rulesFor mapping.format blocks

namespace Concatenates

variable {blocks : List MappingBlock} {mappings : List Mapping}

theorem nil : Concatenates [] [] := by
  constructor
  case distinct => exact List.nodup_nil
  case formats => exact fun _ => Iff.rfl
  case rules =>
    intro mapping hmapping
    cases hmapping

theorem add (h : Concatenates blocks mappings) (block : MappingBlock) :
    Concatenates (blocks ++ [block]) (addRules block.format block.rules mappings) := by
  constructor
  case distinct => exact nodup_addRules h.distinct _ _
  case formats =>
    intro format
    rw [map_format_addRules, List.map_append, List.mem_append, ← h.formats format, List.map_singleton,
      List.mem_singleton]
    split
    . next hmem =>
      refine ⟨.inl, ?_⟩
      rintro (hformat | rfl)
      . exact hformat
      . exact hmem
    . rw [List.mem_append, List.mem_singleton]
  case rules =>
    intro mapping hmapping
    rw [rulesFor_append]
    rcases mem_addRules h.distinct hmapping with ⟨hne, hmem⟩ | ⟨old, hold, heq, rfl⟩ | ⟨hnew, rfl⟩
    . rw [rulesFor_of_ne hne.symm, List.append_nil]
      exact h.rules mapping hmem
    . rw [rulesFor_self, h.rules old hold, heq]
    . rw [h.formats] at hnew
      rw [rulesFor_self, rulesFor_eq_nil hnew]
      rfl

theorem foldl {more : List (Format × List MappingEntry)} {n : Nat}
    (h : Concatenates blocks mappings) :
    Concatenates (blocks ++ numbered n more) (more.foldl addMapping (mappings, n)).1 := by
  induction more generalizing blocks mappings n with
  | nil =>
    rw [numbered, List.append_nil]
    exact h
  | cons mapping rest ih =>
    rw [numbered, List.append_cons]
    exact ih (h.add _)

end Concatenates

end Draft

namespace Declaration

open MappingBlock

variable (declaration : Declaration)

def mappingBlocks : List MappingBlock :=
  Draft.mappingBlocks declaration.kind {} declaration.items

/--
The groups of a declaration with the numbers that they are handed.
-/
def mappingGroups : List MappingGroup := groupsOf declaration.mappingBlocks

/--
Every group that is declared is handed a number, with or without fields and whatever is wrong with the
declaration. The numbers follow each other.
-/
structure NumbersGroups : Prop where
  declared : declaration.mappingGroups.map (fun group => (group.format, group.functions, group.fields))
    = declaration.mappings.flatMap fun mapping => mapping.2.filterMap (MappingEntry.group? mapping.1)
  listed : declaration.mappingGroups.map (fun group => (group.format, group.id)) = declaration.groups
  consecutive : declaration.mappingGroups.map (·.id)
    = (List.range declaration.mappingGroups.length).map GroupId.mk
  distinct : (declaration.mappingGroups.map (·.id)).Nodup

/--
The mapping of each format holds the rules of its blocks, one block behind the other. All grouped rules
are those of the groups, and those of a group stand next to each other in the mapping of one format.
-/
structure KeepsGroups (mappings : List Mapping) : Prop where
  formats : (mappings.map (·.format)).Nodup
  present : ∀ block ∈ declaration.mappingBlocks, ∃ mapping ∈ mappings, mapping.format = block.format
  concatenated : ∀ mapping ∈ mappings,
    mapping.rules = rulesFor mapping.format declaration.mappingBlocks
  whole : ∀ block ∈ declaration.mappingBlocks, MappingEntry.Numbered block.first
    (block.first + block.entries.countP MappingEntry.isGroup) block.entries block.rules
  contiguous : ∀ group ∈ declaration.mappingGroups, ∃ mapping ∈ mappings,
    mapping.format = group.format
      ∧ (∃ front back, mapping.rules = front ++ group.rules ++ back
        ∧ ∀ rule ∈ front ++ back, rule.group? ≠ some group.id)
      ∧ ∀ other ∈ mappings, ∀ rule ∈ other.rules, rule.group? = some group.id → other = mapping
  grouped : ∀ mapping ∈ mappings, ∀ rule ∈ mapping.rules, ∀ id, rule.group? = some id →
    ∃ group ∈ declaration.mappingGroups, group.id = id ∧ group.format = mapping.format
      ∧ rule ∈ group.rules ∧ rule.custom? = some group.functions
  targeted : ∀ mapping ∈ mappings, ∀ rule ∈ mapping.rules, rule.group? = none →
    rule.custom? = none → ∃ target, rule.handler = .target target

theorem mappingBlocks_eq :
    declaration.mappingBlocks = numbered 0 declaration.mappings :=
  Draft.mappingBlocks_eq declaration.kind declaration.items {}

theorem groups_eq :
    declaration.groups
      = ((declaration.mappings.flatMap fun mapping =>
          (mapping.2.filterMap (MappingEntry.group? mapping.1))).map (·.1)).zipIdx.map
            fun group => (group.1, ⟨group.2⟩) := by
  let number (formats : List Format) : List (Format × GroupId) :=
    formats.zipIdx.map fun group => (group.1, ⟨group.2⟩)
  unfold groups mappings
  refine congrArg number ?_
  induction declaration.items with
  | nil => rfl
  | cons item rest ih =>
    rw [List.flatMap_cons, ih]
    cases item with
    | mapping format entries =>
      rw [List.filterMap_cons_some (by rfl), List.flatMap_cons, List.map_append]
      refine congrArg (· ++ _) ?_
      exact (MappingEntry.map_format_groups format entries).symm
    | block block => rfl
    | rootName name => rfl
    | noRoot => rfl

theorem numbersGroups : declaration.NumbersGroups := by
  have hindex := map_index_numbered 0 declaration.mappings
  have hdeclared := map_declared_numbered 0 declaration.mappings
  rw [← mappingBlocks_eq] at hindex hdeclared
  have hconsecutive : declaration.mappingGroups.map (·.id)
      = (List.range declaration.mappingGroups.length).map GroupId.mk := by
    rw [List.range_eq_range', mappingGroups, ← hindex, List.map_map]
    rfl
  constructor
  case declared => exact hdeclared
  case listed =>
    rw [groups_eq, ← hdeclared, List.zipIdx_eq_zip_range', List.length_map, List.length_map, ← hindex]
    rw [List.map_map, List.zip_map', List.map_map]
    rfl
  case consecutive => exact hconsecutive
  case distinct =>
    rw [hconsecutive]
    apply List.Nodup.map _ List.nodup_range
    intro i j heq
    exact congrArg GroupId.index heq

variable {declaration} {model : Model}

theorem concatenates_of_build (h : declaration.build.value = .ok model) :
    Draft.Concatenates declaration.mappingBlocks model.mappings := by
  have hstate : declaration.model.mappings = (declaration.mappings.foldl Draft.addMapping ([], 0)).1 :=
    congrArg Prod.fst (Draft.mappings_foldl declaration.kind declaration.items {})
  rw [build_eq_ok_iff] at h
  rw [h.2, hstate, mappingBlocks_eq]
  exact Draft.Concatenates.nil.foldl

theorem whole_of_build (h : declaration.build.value = .ok model) {block : MappingBlock}
    (hblock : block ∈ declaration.mappingBlocks) :
    MappingEntry.Numbered block.first (block.first + block.entries.countP MappingEntry.isGroup)
      block.entries block.rules := by
  have hcomplete := (acceptable_of_build h).complete
  rw [← forall_mem_rules_iff] at hcomplete
  rw [mappingBlocks_eq] at hblock
  exact MappingEntry.numbered_elaborate (hcomplete _ (mem_of_mem_numbered hblock)) block.first

theorem keepsGroups_of_build (h : declaration.build.value = .ok model) :
    declaration.KeepsGroups model.mappings := by
  have hconcatenates := concatenates_of_build h
  have hdistinct := declaration.numbersGroups.distinct
  constructor
  case formats => exact hconcatenates.distinct
  case present =>
    intro block hblock
    have hformat := (hconcatenates.formats block.format).mpr (List.mem_map_of_mem hblock)
    rw [List.mem_map] at hformat
    exact hformat
  case concatenated => exact hconcatenates.rules
  case whole => exact fun block hblock => whole_of_build h hblock
  case contiguous =>
    intro group hgroup
    rcases List.mem_flatMap.mp hgroup with ⟨block, hblock, hmem⟩
    have hformat := (hconcatenates.formats block.format).mpr (List.mem_map_of_mem hblock)
    rcases List.mem_map.mp hformat with ⟨mapping, hmapping, heq⟩
    rw [← (MappingEntry.exists_split hmem).1] at heq
    refine ⟨mapping, hmapping, heq, ?_, ?_⟩
    . rw [hconcatenates.rules mapping hmapping, heq]
      exact exists_contiguous hdistinct hgroup
    . intro other hother rule hrule hid
      rw [hconcatenates.rules other hother] at hrule
      rcases exists_group_of_mem_rulesFor hrule hid with ⟨same, hsame, hsameId, hsameFormat, _⟩
      have hgroups : same = group := List.inj_on_of_nodup_map hdistinct hsame hgroup hsameId
      apply List.inj_on_of_nodup_map hconcatenates.distinct hother hmapping
      rw [← hsameFormat, hgroups, heq]
  case grouped =>
    intro mapping hmapping rule hrule id hid
    rw [hconcatenates.rules mapping hmapping] at hrule
    rcases exists_group_of_mem_rulesFor hrule hid with ⟨group, hgroup, hgroupId, hformat, hmem⟩
    exact ⟨group, hgroup, hgroupId, hformat, hmem, MappingGroup.custom?_of_mem hmem⟩
  case targeted =>
    rintro mapping hmapping ⟨name, handler, renderNil⟩ hrule hgroup hcustom
    cases handler with
    | target target => exact ⟨target, rfl⟩
    | custom functions target delegate => cases hcustom
    | group id functions => cases hgroup

/--
The groups of any declaration are numbered one after the other, and the mappings of an accepted model
keep each of them together.
-/
theorem grouped_of_build (declaration : Declaration) :
    declaration.NumbersGroups
      ∧ ∀ model, declaration.build.value = .ok model → declaration.KeepsGroups model.mappings :=
  ⟨declaration.numbersGroups, fun _ => keepsGroups_of_build⟩

end Declaration

/--
Functions that do nothing.
-/
def Custom.idle : Custom := ⟨fun _ => pure (), fun _ => pure ()⟩

def Declaration.ticket : Declaration where
  name := "Ticket"
  kind := .model
  items := [
    .mapping .xml [
      .group .idle ["row", "seat"],
      .rule { name := "code", target := some "code" }],
    .mapping .keyValue [.group .idle []],
    .block (.leaf ⟨"code", .string, .one⟩),
    .mapping .xml [.group .idle ["gate"]]]

/--
A ticket has two blocks of rules for one format, with a group in each, and a group without fields in
between.
-/
theorem grouped_ticket :
    let model := Declaration.ticket.model
    Declaration.ticket.build.value = .ok model
      ∧ Declaration.ticket.KeepsGroups model.mappings
      ∧ Declaration.ticket.mappingGroups.map (·.id) = [⟨0⟩, ⟨1⟩, ⟨2⟩]
      ∧ model.mappings.map (fun mapping => (mapping.format, mapping.rules.map (·.group?)))
          = [(.xml, [some ⟨0⟩, some ⟨0⟩, none, some ⟨2⟩]), (.keyValue, [])] := by
  intro model
  have hbuild : Declaration.ticket.build.value = .ok model := rfl
  exact ⟨hbuild, (Declaration.grouped_of_build Declaration.ticket).2 model hbuild, rfl, rfl⟩

end ContentModel
