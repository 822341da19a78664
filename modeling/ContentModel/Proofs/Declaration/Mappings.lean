import ContentModel.Proofs.Latest
import ContentModel.Proofs.Model

/-!
This module contains where the rules of an accepted model come from. The mapping of a format holds the
rules of all entries that were declared for the format, in the order of the declaration, and every
group among them has a number that no other group of the mapping has.
-/

namespace ContentModel

def Rule.grouped (id : GroupId) (functions : Custom) (field : String) : Rule :=
  ⟨field, .group id functions, none⟩

theorem RuleDraft.group?_of_complete_eq_ok {draft : RuleDraft} {rule : Rule}
    (h : draft.complete = .ok rule) : rule.group? = none := by
  unfold complete at h
  split at h
  . cases h
    rfl
  . split at h
    . cases h
      rfl
    . cases h
  . cases h

namespace MappingEntry

/--
The rules are those of the entries, one behind the other, with the groups numbered upwards from `lo`
to below `hi`.
-/
inductive Numbered : Nat → Nat → List MappingEntry → List Rule → Prop where
  | nil {lo hi : Nat} (h : lo ≤ hi) : Numbered lo hi [] []
  | rule {lo hi : Nat} {draft : RuleDraft} {complete : Rule} {entries : List MappingEntry}
      {rules : List Rule} (h : draft.complete = .ok complete)
      (rest : Numbered lo hi entries rules) :
      Numbered lo hi (.rule draft :: entries) (complete :: rules)
  | group {lo hi n : Nat} {functions : Custom} {fields : List String}
      {entries : List MappingEntry} {rules : List Rule} (h : lo ≤ n)
      (rest : Numbered (n + 1) hi entries rules) :
      Numbered lo hi (.group functions fields :: entries)
        (fields.map (Rule.grouped ⟨n⟩ functions) ++ rules)

namespace Numbered

variable {lo mid hi : Nat} {entries others : List MappingEntry} {rules more : List Rule}

theorem mono (h : Numbered lo hi entries rules) {lo' : Nat} (hlo : lo' ≤ lo) :
    Numbered lo' hi entries rules := by
  induction h generalizing lo' with
  | nil h => exact .nil (Nat.le_trans hlo h)
  | rule h rest ih => exact .rule h (ih hlo)
  | group h rest ih => exact .group (Nat.le_trans hlo h) rest

theorem append (h : Numbered lo mid entries rules) (h' : Numbered mid hi others more) :
    Numbered lo hi (entries ++ others) (rules ++ more) := by
  induction h with
  | nil h => exact h'.mono h
  | rule h rest ih => exact .rule h (ih h')
  | group h rest ih =>
    rw [List.append_assoc]
    exact .group h (ih h')

theorem le_index (h : Numbered lo hi entries rules) {rule : Rule} (hrule : rule ∈ rules)
    {id : GroupId} (hid : rule.group? = some id) : lo ≤ id.index := by
  induction h with
  | nil h => cases hrule
  | @rule lo hi draft complete entries rules h rest ih =>
    rcases List.mem_cons.mp hrule with rfl | hrule
    . rw [RuleDraft.group?_of_complete_eq_ok h] at hid
      cases hid
    . exact ih hrule
  | group h rest ih =>
    rcases List.mem_append.mp hrule with hrule | hrule
    . rcases List.mem_map.mp hrule with ⟨field, _, rfl⟩
      cases hid
      exact h
    . have := ih hrule
      omega

end Numbered

theorem numbered_elaborate {entries : List MappingEntry}
    (h : ∀ draft ∈ entries.filterMap rule?, draft.Complete) (n : Nat) :
    Numbered n (n + entries.countP isGroup) entries (elaborate n entries).1 := by
  induction entries generalizing n with
  | nil => exact .nil (Nat.le_refl n)
  | cons entry rest ih =>
    cases entry with
    | rule draft =>
      rw [List.filterMap_cons_some (by rfl), List.forall_mem_cons] at h
      rcases RuleDraft.complete_eq_ok h.1 with ⟨complete, heq⟩
      rw [elaborate, heq, List.countP_cons_of_neg (by simp [isGroup])]
      exact .rule heq (ih h.2 n)
    | group functions fields =>
      rw [List.filterMap_cons_none (by rfl)] at h
      rw [elaborate, List.countP_cons_of_pos (by rfl), Nat.add_comm (rest.countP isGroup) 1]
      rw [← Nat.add_assoc]
      exact .group (Nat.le_refl n) (ih h (n + 1))

end MappingEntry

namespace Draft

variable {format : Format} {rules : List Rule} {mappings : List Mapping} {mapping : Mapping}

theorem map_format_addRules (format : Format) (rules : List Rule) (mappings : List Mapping) :
    (addRules format rules mappings).map (·.format)
      = if format ∈ mappings.map (·.format) then mappings.map (·.format)
        else mappings.map (·.format) ++ [format] := by
  induction mappings with
  | nil => rfl
  | cons first rest ih =>
    unfold addRules
    by_cases h : first.format = format
    . simp [h]
    . have h' : ¬ format = first.format := fun heq => h heq.symm
      simp only [h, if_false, List.map_cons, ih, List.mem_cons, h', false_or]
      split <;> rfl

theorem nodup_addRules (h : (mappings.map (·.format)).Nodup) (format : Format)
    (rules : List Rule) : ((addRules format rules mappings).map (·.format)).Nodup := by
  rw [map_format_addRules]
  split
  . exact h
  . next hnew =>
    rw [List.nodup_append]
    refine ⟨h, List.pairwise_singleton _ _, ?_⟩
    intro other hother
    rw [List.forall_mem_singleton]
    exact fun heq => hnew (heq ▸ hother)

theorem mem_addRules (h : (mappings.map (·.format)).Nodup)
    (hmem : mapping ∈ addRules format rules mappings) :
    (mapping.format ≠ format ∧ mapping ∈ mappings)
      ∨ (∃ old ∈ mappings, old.format = format ∧ mapping = ⟨format, old.rules ++ rules⟩)
      ∨ (format ∉ mappings.map (·.format) ∧ mapping = ⟨format, rules⟩) := by
  induction mappings with
  | nil =>
    rw [addRules, List.mem_singleton] at hmem
    exact .inr (.inr ⟨List.not_mem_nil, hmem⟩)
  | cons first rest ih =>
    rw [List.map_cons, List.nodup_cons] at h
    unfold addRules at hmem
    split at hmem
    . next heq =>
      rcases List.mem_cons.mp hmem with rfl | hmem
      . exact .inr (.inl ⟨first, List.mem_cons_self, heq, by rw [← heq]⟩)
      . have hne : mapping.format ≠ format := by
          intro heq'
          exact h.1 (List.mem_map.mpr ⟨mapping, hmem, heq'.trans heq.symm⟩)
        exact .inl ⟨hne, List.mem_cons_of_mem _ hmem⟩
    . next hne =>
      rcases List.mem_cons.mp hmem with rfl | hmem
      . exact .inl ⟨hne, List.mem_cons_self⟩
      . rcases ih h.2 hmem with ⟨hne', hmem⟩ | ⟨old, hold, hformat⟩ | ⟨hnew, heq⟩
        . exact .inl ⟨hne', List.mem_cons_of_mem _ hmem⟩
        . exact .inr (.inl ⟨old, List.mem_cons_of_mem _ hold, hformat⟩)
        . refine .inr (.inr ⟨?_, heq⟩)
          rw [List.map_cons, List.mem_cons]
          rintro (heq | hmem)
          . exact hne heq.symm
          . exact hnew hmem

/--
The entries of the blocks for a format.
-/
def entriesFor (format : Format) (blocks : List (Format × List MappingEntry)) :
    List MappingEntry :=
  (blocks.filter (·.1 = format)).flatMap (·.2)

theorem entriesFor_append (format : Format) (blocks more : List (Format × List MappingEntry)) :
    entriesFor format (blocks ++ more) = entriesFor format blocks ++ entriesFor format more := by
  simp [entriesFor]

theorem entriesFor_self (format : Format) (entries : List MappingEntry) :
    entriesFor format [(format, entries)] = entries := by
  simp [entriesFor]

theorem entriesFor_of_not_mem {blocks : List (Format × List MappingEntry)}
    (h : format ∉ blocks.map Prod.fst) : entriesFor format blocks = [] := by
  rw [entriesFor, List.filter_eq_nil_iff.mpr, List.flatMap_nil]
  intro block hblock heq
  exact h (List.mem_map.mpr ⟨block, hblock, by simpa using heq⟩)

theorem entriesFor_of_ne {other : Format} (h : other ≠ format) (entries : List MappingEntry) :
    entriesFor format [(other, entries)] = [] := by
  simp [entriesFor, h]

/--
The mappings hold what the blocks so far have declared, with all groups numbered below the next
number.
-/
structure Gathers (blocks : List (Format × List MappingEntry)) (state : List Mapping × Nat) :
    Prop where
  distinct : (state.1.map (·.format)).Nodup
  numbered : ∀ mapping ∈ state.1,
    MappingEntry.Numbered 0 state.2 (entriesFor mapping.format blocks) mapping.rules
  unseen : ∀ format ∉ state.1.map (·.format), entriesFor format blocks = []

namespace Gathers

variable {blocks : List (Format × List MappingEntry)} {state : List Mapping × Nat}

theorem add (h : Gathers blocks state) {block : Format × List MappingEntry}
    (hcomplete : ∀ draft ∈ block.2.filterMap MappingEntry.rule?, draft.Complete) :
    Gathers (blocks ++ [block]) (addMapping state block) := by
  rcases block with ⟨format, entries⟩
  have hentries := MappingEntry.numbered_elaborate hcomplete state.2
  have hle : state.2 ≤ state.2 + entries.countP MappingEntry.isGroup := Nat.le_add_right _ _
  constructor
  case distinct => exact nodup_addRules h.distinct _ _
  case numbered =>
    intro mapping hmapping
    rw [entriesFor_append]
    rcases mem_addRules h.distinct hmapping with ⟨hne, hmem⟩ | ⟨old, hold, heq, rfl⟩ | ⟨hnew, rfl⟩
    . rw [entriesFor_of_ne hne.symm, List.append_nil, ← List.append_nil mapping.rules]
      rw [← List.append_nil (entriesFor mapping.format blocks)]
      exact (h.numbered mapping hmem).append (.nil hle)
    . rw [entriesFor_self, ← heq]
      exact (h.numbered old hold).append hentries
    . rw [entriesFor_self, h.unseen format hnew]
      exact hentries.mono (Nat.zero_le _)
  case unseen =>
    intro other hother
    change other ∉ (addRules format _ state.1).map (·.format) at hother
    rw [map_format_addRules] at hother
    rw [entriesFor_append]
    split at hother
    . next hmem =>
      have hne : format ≠ other := fun heq => hother (heq ▸ hmem)
      rw [h.unseen other hother, entriesFor_of_ne hne]
      rfl
    . rw [List.mem_append, List.mem_singleton, not_or] at hother
      rw [h.unseen other hother.1, entriesFor_of_ne (Ne.symm hother.2)]
      rfl

theorem foldl {more : List (Format × List MappingEntry)} (h : Gathers blocks state)
    (hcomplete : ∀ block ∈ more, ∀ draft ∈ block.2.filterMap MappingEntry.rule?, draft.Complete) :
    Gathers (blocks ++ more) (more.foldl addMapping state) := by
  induction more generalizing blocks state with
  | nil =>
    rw [List.append_nil]
    exact h
  | cons block rest ih =>
    rw [List.forall_mem_cons] at hcomplete
    rw [List.append_cons]
    exact ih (h.add hcomplete.1) hcomplete.2

end Gathers

end Draft

namespace Declaration

variable {declaration : Declaration} {model : Model} {mapping : Mapping}

/--
All entries that are declared for a format, in the order of the declaration.
-/
def entries (declaration : Declaration) (format : Format) : List MappingEntry :=
  Draft.entriesFor format declaration.mappings

theorem gathers_of_build (h : declaration.build.value = .ok model) :
    ∃ n, Draft.Gathers declaration.mappings (model.mappings, n) := by
  have hcomplete := (acceptable_of_build h).complete
  rw [← forall_mem_rules_iff] at hcomplete
  rw [build_eq_ok_iff] at h
  have hempty : Draft.Gathers [] ([], 0) := by
    constructor
    case distinct => exact List.nodup_nil
    case numbered =>
      intro mapping hmapping
      cases hmapping
    case unseen =>
      intro format _
      rfl
  refine ⟨declaration.draft.nextGroup, ?_⟩
  rw [h.2, Declaration.model, draft, Draft.mappings_foldl]
  exact hempty.foldl hcomplete

theorem numbered_of_build (h : declaration.build.value = .ok model)
    (hmapping : mapping ∈ model.mappings) :
    ∃ n, MappingEntry.Numbered 0 n (declaration.entries mapping.format) mapping.rules := by
  rcases gathers_of_build h with ⟨n, hgathers⟩
  exact ⟨n, hgathers.numbered mapping hmapping⟩

theorem problem?_of_build (h : declaration.build.value = .ok model)
    (hmapping : mapping ∈ model.mappings) {rule : Rule} (hrule : rule ∈ mapping.rules) :
    rule.problem? model.attributes = none := by
  rw [build_eq_ok_iff, problems, Problem.noError_append, Draft.noError_mappingProblems_iff] at h
  rw [h.2] at hmapping ⊢
  exact h.1.2 mapping hmapping rule hrule

end Declaration

end ContentModel
