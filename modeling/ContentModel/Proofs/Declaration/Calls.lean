import Mathlib.Data.List.Basic
import ContentModel.Proofs.Declaration.Mappings
import ContentModel.Proofs.Declaration.Refusal

/-!
This module contains declarations as the calls that make them, one after the other, and when each
problem comes up on the way. What is declared in a refused block is passed over, a particle without
children is found out when it ends, and the rules of a mapping are looked at when the mapping ends.
-/

namespace ContentModel

/--
One call of a declaration that may bring a problem. Blocks and mappings end with a call of their own.
-/
inductive Call where
  | leaf (a : Attribute)
  | enter (kind : BlockKind)
  | leave
  | rule (draft : RuleDraft)
  | endMapping
  | noRoot

namespace Block

mutual

def calls : Block → List Call
  | .leaf a => [.leaf a]
  | .particle kind children => .enter kind :: (callsAll children ++ [.leave])
termination_by structural block => block

def callsAll : List Block → List Call
  | [] => []
  | block :: rest => block.calls ++ callsAll rest
termination_by structural blocks => blocks

end

end Block

def Item.calls : Item → List Call
  | .block declared => declared.calls
  | .mapping _ entries => (entries.filterMap MappingEntry.rule?).map .rule ++ [.endMapping]
  | .rootName _ => []
  | .noRoot => [.noRoot]

/--
How far the calls have come: the particle that is open and whether it is bare of children, the scopes
around it, how deep the calls are in a refused block, the problems that wait for the end of the
mapping, and the problems that have come up.
-/
structure Progress where
  scope : Scope := .top
  bare : Bool := true
  outer : List Scope := []
  skipping : Nat := 0
  waiting : List Problem := []
  emitted : List Problem := []

namespace Progress

def emit (progress : Progress) (problem : Problem) : Progress :=
  { progress with emitted := progress.emitted ++ [problem] }

/--
Keep problems for the end of the mapping.
-/
def keep (progress : Progress) (problems : List Problem) : Progress :=
  { progress with waiting := progress.waiting ++ problems }

/--
Go into a particle.
-/
def enter (progress : Progress) (particle : ParticleKind) : Progress :=
  { progress with
    scope := progress.scope.enter particle
    bare := true
    outer := progress.scope :: progress.outer }

/--
Emit what is wrong with a block and pass over what stands in it.
-/
def refuse (progress : Progress) (problem : Problem) : Progress :=
  { progress.emit problem with skipping := 1 }

/--
Pass over a call in a refused block, up to the end of the block.
-/
def skip (progress : Progress) : Call → Progress
  | .enter _ => { progress with skipping := progress.skipping + 1 }
  | .leave => { progress with skipping := progress.skipping - 1 }
  | _ => progress

/--
Run a call of a model of the given kind.
-/
def run (kind : ModelKind) (progress : Progress) : Call → Progress
  | .leaf a =>
    match progress.scope.refuseAttribute? a with
    | some problem => progress.emit problem
    | none => { progress with scope := progress.scope.add (.leaf a), bare := false }
  | .enter particle =>
    match particle.resolve with
    | .error problem => progress.refuse problem
    | .ok particle =>
      match progress.scope.refuseParticle? particle with
      | some problem => progress.refuse problem
      | none => progress.enter particle
  | .leave =>
    match progress.scope.parent, progress.outer with
    | some particle, scope :: outer =>
      let progress := if progress.bare then progress.emit (.emptyParticle particle) else progress
      { progress with
        scope := ⟨scope.parent, scope.hasChoice || particle.isChoice, progress.scope.names⟩
        bare := false
        outer }
    | _, _ => progress
  | .rule draft =>
    match draft.complete with
    | .ok _ => progress
    | .error problem => progress.keep [problem]
  | .endMapping =>
    { progress with emitted := progress.emitted ++ progress.waiting, waiting := [] }
  | .noRoot => if kind = .group then progress else progress.emit .misplacedNoRoot

def take (kind : ModelKind) (progress : Progress) (call : Call) : Progress :=
  if progress.skipping = 0 then progress.run kind call else progress.skip call

theorem take_of_skipping (kind : ModelKind) {progress : Progress} (h : progress.skipping ≠ 0)
    (call : Call) : progress.take kind call = progress.skip call := by
  rw [take, if_neg h]

theorem take_of_running (kind : ModelKind) {progress : Progress} (h : progress.skipping = 0)
    (call : Call) : progress.take kind call = progress.run kind call := by
  rw [take, if_pos h]

/--
The progress when trees were added to the open particle.
-/
def advance (progress : Progress) (scope : Scope) (contents : List Content)
    (problems : List Problem) : Progress :=
  { progress with
    scope
    bare := progress.bare && contents.isEmpty
    emitted := progress.emitted ++ problems }

theorem advance_advance (progress : Progress) (scope scope' : Scope)
    (contents contents' : List Content) (problems problems' : List Problem) :
    (progress.advance scope contents problems).advance scope' contents' problems'
      = progress.advance scope' (contents ++ contents') (problems ++ problems') := by
  cases contents <;> simp [advance]

theorem take_leave_enter (kind : ModelKind) {progress : Progress} (h : progress.skipping = 0)
    {particle : ParticleKind} {inside : Scope} (hparent : inside.parent = some particle)
    {contents : List Content}
    (hnames : inside.names = progress.scope.names ++ (Content.leavesAll contents).map (·.name))
    (problems : List Problem) :
    ((progress.enter particle).advance inside contents problems).take kind .leave
      = progress.advance (progress.scope.add (.particle particle contents))
          [.particle particle contents]
          (problems ++ if contents.isEmpty then [.emptyParticle particle] else []) := by
  have hrunning : ((progress.enter particle).advance inside contents problems).skipping = 0 := h
  rw [take_of_running kind hrunning, run]
  simp only [advance, enter, hparent]
  cases contents with
  | nil => simp [emit, hnames, Scope.add, Content.isChoice, Content.leaves]
  | cons content rest => simp [hnames, Scope.add, Content.isChoice, Content.leaves]

end Progress

namespace Scope

theorem parent_after (scope : Scope) (block : Block) : (scope.after block).parent = scope.parent := by
  unfold after
  split <;> rfl

theorem parent_foldl_after (scope : Scope) (blocks : List Block) :
    (blocks.foldl after scope).parent = scope.parent := by
  induction blocks generalizing scope with
  | nil => rfl
  | cons block rest ih => rw [List.foldl_cons, ih, parent_after]

theorem names_foldl_after (scope : Scope) (blocks : List Block) :
    (blocks.foldl after scope).names
      = scope.names ++ (Content.leavesAll (Block.elaborateAll scope blocks).1).map (·.name) := by
  induction blocks generalizing scope with
  | nil => simp [Block.elaborateAll]
  | cons block rest ih =>
    rw [List.foldl_cons, ih, Block.elaborateAll_cons]
    unfold after
    cases (block.elaborate scope).1 with
    | none => rfl
    | some content => simp [add]

end Scope

namespace Block

variable (kind : ModelKind)

mutual

theorem foldl_calls_of_skipping (block : Block) (progress : Progress) (h : progress.skipping ≠ 0) :
    block.calls.foldl (Progress.take kind) progress = progress := by
  cases block with
  | leaf a => exact progress.take_of_skipping kind h _
  | particle particle children =>
    have hinside : (progress.skip (.enter particle)).skipping ≠ 0 := Nat.succ_ne_zero _
    rw [calls, List.foldl_cons, List.foldl_append, Progress.take_of_skipping kind h]
    rw [foldl_callsAll_of_skipping children _ hinside]
    exact Progress.take_of_skipping kind hinside .leave

theorem foldl_callsAll_of_skipping (blocks : List Block) (progress : Progress)
    (h : progress.skipping ≠ 0) :
    (callsAll blocks).foldl (Progress.take kind) progress = progress := by
  cases blocks with
  | nil => rfl
  | cons block rest =>
    rw [callsAll, List.foldl_append, foldl_calls_of_skipping block progress h]
    exact foldl_callsAll_of_skipping rest progress h

end

theorem foldl_calls_of_refuse (particle : BlockKind) (children : List Block) {progress : Progress}
    (h : progress.skipping = 0) {problem : Problem}
    (hrefuse : progress.run kind (.enter particle) = progress.refuse problem) :
    (calls (.particle particle children)).foldl (Progress.take kind) progress
      = progress.emit problem := by
  have hinside : (progress.refuse problem).skipping ≠ 0 := Nat.one_ne_zero
  rw [calls, List.foldl_cons, List.foldl_append, Progress.take_of_running kind h, hrefuse]
  rw [foldl_callsAll_of_skipping kind children _ hinside, List.foldl_cons, List.foldl_nil]
  rw [Progress.take_of_skipping kind hinside]
  simp [Progress.skip, Progress.refuse, Progress.emit, h]

mutual

/--
The calls of a block come to the same as its elaboration.
-/
theorem foldl_calls (block : Block) (progress : Progress) (h : progress.skipping = 0) :
    block.calls.foldl (Progress.take kind) progress
      = progress.advance (progress.scope.after block) (block.elaborate progress.scope).1.toList
          (block.elaborate progress.scope).2 := by
  cases block with
  | leaf a =>
    rw [calls, List.foldl_cons, List.foldl_nil, Progress.take_of_running kind h, Progress.run]
    rw [Scope.after, elaborate]
    cases progress.scope.refuseAttribute? a with
    | none => simp [Progress.advance]
    | some problem => simp [Progress.advance, Progress.emit]
  | particle particle children =>
    rw [Scope.after, elaborate]
    cases hkind : particle.resolve with
    | error problem =>
      have hrun : progress.run kind (.enter particle) = progress.refuse problem := by
        rw [Progress.run, hkind]
      rw [foldl_calls_of_refuse kind particle children h hrun]
      simp [Progress.advance, Progress.emit]
    | ok particle' =>
      dsimp only
      cases hrefuse : progress.scope.refuseParticle? particle' with
      | some problem =>
        have hrun : progress.run kind (.enter particle) = progress.refuse problem := by
          simp [Progress.run, hkind, hrefuse]
        rw [foldl_calls_of_refuse kind particle children h hrun]
        simp [Progress.advance, Progress.emit]
      | none =>
        -- The scope around the particle waits, and the children are added to a bare one.
        have henter : progress.run kind (.enter particle) = progress.enter particle' := by
          simp [Progress.run, hkind, hrefuse]
        rw [calls, List.foldl_cons, List.foldl_append, Progress.take_of_running kind h, henter]
        rw [foldl_callsAll children (progress.enter particle') h, List.foldl_cons, List.foldl_nil]
        apply Progress.take_leave_enter kind h
        . apply Scope.parent_foldl_after
        . apply Scope.names_foldl_after

theorem foldl_callsAll (blocks : List Block) (progress : Progress) (h : progress.skipping = 0) :
    (callsAll blocks).foldl (Progress.take kind) progress
      = progress.advance (blocks.foldl Scope.after progress.scope)
          (elaborateAll progress.scope blocks).1 (elaborateAll progress.scope blocks).2 := by
  cases blocks with
  | nil => simp [callsAll, elaborateAll, Progress.advance]
  | cons block rest =>
    have hafter : (progress.advance (progress.scope.after block)
      (block.elaborate progress.scope).1.toList (block.elaborate progress.scope).2).skipping = 0 := h
    rw [callsAll, List.foldl_append, foldl_calls block progress h, foldl_callsAll rest _ hafter]
    rw [Progress.advance_advance, elaborateAll_cons]
    rfl

end

end Block

theorem MappingEntry.foldl_calls (kind : ModelKind) (entries : List MappingEntry) (n : Nat)
    {progress : Progress} (h : progress.skipping = 0) :
    ((entries.filterMap rule?).map Call.rule).foldl (Progress.take kind) progress
      = progress.keep (elaborate n entries).2 := by
  induction entries generalizing n progress with
  | nil => simp [elaborate, Progress.keep]
  | cons entry rest ih =>
    cases entry with
    | rule draft =>
      rw [List.filterMap_cons_some (by rfl), List.map_cons, List.foldl_cons]
      rw [Progress.take_of_running kind h, Progress.run, elaborate]
      cases draft.complete with
      | ok rule => exact ih n h
      | error problem =>
        have hkeep : (progress.keep [problem]).skipping = 0 := h
        dsimp only
        rw [ih n hkeep]
        simp [Progress.keep]
    | group functions fields =>
      rw [List.filterMap_cons_none (by rfl), elaborate]
      exact ih (n + 1) h

namespace Progress

/--
Between two items of a declaration no particle is open, and what has come up is in the draft.
-/
structure Reflects (progress : Progress) (draft : Draft) : Prop where
  scope_eq : progress.scope = draft.scope
  skipping_eq : progress.skipping = 0
  waiting_eq : progress.waiting = []
  emitted_eq : progress.emitted = draft.problems

namespace Reflects

variable {progress : Progress} {draft : Draft}

theorem add (h : progress.Reflects draft) (kind : ModelKind) (item : Item) :
    (item.calls.foldl (take kind) progress).Reflects (draft.add kind item) := by
  rcases h with ⟨hscope, hskipping, hwaiting, hemitted⟩
  cases item with
  | block block =>
    rw [Item.calls, Block.foldl_calls kind block progress hskipping, Draft.add_block]
    rw [← hscope, ← hemitted]
    exact ⟨rfl, hskipping, hwaiting, rfl⟩
  | mapping format entries =>
    rw [Item.calls, List.foldl_append, MappingEntry.foldl_calls kind entries draft.nextGroup hskipping]
    have hkeep : (progress.keep (MappingEntry.elaborate draft.nextGroup entries).2).skipping = 0 :=
      hskipping
    rw [List.foldl_cons, List.foldl_nil, take_of_running kind hkeep, run]
    refine ⟨hscope, hskipping, rfl, ?_⟩
    rw [keep, hwaiting, hemitted]
    rfl
  | rootName name => exact ⟨hscope, hskipping, hwaiting, hemitted⟩
  | noRoot =>
    rw [Item.calls, List.foldl_cons, List.foldl_nil, take_of_running kind hskipping, run]
    by_cases hkind : kind = .group
    . rw [if_pos hkind, Draft.add_noRoot_of_group hkind]
      exact ⟨hscope, hskipping, hwaiting, hemitted⟩
    . rw [if_neg hkind, Draft.add_noRoot_of_ne_group hkind]
      refine ⟨hscope, hskipping, hwaiting, ?_⟩
      rw [emit, hemitted]

theorem foldl (h : progress.Reflects draft) (kind : ModelKind) (items : List Item) :
    ((items.flatMap Item.calls).foldl (take kind) progress).Reflects
      (items.foldl (Draft.add kind) draft) := by
  induction items generalizing progress draft with
  | nil => exact h
  | cons item rest ih =>
    rw [List.flatMap_cons, List.foldl_append]
    exact ih (h.add kind item)

end Reflects

end Progress

namespace MappingEntry

/--
What a declared rule gets wrong about the attributes. A rule that lacks something is not looked at.
-/
def problem? (attributes : List Attribute) : MappingEntry → Option Problem
  | .rule draft =>
    match draft.complete with
    | .ok complete => complete.problem? attributes
    | .error _ => none
  | .group .. => none

theorem filterMap_problem?_elaborate (attributes : List Attribute) (entries : List MappingEntry)
    (n : Nat) :
    (elaborate n entries).1.filterMap (·.problem? attributes)
      = entries.filterMap (problem? attributes) := by
  induction entries generalizing n with
  | nil => rfl
  | cons entry rest ih =>
    cases entry with
    | rule draft =>
      rw [elaborate, List.filterMap_cons, problem?, ← ih n]
      cases draft.complete <;> rfl
    | group functions fields =>
      rw [elaborate, List.filterMap_append, ih (n + 1), List.filterMap_cons_none (by rfl)]
      -- The rules of a group name no attribute.
      have hgroup : (fields.map fun field => (⟨field, .group ⟨n⟩ functions, none⟩ : Rule)).filterMap
          (·.problem? attributes) = [] := by
        rw [List.filterMap_map, List.filterMap_eq_nil_iff]
        intro field _
        rfl
      rw [hgroup, List.nil_append]

end MappingEntry

namespace Draft

/--
The mappings stand in the order in which their formats came up, and their rules have the problems of
the blocks for the format.
-/
structure Checks (attributes : List Attribute) (blocks : List (Format × List MappingEntry))
    (mappings : List Mapping) : Prop where
  distinct : (mappings.map (·.format)).Nodup
  formats : mappings.map (·.format) = (blocks.map Prod.fst).eraseDups
  problems : ∀ mapping ∈ mappings, mapping.rules.filterMap (·.problem? attributes)
    = (entriesFor mapping.format blocks).filterMap (MappingEntry.problem? attributes)

namespace Checks

variable {attributes : List Attribute} {blocks : List (Format × List MappingEntry)}
  {state : List Mapping × Nat}

theorem add (h : Checks attributes blocks state.1) (block : Format × List MappingEntry) :
    Checks attributes (blocks ++ [block]) (addMapping state block).1 := by
  rcases block with ⟨format, entries⟩
  have hentries := MappingEntry.filterMap_problem?_elaborate attributes entries state.2
  constructor
  case distinct => exact nodup_addRules h.distinct _ _
  case formats =>
    rw [addMapping, map_format_addRules, h.formats, List.map_append]
    simp only [List.map_cons, List.map_nil, eraseDups_concat, List.mem_eraseDups]
  case problems =>
    intro mapping hmapping
    rw [entriesFor_append, List.filterMap_append]
    rcases mem_addRules h.distinct hmapping with ⟨hne, hmem⟩ | ⟨old, hold, heq, rfl⟩ | ⟨hnew, rfl⟩
    . rw [h.problems mapping hmem, entriesFor_of_ne hne.symm, List.filterMap_nil, List.append_nil]
    . rw [List.filterMap_append, hentries, entriesFor_self, h.problems old hold, heq]
    . rw [h.formats, List.mem_eraseDups] at hnew
      rw [hentries, entriesFor_self, entriesFor_of_not_mem hnew]
      rfl

theorem foldl {more : List (Format × List MappingEntry)} (h : Checks attributes blocks state.1) :
    Checks attributes (blocks ++ more) (more.foldl addMapping state).1 := by
  induction more generalizing blocks state with
  | nil =>
    rw [List.append_nil]
    exact h
  | cons block rest ih =>
    rw [List.append_cons]
    exact ih (h.add block)

end Checks

end Draft

namespace Declaration

/--
The problems in the order in which the calls of the declaration bring them up.
-/
def emitted (declaration : Declaration) : List Problem :=
  ((declaration.items.flatMap Item.calls).foldl (Progress.take declaration.kind) {}).emitted

/--
The problems of the rules with the attributes, format by format in the order in which the formats came
up, and then rule by rule.
-/
def checks (declaration : Declaration) : List Problem :=
  (declaration.mappings.map Prod.fst).eraseDups.flatMap fun format =>
    (declaration.entries format).filterMap (MappingEntry.problem? declaration.accepted)

theorem problems_eq (declaration : Declaration) :
    declaration.problems = declaration.emitted ++ declaration.checks := by
  have hstart : Progress.Reflects {} {} := ⟨rfl, rfl, rfl, rfl⟩
  have hemitted := (hstart.foldl declaration.kind declaration.items).emitted_eq
  have hempty : Draft.Checks declaration.accepted [] [] := by
    refine ⟨List.nodup_nil, rfl, ?_⟩
    intro mapping hmapping
    cases hmapping
  have hchecks : Draft.Checks declaration.accepted ([] ++ declaration.mappings)
      (declaration.mappings.foldl Draft.addMapping ([], 0)).1 := Draft.Checks.foldl hempty
  have hmappings := congrArg Prod.fst (Draft.mappings_foldl declaration.kind declaration.items {})
  change declaration.draft.mappings
    = (declaration.mappings.foldl Draft.addMapping ([], 0)).1 at hmappings
  rw [← hmappings, List.nil_append] at hchecks
  rw [problems, emitted, checks, hemitted, ← hchecks.formats, List.flatMap_map]
  congr 1
  apply List.flatMap_congr
  intro mapping hmapping
  exact hchecks.problems mapping hmapping

/--
A call that is refused leaves one error behind, with the name of the model, and nothing else: without
it the other diagnostics stay as they are and where they are, and what stands in it is not looked at.
A declaration with such a call fails and gives back all diagnostics in the order in which its calls
bring them up, and those about the attributes come last.
-/
theorem diagnostics_of_refused (declaration : Declaration) :
    (∀ items, declaration.Drops items →
        let other : Declaration := { declaration with items }
        (∃ before diagnostic after, declaration.diagnostics = before ++ diagnostic :: after
            ∧ diagnostic.isError = true ∧ diagnostic.model = some declaration.name
            ∧ other.diagnostics = before ++ after)
          ∧ other.draft.content = declaration.draft.content
          ∧ other.draft.nextGroup = declaration.draft.nextGroup)
      ∧ (∀ (scope : Scope) kind children, scope.Refuses (.particle kind children) →
        ∃ problem, ∀ others, (Block.particle kind others).elaborate scope = (none, [problem]))
      ∧ ((∃ e, declaration.build.value = .error e) ↔ ∃ items, declaration.Drops items)
      ∧ declaration.diagnostics
        = (declaration.emitted ++ declaration.checks).map (·.diagnostic declaration.name)
      ∧ ∀ e, declaration.build.value = .error e → e.diagnostics = declaration.diagnostics := by
  refine ⟨?_, ?_, exists_build_eq_error_iff declaration, ?_, ?_⟩
  . intro items h other
    have hlighter := Draft.lighter_of_drops declaration.distinct_accepted h
    refine ⟨?_, hlighter.content_eq, hlighter.nextGroup_eq⟩
    rcases errorGone_problems h with ⟨before, problem, after, hproblems, hother, herror⟩
    refine ⟨before.map (·.diagnostic declaration.name), problem.diagnostic declaration.name,
      after.map (·.diagnostic declaration.name), ?_, herror, rfl, ?_⟩
    . rw [diagnostics, hproblems, List.map_append, List.map_cons]
    . rw [diagnostics, hother, List.map_append]
  . intro scope kind children h
    rcases Block.elaborate_particle_of_refuses h with ⟨problem, _, helaborate⟩
    exact ⟨problem, helaborate⟩
  . rw [diagnostics, problems_eq]
  . intro e he
    unfold build at he
    split at he
    . cases he
      rfl
    . cases he

/--
A ledger with a second choice in its group, whose attribute a rule names, and with more that is wrong.
-/
def ledger : Declaration where
  name := "Ledger"
  kind := .model
  items := [
    .mapping .json [
      .rule { name := "total", target := some "sum" },
      .rule { name := "note" }],
    .block (.particle .group [
      .particle (.choice none) [.leaf ⟨"entry", .string, .one⟩],
      .particle (.choice none) [.leaf ⟨"sum", .string, .one⟩, .particle .all []]]),
    .block (.particle .sequence []),
    .noRoot]

theorem ledger_without_second_choice :
    let other : Declaration := { ledger with
      items := ledger.items.take 1
        ++ .block (.particle .group [.particle (.choice none) [.leaf ⟨"entry", .string, .one⟩]])
          :: ledger.items.drop 2 }
    ledger.emitted
        = [.ruleWithoutTarget "note", .secondChoiceInGroup, .emptyParticle .sequence, .misplacedNoRoot]
      ∧ ledger.checks = [.unknownTarget "total" "sum"]
      ∧ (∃ before diagnostic after, ledger.diagnostics = before ++ diagnostic :: after
        ∧ diagnostic.isError = true ∧ diagnostic.model = some "Ledger"
        ∧ other.diagnostics = before ++ after)
      ∧ (∃ problem, ∀ others, (Block.particle (.choice none) others).elaborate
        ⟨some .group, true, ["entry"]⟩ = (none, [problem]))
      ∧ (∃ e, ledger.build.value = .error e ∧ e.diagnostics = ledger.diagnostics) := by
  intro other
  have hgroup : ¬ Scope.top.Refuses (.particle .group [
      .particle (.choice none) [.leaf ⟨"entry", .string, .one⟩],
      .particle (.choice none) [.leaf ⟨"sum", .string, .one⟩, .particle .all []]]) := by
    simp [Scope.Refuses, BlockKind.InOrder, Scope.Admits, Scope.top]
  have hchoice (children : List Block) :
      Scope.Refuses ⟨some .group, true, ["entry"]⟩ (.particle (.choice none) children) := by
    right
    rw [Scope.admits_singleton_iff]
    decide
  have hrefused := diagnostics_of_refused ledger
  have hdrops : ledger.Drops other.items :=
    .later (.inside hgroup (.later (.here (hchoice _))))
  refine ⟨rfl, rfl, (hrefused.1 _ hdrops).1, hrefused.2.1 _ _ [] (hchoice []), ?_⟩
  exact ⟨_, rfl, hrefused.2.2.2.2 _ rfl⟩

end Declaration

end ContentModel
