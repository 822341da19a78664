import ContentModel.Proofs.Validation.Sources
import ContentModel.Proofs.Validation.Table

/-!
This module contains the proof that validation along the tables of an accepted model comes to an end
and leaves nothing out: every recursion goes to a larger number, every particle is entered once, and
nothing that is looked up is missing.
-/

namespace ContentModel

namespace Table

namespace Walk

/--
Wherever the first walk has a result, the second one has the same.
-/
def Extends {α : Type} (walk other : Walk α) : Prop :=
  ∀ progress result, walk progress = some result → other progress = some result

namespace Extends

variable {α β : Type} {walk other : Walk α}

theorem refl (walk : Walk α) : walk.Extends walk := fun _ _ => id

theorem bind {next next' : α → Walk β} (h : walk.Extends other)
    (h' : ∀ a, (next a).Extends (next' a)) : (walk >>= next).Extends (other >>= next') := by
  intro progress result hresult
  change (walk progress).bind _ = some result at hresult
  rcases Option.bind_eq_some_iff.mp hresult with ⟨⟨a, after⟩, hwalk, hnext⟩
  change (other progress).bind _ = some result
  rw [h progress _ hwalk]
  exact h' a after result hnext

end Extends

end Walk

section Extends

open Walk (Extends)

variable (model : Model) (inst : Instance) (anchor : Anchor)

theorem extends_isTaken (depth : Nat) (caller : Option ParticleId) (node : Node) :
    (isTaken model inst depth caller node).Extends (isTaken model inst (depth + 1) caller node) := by
  induction depth generalizing caller node with
  | zero =>
    cases node with
    | leaf name => exact .refl _
    | particle id => rintro _ _ ⟨⟩
  | succ depth ih =>
    cases node with
    | leaf name => exact .refl _
    | particle id =>
      rw [isTaken, isTaken]
      refine .bind (.refl _) fun _ => ?_
      cases model.particle? id with
      | none => exact .refl _
      | some row =>
        dsimp only
        induction row.children with
        | nil => exact .refl _
        | cons child rest hrest =>
          rw [List.anyM, List.anyM]
          refine .bind (ih _ child) fun taken => ?_
          cases taken with
          | true => exact .refl _
          | false => exact hrest

theorem extends_isUntaken (depth : Nat) (inChoice : Bool) (id : ParticleId) :
    (isUntaken model inst depth inChoice id).Extends
      (isUntaken model inst (depth + 1) inChoice id) := by
  unfold isUntaken
  cases inChoice with
  | false => exact .refl _
  | true => exact .bind (extends_isTaken model inst depth none _) fun _ => .refl _

section Children

variable {visitChild visitChild' : Ledger → Node → Walk (Ledger × List Failure)}
  (h : ∀ ledger child, (visitChild ledger child).Extends (visitChild' ledger child))
include h

theorem extends_visitRow (ledger : Ledger) (children : List Node) :
    (visitRow visitChild ledger children).Extends (visitRow visitChild' ledger children) := by
  induction children generalizing ledger with
  | nil => exact .refl _
  | cons child rest ih =>
    rw [visitRow, visitRow]
    exact .bind (h ledger child) fun _ => .bind (ih _) fun _ => .refl _

theorem extends_visitBranches (id : ParticleId) (found : Branches) (branches : List Node) :
    (visitBranches model visitChild id found branches).Extends
      (visitBranches model visitChild' id found branches) := by
  induction branches generalizing found with
  | nil => exact .refl _
  | cons branch rest ih =>
    rw [visitBranches, visitBranches]
    exact .bind (h _ branch) fun _ => .bind (.refl _) fun _ => .bind (.refl _) fun _ => ih _

end Children

theorem extends_visit (depth : Nat) (caller : Option ParticleId) (inChoice : Bool) (ledger : Ledger)
    (node : Node) :
    (visit model inst anchor depth caller inChoice ledger node).Extends
      (visit model inst anchor (depth + 1) caller inChoice ledger node) := by
  induction depth generalizing caller inChoice ledger node with
  | zero =>
    cases node with
    | leaf name => exact .refl _
    | particle id => rintro _ _ ⟨⟩
  | succ depth ih =>
    cases node with
    | leaf name => exact .refl _
    | particle id =>
      have huntaken := extends_isUntaken model inst (depth + 1) inChoice
      rw [visit, visit]
      refine .bind (.refl _) fun _ => ?_
      cases model.particle? id with
      | none => exact .refl _
      | some row =>
        have hrow (inChoice : Bool) := extends_visitRow (ih (some row.id) inChoice)
        dsimp only
        cases row.kind with
        | sequence =>
          refine .bind (huntaken row.id) fun untaken => ?_
          cases ledger.order with
          | some placed => exact hrow untaken ledger row.children
          | none => exact .bind (hrow untaken _ row.children) fun _ => .refl _
        | choice range =>
          have hbranches := extends_visitBranches model (ih (some row.id) true)
          exact .bind (hbranches row.id {} row.children) fun _ => .refl _
        | group => exact .bind (huntaken row.id) fun untaken => hrow untaken ledger row.children
        | all => exact .refl _

theorem extends_validate (depth : Nat) :
    (validate model inst anchor depth).Extends (validate model inst anchor (depth + 1)) := by
  refine .bind (.refl _) fun _ => ?_
  induction model.roots with
  | nil => exact .refl _
  | cons root rest ih =>
    exact .bind (.bind (extends_visit model inst anchor depth none false {} _) fun _ => .refl _)
      fun _ => ih

/--
A walk that comes to an end does the same where more calls may stand inside each other.
-/
theorem eq_some_of_le {α : Type} {walk : Nat → Walk α}
    (h : ∀ depth, (walk depth).Extends (walk (depth + 1))) {least depth : Nat} (hle : least ≤ depth)
    {progress : Progress} {result : α × Progress} (hresult : walk least progress = some result) :
    walk depth progress = some result := by
  induction hle with
  | refl => exact hresult
  | step _ ih => exact h _ progress result ih

end Extends

variable {model : Model} {inst : Instance} {anchor : Anchor} {content : Content} {n : Nat}

theorem yields_roots (inst : Instance) (anchor : Anchor) {contents : List Content} {n : Nat}
    (h : Carries model n contents) {depth : Nat} (hdepth : Content.sizeAll contents ≤ depth) :
    (((Content.nodes n contents).filterMap Node.particle?).forM fun root => do
        let (_, failures) ← visit model inst anchor depth none false {} (.particle root)
        Walk.tell (failures.map .reported)).Yields (Step.Sound model) ()
      (Content.visitRoots inst anchor n contents) (ids n (Content.sizeAll contents)) := by
  induction contents generalizing n with
  | nil => exact .pure
  | cons content rest ih =>
    rw [Content.sizeAll_cons] at hdepth
    have hrest := ih h.tail (Nat.le_of_add_left_le hdepth)
    cases content with
    | leaf a =>
      rw [Content.sizeAll_cons, Content.size, Nat.zero_add]
      exact hrest
    | particle kind children =>
      let root := Content.particle kind children
      have hall : false = true → root.kind? ≠ some .all := by rintro ⟨⟩
      have henters := h.head.sound_enters (precedes_none n) hall
      have hroot : Agrees (Step.Sound model)
          (visit model inst anchor depth none false {} (root.node n)) {}
          (root.visit inst anchor false false n) (ids n root.size) :=
        agrees_visit root h.head (fun _ h => h) (Nat.le_of_add_right_le hdepth) false {} henters
      rw [Content.nodes_cons_node, Content.node, List.filterMap_cons_some (by rfl)]
      rw [Content.visitRoots, Content.sizeAll_cons, ids_append]
      exact (hroot.last (Walk.Yields.tell _)).bind hrest

/--
The walk from the node of a tree does what the visit of the tree does, whoever calls it.
-/
theorem exists_visit_eq_some (h : Carries model n [content]) (inst : Instance) (anchor : Anchor)
    (caller : Option ParticleId) (inChoice : Bool) (ledger : Ledger) (progress : Progress) :
    let v := content.visit inst anchor ledger.order.isSome inChoice n
    ∃ after, ∀ depth, model.particles.length ≤ depth →
      visit model inst anchor depth caller inChoice ledger (content.node n) progress
        = some ((ledger.add v.present v.placed, v.pending), after) := by
  intro v
  have hagrees : Agrees (fun _ => True)
      (visit model inst anchor model.particles.length caller inChoice ledger (content.node n)) ledger
      v (ids n content.size) :=
    agrees_visit content h (fun _ _ => trivial) h.size_le inChoice ledger (fun _ => trivial)
  rcases hagrees with ⟨steps, hrun, _⟩
  refine ⟨progress.add v.events steps, fun depth hdepth => ?_⟩
  exact eq_some_of_le (extends_visit model inst anchor · caller inChoice ledger _) hdepth (hrun progress)

theorem exists_isTaken_eq_some (h : Carries model n [content]) (inst : Instance)
    (caller : Option ParticleId) (progress : Progress) :
    ∃ after, ∀ depth, model.particles.length ≤ depth →
      isTaken model inst depth caller (content.node n) progress
        = some (content.isTaken inst, after) := by
  have hyields : (isTaken model inst model.particles.length caller (content.node n)).Yields
      (fun _ => True) (content.isTaken inst) [] [] :=
    yields_isTaken content h (fun _ _ => trivial) h.size_le (fun _ => trivial)
  rcases hyields with ⟨steps, hrun, _⟩
  refine ⟨progress.add [] steps, fun depth hdepth => ?_⟩
  exact eq_some_of_le (extends_isTaken model inst · caller _) hdepth (hrun progress)

theorem exists_validate_eq_some (h : Carries model 0 model.content) (inst : Instance)
    (anchor : Anchor) :
    ∃ steps, (∀ depth, model.particles.length ≤ depth →
        validate model inst anchor depth {}
          = some ((), ⟨validationEvents model.content inst anchor, steps⟩))
      ∧ (∀ step ∈ steps, step.Sound model)
      ∧ steps.filterMap Step.entered? = ids 0 model.particles.length := by
  have hroots := yields_roots inst anchor h h.size_le
  have hyields : (validate model inst anchor model.particles.length).Yields (Step.Sound model) ()
      (validationEvents model.content inst anchor) (ids 0 (Content.sizeAll model.content)) :=
    (Walk.Yields.tell _).bind hroots
  rcases hyields with ⟨steps, hrun, hsteps, hentered⟩
  refine ⟨steps, ?_, hsteps, ?_⟩
  . intro depth hdepth
    exact eq_some_of_le (extends_validate model inst anchor) hdepth (hrun {})
  . rw [hentered, Model.particles, Content.length_listingAll]

mutual

theorem exists_carries_of_mem (content : Content) {n : Nat} (h : Carries model n [content])
    {parent : Option ParticleId} {row : Particle} (hrow : row ∈ content.listing parent n) :
    ∃ inner : Content, inner.node row.id.index = .particle row.id
      ∧ Carries model row.id.index [inner] := by
  cases content with
  | leaf a => cases hrow
  | particle kind children =>
    rw [Content.listing, List.mem_cons] at hrow
    rcases hrow with hrow | hrow
    . rw [hrow]
      exact ⟨.particle kind children, rfl, h⟩
    . exact exists_carries_of_mem_all children h.below hrow

theorem exists_carries_of_mem_all (contents : List Content) {n : Nat} (h : Carries model n contents)
    {parent : Option ParticleId} {row : Particle}
    (hrow : row ∈ Content.listingAll parent n contents) :
    ∃ inner : Content, inner.node row.id.index = .particle row.id
      ∧ Carries model row.id.index [inner] := by
  cases contents with
  | nil => cases hrow
  | cons content rest =>
    rw [Content.listingAll, List.mem_append] at hrow
    rcases hrow with hrow | hrow
    . exact exists_carries_of_mem content h.head hrow
    . exact exists_carries_of_mem_all rest h.tail hrow

end

/--
A tree stands at every node of the model.
-/
theorem exists_carries (h : Carries model 0 model.content) {node : Node} (hnode : model.Finds node) :
    ∃ n, ∃ content : Content, content.node n = node ∧ Carries model n [content] := by
  cases node with
  | leaf name =>
    rcases Option.isSome_iff_exists.mp hnode with ⟨a, ha⟩
    have hname : a.name = name := by simpa using List.find?_some ha
    refine ⟨0, .leaf a, congrArg Node.leaf hname, ?_⟩
    constructor
    case rows => exact ⟨none, by rintro _ ⟨⟩⟩
    case leaves => exact List.singleton_sublist.mpr (List.mem_of_find?_eq_some ha)
    case nested => exact ⟨trivial, trivial⟩
    case distinct => exact h.distinct
  | particle id =>
    rcases Option.isSome_iff_exists.mp hnode with ⟨row, hrow⟩
    rcases Model.particle?_eq_some_iff.mp hrow with ⟨hmem, hid⟩
    rcases exists_carries_of_mem_all model.content h hmem with ⟨inner, hinner⟩
    rw [hid] at hinner
    exact ⟨id.index, inner, hinner⟩

theorem map_id_particles (model : Model) :
    model.particles.map (·.id) = ids 0 model.particles.length := by
  rw [Model.particles, Content.length_listingAll, ids, ← Content.map_index_listingAll _ none 0]
  rw [List.map_map]
  rfl

theorem nodup_ids (n size : Nat) : (ids n size).Nodup := by
  apply List.Nodup.map _ List.nodup_range'
  intro i j heq
  exact congrArg ParticleId.index heq

/--
Wherever the walk over the tables of the model starts, it comes to an end, with no more calls inside each
other than there are particles, since it only ever goes on to larger numbers. Where it validates the
instance, it tells what the walk over the trees tells, and it enters every particle once.
-/
structure Covers (model : Model) (inst : Instance) (anchor : Anchor) : Prop where
  down : ∀ row ∈ model.particles, ∀ id, .particle id ∈ row.children →
    row.id.index < id.index ∧ id.index < model.particles.length
  ends : ∀ node, model.Finds node → ∀ caller inChoice ledger progress,
    (∃ result, ∀ depth, model.particles.length ≤ depth →
        visit model inst anchor depth caller inChoice ledger node progress = some result)
      ∧ ∃ result, ∀ depth, model.particles.length ≤ depth →
        isTaken model inst depth caller node progress = some result
  pass : ∃ steps, (∀ depth, model.particles.length ≤ depth →
      validate model inst anchor depth {}
        = some ((), ⟨validationEvents model.content inst anchor, steps⟩))
    ∧ steps.filterMap Step.entered? = model.particles.map (·.id)
    ∧ (model.particles.map (·.id)).Nodup
    ∧ ∀ step ∈ steps, step.Sound model

end Table

theorem Declaration.carries_of_build {declaration : Declaration} {model : Model}
    (h : declaration.build.value = .ok model) : Table.Carries model 0 model.content := by
  constructor
  case rows => exact ⟨none, fun row hrow => hrow⟩
  case leaves => exact List.Sublist.refl _
  case nested => exact wellNested_of_build h
  case distinct => exact distinct_of_build h

open Table in
theorem Declaration.covers_of_build {declaration : Declaration} {model : Model}
    (h : declaration.build.value = .ok model) (inst : Instance) (anchor : Anchor) :
    Covers model inst anchor := by
  have hcarries := carries_of_build h
  constructor
  case down =>
    intro row hrow id hchild
    rcases Content.exists_child_listingAll model.content hrow hchild with ⟨hlt, child, hmem, hid, _⟩
    refine ⟨hlt, ?_⟩
    exact (List.getElem?_eq_some_iff.mp (Model.particle?_eq_some_iff.mpr ⟨hmem, hid⟩)).1
  case ends =>
    intro node hnode caller inChoice ledger progress
    rcases exists_carries hcarries hnode with ⟨n, content, rfl, hcontent⟩
    constructor
    . rcases exists_visit_eq_some hcontent inst anchor caller inChoice ledger progress with ⟨_, hvisit⟩
      exact ⟨_, hvisit⟩
    . rcases exists_isTaken_eq_some hcontent inst caller progress with ⟨_, htaken⟩
      exact ⟨_, htaken⟩
  case pass =>
    rcases exists_validate_eq_some hcarries inst anchor with ⟨steps, hrun, hsteps, hentered⟩
    refine ⟨steps, hrun, ?_, ?_, hsteps⟩
    . rw [hentered, map_id_particles]
    . rw [map_id_particles]
      exact nodup_ids _ _

/--
A letter has five particles: the choice and the sequence in the group come after it. All are entered
for a letter that holds nothing.
-/
theorem covers_letter :
    let model := Declaration.letter.model
    let inst := model.newInstance
    Declaration.letter.build.value = .ok model
      ∧ Table.Covers model inst .strict
      ∧ ∃ steps, Table.validate model inst .strict 5 {}
            = some ((), ⟨validationEvents model.content inst .strict, steps⟩)
          ∧ steps.filterMap Table.Step.entered? = [⟨0⟩, ⟨1⟩, ⟨2⟩, ⟨3⟩, ⟨4⟩] := by
  intro model inst
  have hbuild : Declaration.letter.build.value = .ok model := rfl
  have hcovers := Declaration.covers_of_build hbuild inst .strict
  rcases hcovers.pass with ⟨steps, hrun, hentered, _⟩
  exact ⟨hbuild, hcovers, steps, hrun 5 (Nat.le_refl _), hentered⟩

end ContentModel
