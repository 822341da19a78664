import Mathlib.Data.List.Nodup
import Mathlib.Data.List.Perm.Subperm
import ContentModel.Proofs.Forest
import ContentModel.Proofs.Validation.Report
import ContentModel.Validation.Table

/-!
This module contains the proof that the walk over the tables of a model does what the walk over its
trees does. It needs no more calls inside each other than there are particles, enters these one after
the other in the order of their numbers, and finds whatever it looks up.
-/

namespace ContentModel

/--
The node that stands for a tree whose first particle has the number `n`.
-/
def Content.node (n : Nat) : Content → Node
  | .leaf a => .leaf a.name
  | .particle .. => .particle ⟨n⟩

theorem Content.nodes_cons_node (content : Content) (rest : List Content) (n : Nat) :
    nodes n (content :: rest) = content.node n :: nodes (n + content.size) rest := by
  cases content <;> rfl

theorem Content.sizeAll_eq_zero {contents : List Content}
    (h : ∀ kind ∈ contents.map kind?, kind = none) : sizeAll contents = 0 := by
  induction contents with
  | nil => rfl
  | cons content rest ih =>
    rw [List.map_cons, List.forall_mem_cons] at h
    cases content with
    | leaf a => rw [sizeAll_cons, ih h.2, size]
    | particle kind children => cases h.1

/--
The node is one of the model: an attribute that is declared, or a particle in its table.
-/
def Model.Finds (model : Model) : Node → Prop
  | .leaf name => (model.attribute? name).isSome
  | .particle id => (model.particle? id).isSome

namespace Table

/--
So many numbers from `n` on.
-/
def ids (n size : Nat) : List ParticleId := (List.range' n size).map ParticleId.mk

theorem ids_append (n m k : Nat) : ids n (m + k) = ids n m ++ ids (n + m) k := by
  unfold ids
  rw [← List.map_append, List.range'_append_1]

/--
The particle that calls, if there is one, has a number below `n`.
-/
def Precedes (caller : Option ParticleId) (n : Nat) : Prop :=
  ∀ outer, caller = some outer → outer.index < n

theorem precedes_none (n : Nat) : Precedes none n := by
  rintro _ ⟨⟩

theorem precedes_some {id : ParticleId} {n : Nat} (h : id.index < n) : Precedes (some id) n := by
  rintro _ ⟨⟩
  exact h

/--
The step finds what it looks for. A recursion goes down in the table, an all holds no particle that it
would have to pass over, and no order is handed to an all.
-/
structure Step.Sound (model : Model) (step : Step) : Prop where
  found : model.Finds step.node
  down : ∀ outer, step.caller? = some outer → ∃ id, step.node = .particle id
    ∧ outer.index < id.index ∧ id.index < model.particles.length
  unskipped : ∀ id, step ≠ .skips id
  unordered : ∀ caller id, step = .enters caller id true →
    ∀ row, model.particle? id = some row → row.kind ≠ .all

namespace Walk

/--
Wherever the walk starts, it comes to an end with this result. It tells the events, enters the
particles, and all of its steps have the property.
-/
def Yields {α : Type} (p : Step → Prop) (walk : Walk α) (a : α) (events : List Event)
    (entered : List ParticleId) : Prop :=
  ∃ steps, (∀ progress, walk progress = some (a, progress.add events steps))
    ∧ (∀ step ∈ steps, p step) ∧ steps.filterMap Step.entered? = entered

namespace Yields

variable {α β : Type} {p q : Step → Prop} {walk : Walk α} {a : α} {b : β}
  {events events' : List Event} {entered entered' : List ParticleId}

theorem mono (h : walk.Yields p a events entered) (himp : ∀ step, p step → q step) :
    walk.Yields q a events entered := by
  rcases h with ⟨steps, hrun, hsteps, hentered⟩
  exact ⟨steps, hrun, fun step hstep => himp step (hsteps step hstep), hentered⟩

theorem pure : (Pure.pure a : Walk α).Yields p a [] [] := by
  refine ⟨[], ?_, by simp, rfl⟩
  intro progress
  change some (a, progress) = some (a, progress.add [] [])
  rw [Progress.add, List.append_nil, List.append_nil]

theorem bind {next : α → Walk β} (h : walk.Yields p a events entered)
    (h' : (next a).Yields p b events' entered') :
    (walk >>= next).Yields p b (events ++ events') (entered ++ entered') := by
  rcases h with ⟨steps, hrun, hsteps, hentered⟩
  rcases h' with ⟨steps', hrun', hsteps', hentered'⟩
  refine ⟨steps ++ steps', ?_, ?_, ?_⟩
  . intro progress
    change (walk progress).bind (fun result => next result.1 result.2) = _
    rw [hrun, Option.bind_some, hrun']
    simp [Progress.add]
  . rw [List.forall_mem_append]
    exact ⟨hsteps, hsteps'⟩
  . rw [List.filterMap_append, hentered, hentered']

theorem last {next : α → Walk β} (h : walk.Yields p a events entered)
    (h' : (next a).Yields p b events' []) :
    (walk >>= next).Yields p b (events ++ events') entered := by
  rw [← List.append_nil entered]
  exact h.bind h'

theorem map {f : α → β} (h : walk.Yields p a events entered) :
    (walk >>= fun a => Pure.pure (f a)).Yields p (f a) events entered := by
  rw [← List.append_nil events]
  exact h.last .pure

theorem tell (events : List Event) : (Walk.tell events).Yields p () events [] :=
  ⟨[], fun _ => rfl, by simp, rfl⟩

theorem note {step : Step} (h : p step) :
    (Walk.note step).Yields p () [] step.entered?.toList := by
  refine ⟨[step], fun _ => rfl, by simpa using h, ?_⟩
  rw [filterMap_cons_eq_append]
  exact List.append_nil _

end Yields

end Walk

/--
The trees stand in the tables of the model, with their particles numbered from `n`.
-/
structure Carries (model : Model) (n : Nat) (contents : List Content) : Prop where
  rows : ∃ parent, ∀ row ∈ Content.listingAll parent n contents, row ∈ model.particles
  leaves : (Content.leavesAll contents).Sublist model.attributes
  nested : Content.WellNestedAll contents
  distinct : (model.attributes.map (·.name)).Nodup

namespace Carries

variable {model : Model} {n : Nat} {content : Content} {contents rest children : List Content}
  {kind : ParticleKind}

theorem attribute? (h : Carries model n contents) {a : Attribute}
    (ha : a ∈ Content.leavesAll contents) : model.attribute? a.name = some a :=
  RuleDraft.find?_name_eq_some h.distinct (h.leaves.subset ha)

theorem head (h : Carries model n (content :: rest)) : Carries model n [content] := by
  constructor
  case rows =>
    rcases h.rows with ⟨parent, hrows⟩
    refine ⟨parent, ?_⟩
    intro row hrow
    rw [Content.listingAll, Content.listingAll, List.append_nil] at hrow
    exact hrows row (List.mem_append_left _ hrow)
  case leaves =>
    rw [Content.leavesAll_cons, Content.leavesAll_nil, List.append_nil]
    exact (List.sublist_append_left _ _).trans h.leaves
  case nested => exact ⟨h.nested.1, trivial⟩
  case distinct => exact h.distinct

theorem tail (h : Carries model n (content :: rest)) :
    Carries model (n + content.size) rest := by
  constructor
  case rows =>
    rcases h.rows with ⟨parent, hrows⟩
    exact ⟨parent, fun row hrow => hrows row (List.mem_append_right _ hrow)⟩
  case leaves => exact (List.sublist_append_right _ _).trans h.leaves
  case nested => exact h.nested.2
  case distinct => exact h.distinct

theorem below (h : Carries model n [.particle kind children]) :
    Carries model (n + 1) children := by
  constructor
  case rows =>
    rcases h.rows with ⟨parent, hrows⟩
    refine ⟨some ⟨n⟩, ?_⟩
    intro row hrow
    exact hrows row (List.mem_append_left _ (List.mem_cons_of_mem _ hrow))
  case leaves => exact (List.sublist_append_left _ _).trans h.leaves
  case nested => exact h.nested.1.2
  case distinct => exact h.distinct

theorem exists_row (h : Carries model n [.particle kind children]) :
    ∃ parent, model.particle? ⟨n⟩ = some ⟨⟨n⟩, kind, Content.nodes (n + 1) children, parent⟩ := by
  rcases h.rows with ⟨parent, hrows⟩
  refine ⟨parent, Model.particle?_eq_some_iff.mpr ⟨hrows _ ?_, rfl⟩⟩
  exact List.mem_append_left _ List.mem_cons_self

theorem holds (h : Carries model n [.particle kind children]) :
    kind.Holds (children.map Content.kind?) := h.nested.1.1

theorem size_le (h : Carries model n contents) :
    Content.sizeAll contents ≤ model.particles.length := by
  rcases h.rows with ⟨parent, hrows⟩
  have hnodup : (Content.listingAll parent n contents).Nodup := by
    apply List.Nodup.of_map (·.id.index)
    rw [Content.map_index_listingAll]
    exact List.nodup_range'
  rw [← Content.length_listingAll contents parent n]
  exact (List.subperm_of_subset hnodup hrows).length_le

/--
A step that looks at the particle is sound, provided that nothing goes wrong with its caller or with
an order that it hands on.
-/
theorem sound (h : Carries model n [.particle kind children]) {step : Step}
    (hnode : step.node = .particle ⟨n⟩)
    (hcaller : Precedes step.caller? n)
    (hskips : ∀ id, step ≠ .skips id) (hall : ∀ caller id, step = .enters caller id true → kind ≠ .all) :
    step.Sound model := by
  rcases h.exists_row with ⟨parent, hrow⟩
  have hfound : model.Finds (.particle ⟨n⟩) := Option.isSome_of_eq_some hrow
  constructor
  case found =>
    rw [hnode]
    exact hfound
  case down =>
    intro outer houter
    refine ⟨⟨n⟩, hnode, hcaller outer houter, ?_⟩
    exact (List.getElem?_eq_some_iff.mp hrow).1
  case unskipped => exact hskips
  case unordered =>
    intro caller id heq row hrow'
    have hid : id = ⟨n⟩ := by
      rw [heq] at hnode
      exact Node.particle.inj hnode
    rw [hid, hrow] at hrow'
    cases hrow'
    exact hall caller id heq

theorem sound_asks (h : Carries model n [content]) {caller : Option ParticleId}
    (hcaller : Precedes caller n) (hkind : content.kind?.isSome) :
    (Step.asks caller ⟨n⟩).Sound model := by
  cases content with
  | leaf a => cases hkind
  | particle kind children => exact h.sound rfl hcaller (by rintro _ ⟨⟩) (by rintro _ _ ⟨⟩)

theorem sound_enters (h : Carries model n [content]) {caller : Option ParticleId} {ordered : Bool}
    (hcaller : Precedes caller n) (hall : ordered = true → content.kind? ≠ some .all)
    (hkind : content.kind?.isSome) : (Step.enters caller ⟨n⟩ ordered).Sound model := by
  cases content with
  | leaf a => cases hkind
  | particle kind children =>
    refine h.sound rfl hcaller (by rintro _ ⟨⟩) ?_
    intro caller id heq hkind
    have hordered : ordered = true := by injection heq
    exact hall hordered (congrArg some hkind)

end Carries

variable {model : Model} {inst : Instance} {anchor : Anchor}

theorem yields_attribute? {name : String} {a : Attribute} (h : model.attribute? name = some a) :
    (attribute? model name).Yields (Step.Sound model) (some a) [] [] := by
  unfold attribute?
  rw [h]
  have hsound : (Step.seeks (.leaf name)).Sound model := by
    constructor
    case found => exact Option.isSome_of_eq_some h
    case down => rintro _ ⟨⟩
    case unskipped => rintro _ ⟨⟩
    case unordered => rintro _ _ ⟨⟩
  exact (Walk.Yields.note hsound).bind .pure

mutual

theorem yields_isTaken (content : Content) {n : Nat} (h : Carries model n [content])
    {p : Step → Prop} (hp : ∀ step, step.Sound model → p step) {depth : Nat}
    (hdepth : content.size ≤ depth) {caller : Option ParticleId}
    (hasks : content.kind?.isSome → p (.asks caller ⟨n⟩)) :
    (isTaken model inst depth caller (content.node n)).Yields p (content.isTaken inst) [] [] := by
  cases content with
  | leaf a =>
    have ha := h.attribute? (List.mem_singleton_self a)
    rw [Content.node, isTaken]
    rw [show (Content.leaf a).isTaken inst = (some a).any (·.isPresent inst) from Bool.or_false _]
    exact ((yields_attribute? ha).mono hp).map
  | particle kind children =>
    cases depth with
    | zero => cases hdepth
    | succ depth =>
      rcases h.exists_row with ⟨parent, hrow⟩
      have hid : (⟨n⟩ : ParticleId).index < n + 1 := Nat.lt_succ_self n
      have hany := (yields_anyTaken children h.below (Nat.le_of_succ_le_succ hdepth) hid).mono hp
      rw [Content.node, isTaken, hrow]
      exact (Walk.Yields.note (hasks rfl)).bind hany

theorem yields_anyTaken (contents : List Content) {n : Nat} (h : Carries model n contents)
    {depth : Nat} (hdepth : Content.sizeAll contents ≤ depth) {id : ParticleId} (hid : id.index < n) :
    ((Content.nodes n contents).anyM (isTaken model inst depth (some id))).Yields
      (Step.Sound model) ((Content.leavesAll contents).any (·.isPresent inst)) [] [] := by
  cases contents with
  | nil => exact .pure
  | cons content rest =>
    rw [Content.sizeAll_cons] at hdepth
    have hasks := h.head.sound_asks (precedes_some hid)
    have hfirst := yields_isTaken content h.head (fun _ h => h) (Nat.le_of_add_right_le hdepth) hasks
    have hrest := yields_anyTaken rest h.tail (Nat.le_of_add_left_le hdepth)
      (Nat.lt_add_right content.size hid)
    rw [Content.nodes_cons_node, List.anyM, Content.leavesAll_cons, List.any_append]
    refine hfirst.bind ?_
    cases htaken : content.isTaken inst with
    | true =>
      rw [Content.isTaken] at htaken
      rw [htaken]
      exact .pure
    | false =>
      rw [Content.isTaken] at htaken
      rw [htaken]
      exact hrest

end

theorem yields_isUntaken (inst : Instance) {kind : ParticleKind} {children : List Content} {n : Nat}
    (h : Carries model n [.particle kind children]) {depth : Nat}
    (hdepth : (Content.particle kind children).size ≤ depth) (inChoice : Bool) :
    (isUntaken model inst depth inChoice ⟨n⟩).Yields (Step.Sound model)
      (inChoice && !(Content.leavesAll children).any (·.isPresent inst)) [] [] := by
  unfold isUntaken
  cases inChoice with
  | false => exact .pure
  | true =>
    have hasks := h.sound_asks (precedes_none n)
    exact (yields_isTaken (.particle kind children) h (fun _ h => h) hdepth hasks).map

theorem yields_mapM_known {declared : List Attribute}
    (h : ∀ a ∈ declared, model.attribute? a.name = some a) :
    (declared.mapM (known model)).Yields (Step.Sound model) declared [] [] := by
  induction declared with
  | nil => exact .pure
  | cons a rest ih =>
    rw [List.forall_mem_cons] at h
    have hfirst : (known model a).Yields (Step.Sound model) a [] [] := (yields_attribute? h.1).map
    rw [List.mapM_cons]
    exact hfirst.bind (ih h.2).map

theorem events_settle (v : Visit) (verdict : OrderVerdict) :
    (v.settle verdict).events = v.events ++ passedOver verdict := by
  cases verdict <;> simp [Visit.settle, passedOver]

theorem yields_settle (inst : Instance) (anchor : Anchor) {declared : List Attribute}
    (h : ∀ a ∈ declared, model.attribute? a.name = some a) :
    (settle model inst anchor declared).Yields (Step.Sound model)
      (checkOrder anchor inst.order declared).failure?.toList
      (passedOver (checkOrder anchor inst.order declared)) [] :=
  (yields_mapM_known h).bind (Walk.Yields.tell _).map

theorem yields_leaves {contents : List Content} {n : Nat} (h : Carries model n contents)
    (hkinds : ∀ kind ∈ contents.map Content.kind?, kind = none) :
    (leaves model (Content.nodes n contents)).Yields (Step.Sound model)
      (Content.leavesAll contents) [] [] := by
  induction contents generalizing n with
  | nil => exact .pure
  | cons content rest ih =>
    rw [List.map_cons, List.forall_mem_cons] at hkinds
    cases content with
    | leaf a =>
      have ha := h.attribute? List.mem_cons_self
      exact (yields_attribute? ha).bind (ih h.tail hkinds.2).map
    | particle kind children => cases hkinds.1

theorem yields_weight {branch : Content} {n : Nat} (h : Carries model n [branch]) (added : Nat) :
    (weight model (branch.node n) added).Yields (Step.Sound model) (Branches.weight branch added)
      [] [] := by
  cases branch with
  | leaf a => exact .pure
  | particle kind children =>
    rcases h.exists_row with ⟨parent, hrow⟩
    have hsound : (Step.seeks (.particle ⟨n⟩)).Sound model :=
      h.sound rfl (precedes_none n) (by rintro _ ⟨⟩) (by rintro _ _ ⟨⟩)
    have hchoice : (isChoice model ⟨n⟩).Yields (Step.Sound model) kind.isChoice [] [] := by
      unfold isChoice
      rw [hrow]
      exact (Walk.Yields.note hsound).bind .pure
    exact hchoice.map

/--
What a choice has found in some branches, together with what it finds in the next ones.
-/
def foundNext (found branches : Branches) : Branches :=
  { found with
    matched := found.matched ++ branches.matched
    count := found.count + branches.count
    spoiled := found.spoiled || branches.spoiled }

theorem foundNext_nil (found : Branches) : foundNext found {} = found := by
  simp [foundNext]

theorem foundNext_cons (found : Branches) (id : ParticleId) (branch : Content) (v : Visit)
    (others : Branches) :
    foundNext found (.cons id branch v others)
      = foundNext { found with
          matched := found.matched ++ v.present
          count := found.count + Branches.weight branch v.present.length
          spoiled := found.spoiled || !v.pending.isEmpty } others := by
  simp [foundNext, Branches.cons, Nat.add_assoc, Bool.or_assoc]

theorem failure?_foundNext (range : ChoiceRange) (inChoice : Bool) (branches : Branches) :
    (foundNext {} branches).failure? range inChoice = branches.failure? range inChoice := by
  simp [foundNext, Branches.failure?]

namespace Ledger

variable (ledger : Ledger)

theorem add_nil (present : List Attribute) :
    ledger.add present [] = ⟨ledger.tally ++ present, ledger.order⟩ := by
  rcases ledger with ⟨tally, order⟩
  cases order <;> simp [add]

theorem add_add (present placed present' placed' : List Attribute) :
    (ledger.add present placed).add present' placed'
      = ledger.add (present ++ present') (placed ++ placed') := by
  rcases ledger with ⟨tally, order⟩
  cases order <;> simp [add]

theorem isSome_order_add {present placed : List Attribute} :
    (ledger.add present placed).order.isSome = ledger.order.isSome := by
  rcases ledger with ⟨tally, order⟩
  cases order <;> rfl

end Ledger

/--
The walk adds to the ledger what the visit of trees finds, and tells what it tells.
-/
def Agrees (p : Step → Prop) (walk : Walk (Ledger × List Failure)) (ledger : Ledger) (v : Visit)
    (entered : List ParticleId) : Prop :=
  walk.Yields p (ledger.add v.present v.placed, v.pending) v.events entered

/--
A sequence below another one leaves the order check to it; any other settles its own.
-/
theorem agrees_sequence {children : List Content} {n : Nat} (h : Carries model n children)
    (visitChild : Ledger → Node → Walk (Ledger × List Failure)) (inChoice : Bool) (ledger : Ledger)
    (hrow : ∀ ledger : Ledger,
      Agrees (Step.Sound model) (visitRow visitChild ledger (Content.nodes n children)) ledger
        (Content.visitRow inst anchor ledger.order.isSome inChoice n children)
        (ids n (Content.sizeAll children))) :
    let inner := Content.visitRow inst anchor true inChoice n children
    Agrees (Step.Sound model)
      (match ledger.order with
        | some _ => visitRow visitChild ledger (Content.nodes n children)
        | none => do
          let (inner, failures) ←
            visitRow visitChild ⟨ledger.tally, some []⟩ (Content.nodes n children)
          let others ← settle model inst anchor (inner.order.getD [])
          return (⟨inner.tally, none⟩, failures ++ others))
      ledger
      (if ledger.order.isSome then inner
        else inner.settle (checkOrder anchor inst.order inner.placed))
      (ids n (Content.sizeAll children)) := by
  intro inner
  rcases ledger with ⟨tally, order⟩
  cases order with
  | some placed => exact hrow ⟨tally, some placed⟩
  | none =>
    have hplaced : ∀ a ∈ inner.placed, model.attribute? a.name = some a := by
      intro a ha
      rw [Content.placed_visitRow children h.nested] at ha
      exact h.attribute? ((Content.placedAll_sublist children).subset ha)
    unfold Agrees
    rw [if_neg (by simp), Visit.present_settle, Visit.pending_settle, events_settle]
    exact (hrow ⟨tally, some []⟩).last (yields_settle inst anchor hplaced).map

mutual

theorem agrees_visit (content : Content) {n : Nat} (h : Carries model n [content])
    {p : Step → Prop} (hp : ∀ step, step.Sound model → p step) {depth : Nat}
    (hdepth : content.size ≤ depth) {caller : Option ParticleId} (inChoice : Bool) (ledger : Ledger)
    (henters : content.kind?.isSome → p (.enters caller ⟨n⟩ ledger.order.isSome)) :
    Agrees p (visit model inst anchor depth caller inChoice ledger (content.node n)) ledger
      (content.visit inst anchor ledger.order.isSome inChoice n) (ids n content.size) := by
  cases content with
  | leaf a =>
    have ha := h.attribute? (List.mem_singleton_self a)
    rw [Content.node, visit]
    exact ((yields_attribute? ha).mono hp).bind .pure
  | particle kind children =>
    cases depth with
    | zero => cases hdepth
    | succ depth =>
      rcases h.exists_row with ⟨parent, hrow⟩
      have hnote := Walk.Yields.note (henters rfl)
      have hkinds := h.holds
      have hbelow := Nat.le_of_succ_le_succ hdepth
      have huntaken := (yields_isUntaken inst h hdepth inChoice).mono hp
      have hid : (⟨n⟩ : ParticleId).index < n + 1 := Nat.lt_succ_self n
      rw [Content.node, visit, hrow]
      cases kind with
      | sequence =>
        have hsequence := agrees_sequence h.below _ _ ledger fun ledger =>
          agrees_visitRow children h.below hbelow hid
            (inChoice && !(Content.leavesAll children).any (·.isPresent inst)) ledger (fun _ => hkinds)
        exact hnote.bind (huntaken.bind (hsequence.mono hp))
      | choice range =>
        have hbranches := (yields_visitBranches children h.below hbelow hid {}).mono hp
        refine hnote.bind (hbranches.last ?_)
        rw [failure?_foundNext]
        exact (Walk.Yields.tell _).map
      | group =>
        have hrows := agrees_visitRow children h.below hbelow hid
          (inChoice && !(Content.leavesAll children).any (·.isPresent inst)) ledger
          (fun _ => hkinds.2.2.1)
        exact hnote.bind (huntaken.bind (hrows.mono hp))
      | all =>
        have hleaves := (yields_leaves h.below hkinds).mono hp
        unfold Agrees
        rw [Content.size, Content.sizeAll_eq_zero hkinds, Content.visit, Content.filterMap_leaf? hkinds]
        -- An order that is handed to the all stays as it is.
        change Walk.Yields p _ (ledger.add _ [], []) _ _
        rw [ledger.add_nil]
        exact hnote.bind (hleaves.bind (Walk.Yields.tell _).map)

theorem agrees_visitRow (contents : List Content) {n : Nat} (h : Carries model n contents)
    {depth : Nat} (hdepth : Content.sizeAll contents ≤ depth) {id : ParticleId} (hid : id.index < n)
    (inChoice : Bool) (ledger : Ledger)
    (hall : ledger.order.isSome → some .all ∉ contents.map Content.kind?) :
    Agrees (Step.Sound model)
      (visitRow (visit model inst anchor depth (some id) inChoice) ledger (Content.nodes n contents))
      ledger (Content.visitRow inst anchor ledger.order.isSome inChoice n contents)
      (ids n (Content.sizeAll contents)) := by
  cases contents with
  | nil =>
    rw [Content.nodes, visitRow]
    change Walk.Yields _ _ (ledger.add [] [], []) _ _
    rw [ledger.add_nil, List.append_nil]
    exact .pure
  | cons content rest =>
    let v := content.visit inst anchor ledger.order.isSome inChoice n
    rw [Content.sizeAll_cons] at hdepth
    have henters := h.head.sound_enters (precedes_some hid)
      (fun hsome heq => hall hsome (heq ▸ List.mem_cons_self))
    have hfirst := agrees_visit content h.head (fun _ h => h) (Nat.le_of_add_right_le hdepth) inChoice
      ledger henters
    have hrest := agrees_visitRow rest h.tail (Nat.le_of_add_left_le hdepth)
      (Nat.lt_add_right content.size hid) inChoice (ledger.add v.present v.placed)
      (fun hsome hmem => hall (ledger.isSome_order_add ▸ hsome) (List.mem_cons_of_mem _ hmem))
    rw [ledger.isSome_order_add] at hrest
    rw [Content.nodes_cons_node, visitRow, Content.sizeAll_cons, ids_append]
    change Walk.Yields _ _ (ledger.add (v.present ++ _) (v.placed ++ _), v.pending ++ _) _ _
    rw [← ledger.add_add]
    exact hfirst.bind hrest.map

theorem yields_visitBranches (contents : List Content) {n : Nat} (h : Carries model n contents)
    {depth : Nat} (hdepth : Content.sizeAll contents ≤ depth) {id : ParticleId} (hid : id.index < n)
    (found : Branches) :
    let branches := Content.visitBranches inst anchor id n contents
    (visitBranches model (visit model inst anchor depth (some id) true) id found
      (Content.nodes n contents)).Yields (Step.Sound model)
      (foundNext found branches) branches.events (ids n (Content.sizeAll contents)) := by
  cases contents with
  | nil =>
    rw [Content.nodes, visitBranches]
    change Walk.Yields _ _ (foundNext found {}) _ _
    rw [foundNext_nil]
    exact .pure
  | cons branch rest =>
    let v := branch.visit inst anchor false true n
    let gained := (found.matched ++ v.present).length - found.matched.length
    let next : Branches := { found with
      matched := found.matched ++ v.present
      count := found.count + Branches.weight branch v.present.length
      spoiled := found.spoiled || !v.pending.isEmpty }
    rw [Content.sizeAll_cons] at hdepth
    have hall : false = true → branch.kind? ≠ some .all := by rintro ⟨⟩
    have henters := h.head.sound_enters (precedes_some hid) hall
    have hfirst := agrees_visit branch h.head (fun _ h => h) (Nat.le_of_add_right_le hdepth) true
      ⟨found.matched, none⟩ henters
    have hweight : (weight model (branch.node n) gained).Yields (Step.Sound model)
        (Branches.weight branch v.present.length) [] [] := by
      rw [show gained = v.present.length by simp [gained]]
      exact yields_weight h.head v.present.length
    have hrest := yields_visitBranches rest h.tail (Nat.le_of_add_left_le hdepth)
      (Nat.lt_add_right branch.size hid) next
    intro branches
    let others := Content.visitBranches inst anchor id (n + branch.size) rest
    have hfound : foundNext found branches = foundNext next others := foundNext_cons found id branch v _
    have hevents : branches.events
        = v.events ++ ((if v.pending.isEmpty then [] else [.branchFailed id v.pending.length])
          ++ others.events) := List.append_assoc _ _ _
    rw [Content.nodes_cons_node, visitBranches, Content.sizeAll_cons, ids_append, hfound, hevents]
    exact hfirst.bind ((Walk.Yields.tell _).bind (hweight.bind hrest))

end

end Table

end ContentModel
