import Mathlib.Data.List.TakeWhile
import ContentModel.Model
import ContentModel.Proofs.Nesting

/-!
This module contains the failures of an instance as they are read off the content trees alone, without
the numbers and the accumulators of the walk, and the proof that the walk reports just these.
-/

namespace ContentModel

theorem filterMap_cons_eq_append {α β : Type} (f : α → Option β) (a : α) (rest : List α) :
    (a :: rest).filterMap f = (f a).toList ++ rest.filterMap f := by
  rw [List.filterMap_cons]
  cases f a <;> rfl

namespace Event

def failures (events : List Event) : List Failure := events.filterMap Event.failure?

@[simp]
theorem failures_append (xs ys : List Event) : failures (xs ++ ys) = failures xs ++ failures ys :=
  List.filterMap_append

@[simp]
theorem failures_map_reported (list : List Failure) : failures (list.map .reported) = list := by
  induction list with
  | nil => rfl
  | cons failure rest ih =>
    rw [List.map_cons, failures, List.filterMap_cons_some (by rfl)]
    exact congrArg (List.cons failure) ih

end Event

namespace Visit

@[simp]
theorem present_settle (v : Visit) (verdict : OrderVerdict) :
    (v.settle verdict).present = v.present := by
  cases verdict <;> rfl

@[simp]
theorem placed_settle (v : Visit) (verdict : OrderVerdict) :
    (v.settle verdict).placed = v.placed := by
  cases verdict <;> rfl

@[simp]
theorem pending_settle (v : Visit) (verdict : OrderVerdict) :
    (v.settle verdict).pending = v.pending ++ verdict.failure?.toList := by
  cases verdict <;> simp [settle, OrderVerdict.failure?]

@[simp]
theorem failures_events_settle (v : Visit) (verdict : OrderVerdict) :
    Event.failures (v.settle verdict).events = Event.failures v.events := by
  cases verdict with
  | kept => rfl
  | unanchored expected =>
    rw [settle, Event.failures_append]
    exact List.append_nil _
  | broken expected found => rfl

end Visit

namespace OrderCheck

theorem mismatch_eq_some {declared : List Attribute} {actual : List String} {expected : String}
    {found : Option String} (h : mismatch declared actual = some (expected, found)) :
    expected ∈ declared.map (·.name)
      ∧ ∀ name, found = some name → name ≠ expected ∧ name ∈ actual := by
  fun_induction mismatch declared actual with
  | case1 => cases h
  | case2 a rest =>
    cases h
    simp
  | case3 a rest remaining ih =>
    rcases ih h with ⟨hexpected, hfound⟩
    refine ⟨List.mem_cons_of_mem _ hexpected, ?_⟩
    intro name hname
    rcases hfound name hname with ⟨hne, hmem⟩
    refine ⟨hne, List.mem_cons_of_mem _ ?_⟩
    split at hmem
    . apply (List.dropWhile_sublist _).subset hmem
    . exact hmem
  | case4 a rest name remaining hne =>
    cases h
    simp [hne]

end OrderCheck

open OrderCheck in
theorem checkOrder_eq_broken {anchor : Anchor} {order : Option ElementOrder}
    {declared : List Attribute} {expected : String} {found : Option String}
    (h : checkOrder anchor order declared = .broken expected found) :
    ∃ recorded, order = some recorded ∧ expected ∈ declared.map (·.name)
      ∧ ∀ name, found = some name → name ≠ expected ∧ name ∈ actual declared recorded := by
  unfold checkOrder at h
  split at h
  . cases h
  . next recorded =>
    refine ⟨recorded, rfl, ?_⟩
    dsimp only at h
    split at h
    . cases h
    . next first rest hexpected =>
      have hsublist : (first :: rest).Sublist declared := by
        rw [← hexpected]
        apply List.filter_sublist
      split at h
      . next habsent =>
        cases anchor with
        | lenient => cases h
        | strict =>
          cases h
          rw [List.dropWhile_eq_nil_iff] at habsent
          refine ⟨(hsublist.map _).subset List.mem_cons_self, ?_⟩
          intro name hname
          have hmem := List.mem_of_head? hname
          refine ⟨?_, hmem⟩
          simpa using habsent name hmem
      . split at h
        . cases h
        . next hmismatch =>
          cases h
          rcases mismatch_eq_some hmismatch with ⟨hmem, hfound⟩
          refine ⟨(hsublist.map _).subset hmem, ?_⟩
          intro name hname
          rcases hfound name hname with ⟨hne, hname⟩
          exact ⟨hne, (List.dropWhile_sublist _).subset hname⟩

namespace Content

def presentAll (inst : Instance) (contents : List Content) : List Attribute :=
  (leavesAll contents).filter (·.isPresent inst)

mutual

/--
The leaves with a place in the order of a sequence around the tree. A choice has places only for the
leaves that are present.
-/
def placed (inst : Instance) : Content → List Attribute
  | .leaf a => [a]
  | .particle (.choice _) children => presentAll inst children
  | .particle .all _ => []
  | .particle _ children => placedAll inst children
termination_by structural content => content

def placedAll (inst : Instance) : List Content → List Attribute
  | [] => []
  | content :: rest => content.placed inst ++ placedAll inst rest
termination_by structural contents => contents

end

/--
The failure of a sequence with the given children that is held to its order.
-/
def orderFailure? (inst : Instance) (anchor : Anchor) (children : List Content) : Option Failure :=
  (checkOrder anchor inst.order (placedAll inst children)).failure?

def sequence? : Content → Option (List Content)
  | .particle .sequence children => some children
  | _ => none

/--
The sequences that are held to their order where the tree stands at the top level or in a choice: the
tree itself, or those that stand directly in it when it is a group.
-/
def sequences : Content → List (List Content)
  | .particle .sequence children => [children]
  | .particle .group children => children.filterMap sequence?
  | _ => []

def orderFailures (inst : Instance) (anchor : Anchor) (content : Content) : List Failure :=
  content.sequences.filterMap (orderFailure? inst anchor)

/--
How often a branch matches: an attribute and a sequence or group once when something is present at or
below it, a nested choice once for each present leaf below it.
-/
def matchesOf (inst : Instance) : Content → Nat
  | .leaf a => if a.isPresent inst then 1 else 0
  | .particle (.choice _) children => (presentAll inst children).length
  | .particle _ children => if (leavesAll children).any (·.isPresent inst) then 1 else 0

def matchCount (inst : Instance) : List Content → Nat
  | [] => 0
  | branch :: rest => branch.matchesOf inst + matchCount inst rest

def choiceFailure? (inst : Instance) (anchor : Anchor) (range : ChoiceRange) (inChoice : Bool)
    (branches : List Content) : Option Failure :=
  Branches.failure? range inChoice
    { matched := presentAll inst branches
      count := matchCount inst branches
      spoiled := branches.any fun branch => !(branch.orderFailures inst anchor).isEmpty }

def allFailure? (inst : Instance) (children : List Content) : Option Failure :=
  let missing := (children.filterMap leaf?).filter fun a => !a.isPresent inst && !a.isOptional
  if missing.isEmpty then none else some (.incompleteAll (missing.map (·.name)))

mutual

/--
What the choices and alls at and below a tree report where they stand.
-/
def report (inst : Instance) (anchor : Anchor) (inChoice : Bool) : Content → List Failure
  | .leaf _ => []
  | .particle (.choice range) branches =>
    reportAll inst anchor true branches ++ (choiceFailure? inst anchor range inChoice branches).toList
  | .particle .all children => (allFailure? inst children).toList
  | .particle _ children =>
    reportAll inst anchor (inChoice && !(leavesAll children).any (·.isPresent inst)) children
termination_by structural content => content

def reportAll (inst : Instance) (anchor : Anchor) (inChoice : Bool) : List Content → List Failure
  | [] => []
  | content :: rest =>
    content.report inst anchor inChoice ++ reportAll inst anchor inChoice rest
termination_by structural contents => contents

end

variable {inst : Instance} {anchor : Anchor}

@[simp]
theorem presentAll_cons (content : Content) (rest : List Content) :
    presentAll inst (content :: rest)
      = content.leaves.filter (·.isPresent inst) ++ presentAll inst rest := by
  rw [presentAll, leavesAll_cons, List.filter_append]
  rfl

theorem choiceFailure?_eq_some {range : ChoiceRange} {inChoice : Bool} {branches : List Content}
    {failure : Failure} (h : choiceFailure? inst anchor range inChoice branches = some failure) :
    let matched := (presentAll inst branches).map (·.name)
    let count := matchCount inst branches
    failure = .invalidChoice matched
        ∧ (range = .exactlyOne ∧ count ≠ 1
          ∨ range.contains count = true
            ∧ ∃ branch ∈ branches, branch.orderFailures inst anchor ≠ [])
      ∨ ∃ min max, range = .between min max ∧ range.contains count = false
          ∧ failure = .outOfRangeChoice matched count min max := by
  intro matched count
  unfold choiceFailure? Branches.failure? at h
  dsimp only at h
  split at h
  . cases h
  . split at h
    next hcontains =>
      split at h
      next hspoiled =>
        cases h
        rw [List.any_eq_true] at hspoiled
        rcases hspoiled with ⟨branch, hmem, hbranch⟩
        refine .inl ⟨rfl, .inr ⟨hcontains, branch, hmem, ?_⟩⟩
        simpa using hbranch
      . cases h
    next hcontains =>
      rw [Bool.not_eq_true] at hcontains
      cases range with
      | exactlyOne =>
        cases h
        refine .inl ⟨rfl, .inl ⟨rfl, ?_⟩⟩
        intro hone
        rw [show matchCount inst branches = 1 from hone] at hcontains
        cases hcontains
      | between min max =>
        cases h
        exact .inr ⟨min, max, rfl, hcontains, rfl⟩

theorem allFailure?_eq_some {children : List Content} {failure : Failure}
    (h : allFailure? inst children = some failure) :
    let missing := (children.filterMap leaf?).filter fun a => !a.isPresent inst && !a.isOptional
    missing ≠ [] ∧ failure = .incompleteAll (missing.map (·.name)) := by
  intro missing
  unfold allFailure? at h
  dsimp only at h
  split at h
  . cases h
  . next hmissing =>
    cases h
    refine ⟨?_, rfl⟩
    rw [List.isEmpty_iff] at hmissing
    exact hmissing

theorem orderFailure?_eq_some {children : List Content} {failure : Failure}
    (h : orderFailure? inst anchor children = some failure) :
    ∃ expected found, failure = .incorrectSequence expected found
      ∧ checkOrder anchor inst.order (placedAll inst children) = .broken expected found := by
  unfold orderFailure? OrderVerdict.failure? at h
  split at h
  . next expected found hbroken =>
    cases h
    exact ⟨expected, found, rfl, hbroken⟩
  . cases h

theorem orderFailures_sequence (children : List Content) :
    (particle .sequence children).orderFailures inst anchor
      = (orderFailure? inst anchor children).toList := by
  rw [orderFailures, sequences, filterMap_cons_eq_append, List.filterMap_nil, List.append_nil]

theorem filterMap_leaf? {children : List Content} (h : ∀ child ∈ children.map kind?, child = none) :
    children.filterMap leaf? = leavesAll children := by
  induction children with
  | nil => rfl
  | cons child rest ih =>
    rw [List.map_cons, List.forall_mem_cons] at h
    cases child with
    | leaf a =>
      rw [List.filterMap_cons_some (by rfl), ih h.2]
      rfl
    | particle kind children => simp [kind?] at h

mutual

theorem placed_sublist (content : Content) :
    (content.placed inst).Sublist content.leaves := by
  cases content with
  | leaf a => apply List.Sublist.refl
  | particle kind children =>
    cases kind with
    | sequence => apply placedAll_sublist children
    | choice range => apply List.filter_sublist
    | group => apply placedAll_sublist children
    | all => apply List.nil_sublist

theorem placedAll_sublist (contents : List Content) :
    (placedAll inst contents).Sublist (leavesAll contents) := by
  cases contents with
  | nil => apply List.nil_sublist
  | cons content rest =>
    apply List.Sublist.append
    . apply placed_sublist
    . apply placedAll_sublist

end

theorem report_sequence (inChoice : Bool) (children : List Content) :
    report inst anchor inChoice (.particle .sequence children)
      = reportAll inst anchor (inChoice && !(leavesAll children).any (·.isPresent inst))
          children := by
  rfl

theorem report_group (inChoice : Bool) (children : List Content) :
    report inst anchor inChoice (.particle .group children)
      = reportAll inst anchor (inChoice && !(leavesAll children).any (·.isPresent inst))
          children := by
  rfl

theorem sequence?_eq_some_iff {content : Content} {children : List Content} :
    content.sequence? = some children ↔ content = .particle .sequence children := by
  cases content with
  | leaf a => simp [sequence?]
  | particle kind contents => cases kind <;> simp [sequence?]

theorem mem_sequences {content : Content} {children : List Content}
    (h : children ∈ content.sequences) :
    content = .particle .sequence children
      ∨ ∃ contents, content = .particle .group contents
          ∧ .particle .sequence children ∈ contents := by
  unfold sequences at h
  split at h
  . rw [List.mem_singleton] at h
    simp [h]
  . next contents =>
    simp only [List.mem_filterMap, sequence?_eq_some_iff, exists_eq_right] at h
    exact .inr ⟨contents, rfl, h⟩
  . cases h

theorem leavesAll_sublist_of_mem_sequences {content : Content} {children : List Content}
    (h : children ∈ content.sequences) : (leavesAll children).Sublist content.leaves := by
  rcases mem_sequences h with heq | ⟨contents, heq, hmem⟩
  . rw [heq]
    apply List.Sublist.refl
  . rw [heq]
    apply leaves_sublist_leavesAll hmem

theorem placedAll_append (xs ys : List Content) :
    placedAll inst (xs ++ ys) = placedAll inst xs ++ placedAll inst ys := by
  induction xs with
  | nil => rfl
  | cons content rest ih => rw [List.cons_append, placedAll, placedAll, ih, List.append_assoc]

theorem presentAll_append (xs ys : List Content) :
    presentAll inst (xs ++ ys) = presentAll inst xs ++ presentAll inst ys := by
  unfold presentAll
  rw [leavesAll_append, List.filter_append]

theorem matchCount_append (xs ys : List Content) :
    matchCount inst (xs ++ ys) = matchCount inst xs + matchCount inst ys := by
  induction xs with
  | nil => simp [matchCount]
  | cons content rest ih => simp [matchCount, ih, Nat.add_assoc]

theorem reportAll_append (inChoice : Bool) (xs ys : List Content) :
    reportAll inst anchor inChoice (xs ++ ys)
      = reportAll inst anchor inChoice xs ++ reportAll inst anchor inChoice ys := by
  induction xs with
  | nil => rfl
  | cons content rest ih => simp [reportAll, ih]

theorem visit_sequence_of_true (inChoice : Bool) (n : Nat) (children : List Content) :
    visit inst anchor true inChoice n (.particle .sequence children)
      = visitRow inst anchor true (inChoice && !(leavesAll children).any (·.isPresent inst)) (n + 1)
          children := by
  rfl

theorem visit_sequence_of_false (inChoice : Bool) (n : Nat) (children : List Content) :
    let inner := visit inst anchor true inChoice n (.particle .sequence children)
    visit inst anchor false inChoice n (.particle .sequence children)
      = inner.settle (checkOrder anchor inst.order inner.placed) := by
  rfl

mutual

theorem present_visit (content : Content) (h : content.WellNested) (inSequence inChoice : Bool)
    (n : Nat) :
    (content.visit inst anchor inSequence inChoice n).present
      = content.leaves.filter (·.isPresent inst) := by
  cases content with
  | leaf a => simp [visit, leaves, List.filter_cons]
  | particle kind children =>
    rw [WellNested] at h
    cases kind with
    | sequence =>
      cases inSequence with
      | true => exact present_visitRow children h.2 true _ (n + 1)
      | false =>
        rw [visit_sequence_of_false, Visit.present_settle, visit_sequence_of_true]
        exact present_visitRow children h.2 true _ (n + 1)
    | choice range => exact matched_visitBranches children h.2 ⟨n⟩ (n + 1)
    | group => exact present_visitRow children h.2 inSequence _ (n + 1)
    | all =>
      rw [visit, visitAll, filterMap_leaf? h.1]
      rfl

theorem present_visitRow (contents : List Content) (h : WellNestedAll contents)
    (inSequence inChoice : Bool) (n : Nat) :
    (visitRow inst anchor inSequence inChoice n contents).present = presentAll inst contents := by
  cases contents with
  | nil => rfl
  | cons content rest =>
    rw [presentAll_cons, ← present_visit content h.1 inSequence inChoice n]
    rw [← present_visitRow rest h.2 inSequence inChoice (n + content.size)]
    rfl

theorem matched_visitBranches (branches : List Content) (h : WellNestedAll branches)
    (id : ParticleId) (n : Nat) :
    (visitBranches inst anchor id n branches).matched = presentAll inst branches := by
  cases branches with
  | nil => rfl
  | cons branch rest =>
    rw [presentAll_cons, ← present_visit branch h.1 false true n]
    rw [← matched_visitBranches rest h.2 id (n + branch.size)]
    rfl

end

mutual

theorem placed_visit (content : Content) (h : content.WellNested) (inSequence inChoice : Bool)
    (n : Nat) :
    (content.visit inst anchor inSequence inChoice n).placed = content.placed inst := by
  cases content with
  | leaf a => rfl
  | particle kind children =>
    rw [WellNested] at h
    cases kind with
    | sequence =>
      cases inSequence with
      | true => exact placed_visitRow children h.2 true _ (n + 1)
      | false =>
        rw [visit_sequence_of_false, Visit.placed_settle, visit_sequence_of_true]
        exact placed_visitRow children h.2 true _ (n + 1)
    | choice range => exact matched_visitBranches children h.2 ⟨n⟩ (n + 1)
    | group => exact placed_visitRow children h.2 inSequence _ (n + 1)
    | all => rfl

theorem placed_visitRow (contents : List Content) (h : WellNestedAll contents)
    (inSequence inChoice : Bool) (n : Nat) :
    (visitRow inst anchor inSequence inChoice n contents).placed = placedAll inst contents := by
  cases contents with
  | nil => rfl
  | cons content rest =>
    rw [placedAll, ← placed_visit content h.1 inSequence inChoice n]
    rw [← placed_visitRow rest h.2 inSequence inChoice (n + content.size)]
    rfl

end

mutual

theorem pending_visit_of_true (content : Content) (inChoice : Bool) (n : Nat) :
    (content.visit inst anchor true inChoice n).pending = [] := by
  cases content with
  | leaf a => rfl
  | particle kind children =>
    -- The sequence around owns the check, so a sequence in it leaves nothing over.
    cases kind with
    | sequence => exact pending_visitRow_of_true children _ (n + 1)
    | choice range => rfl
    | group => exact pending_visitRow_of_true children _ (n + 1)
    | all => rfl

theorem pending_visitRow_of_true (contents : List Content) (inChoice : Bool) (n : Nat) :
    (visitRow inst anchor true inChoice n contents).pending = [] := by
  cases contents with
  | nil => rfl
  | cons content rest =>
    have hcontent := pending_visit_of_true content inChoice n
    have hrest := pending_visitRow_of_true rest inChoice (n + content.size)
    calc
      _ = (content.visit inst anchor true inChoice n).pending
            ++ (visitRow inst anchor true inChoice (n + content.size) rest).pending := rfl
      _ = [] := by rw [hcontent, hrest]; rfl

end

theorem pending_visit_sequence {children : List Content} (h : WellNestedAll children)
    (inChoice : Bool) (n : Nat) :
    (visit inst anchor false inChoice n (.particle .sequence children)).pending
      = (orderFailure? inst anchor children).toList := by
  rw [visit_sequence_of_false, Visit.pending_settle, pending_visit_of_true, visit_sequence_of_true]
  rw [placed_visitRow children h]
  rfl

theorem pending_visitRow_of_group (contents : List Content)
    (hkinds : some .group ∉ contents.map kind?) (h : WellNestedAll contents) (inChoice : Bool)
    (n : Nat) :
    (visitRow inst anchor false inChoice n contents).pending
      = (contents.filterMap sequence?).filterMap (orderFailure? inst anchor) := by
  induction contents generalizing n with
  | nil => rfl
  | cons content rest ih =>
    rw [List.map_cons, List.mem_cons, not_or] at hkinds
    have hrest := ih hkinds.2 h.2 (n + content.size)
    have happend :
        (visitRow inst anchor false inChoice n (content :: rest)).pending
          = (content.visit inst anchor false inChoice n).pending
            ++ (visitRow inst anchor false inChoice (n + content.size) rest).pending := rfl
    rw [happend, hrest]
    cases content with
    | leaf a => rfl
    | particle kind children =>
      cases kind with
      | sequence =>
        rw [pending_visit_sequence h.1.2, List.filterMap_cons_some (by rfl)]
        rw [filterMap_cons_eq_append]
      | choice range => rfl
      -- A group in the group would hand on the sequences in it as well.
      | group => exact absurd rfl hkinds.1
      | all => rfl

theorem pending_visit (content : Content) (h : content.WellNested) (inChoice : Bool) (n : Nat) :
    (content.visit inst anchor false inChoice n).pending = content.orderFailures inst anchor := by
  cases content with
  | leaf a => rfl
  | particle kind children =>
    rw [WellNested] at h
    cases kind with
    | sequence =>
      rw [pending_visit_sequence h.2, orderFailures_sequence]
    | choice range => rfl
    | group => exact pending_visitRow_of_group children h.1.2.1 h.2 _ (n + 1)
    | all => rfl

theorem weight_eq_matchesOf (branch : Content) :
    Branches.weight branch (branch.leaves.filter (·.isPresent inst)).length
      = branch.matchesOf inst := by
  cases branch with
  | leaf a =>
    rw [Branches.weight, leaves, matchesOf, List.filter_cons]
    split <;> rfl
  | particle kind children =>
    have hnone : ((leavesAll children).filter (·.isPresent inst)).length = 0
        ↔ ¬ (leavesAll children).any (·.isPresent inst) := by
      rw [List.length_eq_zero_iff, List.filter_eq_nil_iff, List.any_eq_true]
      simp
    cases kind with
    | choice range => rfl
    | sequence | group | all =>
      change (if ((leavesAll children).filter (·.isPresent inst)).length = 0 then 0 else 1)
        = if (leavesAll children).any (·.isPresent inst) then 1 else 0
      by_cases hany : (leavesAll children).any (·.isPresent inst)
      . rw [if_neg (fun hzero => hnone.mp hzero hany), if_pos hany]
      . rw [if_pos (hnone.mpr hany), if_neg hany]

theorem count_visitBranches (branches : List Content) (h : WellNestedAll branches)
    (id : ParticleId) (n : Nat) :
    (visitBranches inst anchor id n branches).count = matchCount inst branches := by
  induction branches generalizing n with
  | nil => rfl
  | cons branch rest ih =>
    rw [visitBranches, Branches.cons]
    dsimp only
    rw [ih h.2, present_visit branch h.1, weight_eq_matchesOf]
    rfl

theorem spoiled_visitBranches (branches : List Content) (h : WellNestedAll branches)
    (id : ParticleId) (n : Nat) :
    (visitBranches inst anchor id n branches).spoiled
      = branches.any fun branch => !(branch.orderFailures inst anchor).isEmpty := by
  induction branches generalizing n with
  | nil => rfl
  | cons branch rest ih =>
    rw [visitBranches, Branches.cons]
    dsimp only
    rw [ih h.2, pending_visit branch h.1]
    rfl

theorem failure?_visitBranches (branches : List Content) (h : WellNestedAll branches)
    (range : ChoiceRange) (inChoice : Bool) (id : ParticleId) (n : Nat) :
    (visitBranches inst anchor id n branches).failure? range inChoice
      = choiceFailure? inst anchor range inChoice branches := by
  unfold choiceFailure? Branches.failure?
  rw [matched_visitBranches branches h, count_visitBranches branches h,
    spoiled_visitBranches branches h]

theorem failures_events_visitAll (children : List Content) :
    Event.failures (visitAll inst (children.filterMap leaf?)).events
      = (allFailure? inst children).toList := by
  unfold visitAll allFailure?
  dsimp only
  split <;> rfl

theorem failures_branchFailed (id : ParticleId) (pending : List Failure) :
    Event.failures (if pending.isEmpty then [] else [.branchFailed id pending.length]) = [] := by
  split <;> rfl

theorem failures_map_reported_toList (failure? : Option Failure) :
    Event.failures (failure?.map .reported).toList = failure?.toList := by
  cases failure? <;> rfl

mutual

theorem failures_events_visit (content : Content) (h : content.WellNested)
    (inSequence inChoice : Bool) (n : Nat) :
    Event.failures (content.visit inst anchor inSequence inChoice n).events
      = content.report inst anchor inChoice := by
  cases content with
  | leaf a => rfl
  | particle kind children =>
    rw [WellNested] at h
    cases kind with
    | sequence =>
      cases inSequence with
      | true => exact failures_events_visitRow children h.2 true _ (n + 1)
      | false =>
        rw [visit_sequence_of_false, Visit.failures_events_settle, visit_sequence_of_true]
        exact failures_events_visitRow children h.2 true _ (n + 1)
    | choice range =>
      rw [visit, report]
      dsimp only
      rw [Event.failures_append, failures_events_visitBranches children h.2]
      rw [failures_map_reported_toList, failure?_visitBranches children h.2]
    | group => exact failures_events_visitRow children h.2 inSequence _ (n + 1)
    | all => exact failures_events_visitAll children

theorem failures_events_visitRow (contents : List Content) (h : WellNestedAll contents)
    (inSequence inChoice : Bool) (n : Nat) :
    Event.failures (visitRow inst anchor inSequence inChoice n contents).events
      = reportAll inst anchor inChoice contents := by
  cases contents with
  | nil => rfl
  | cons content rest =>
    rw [reportAll, ← failures_events_visit content h.1 inSequence inChoice n]
    rw [← failures_events_visitRow rest h.2 inSequence inChoice (n + content.size)]
    rw [← Event.failures_append]
    rfl

theorem failures_events_visitBranches (branches : List Content) (h : WellNestedAll branches)
    (id : ParticleId) (n : Nat) :
    Event.failures (visitBranches inst anchor id n branches).events
      = reportAll inst anchor true branches := by
  cases branches with
  | nil => rfl
  | cons branch rest =>
    rw [visitBranches, Branches.cons]
    dsimp only
    rw [Event.failures_append, Event.failures_append, failures_branchFailed, List.append_nil]
    rw [failures_events_visit branch h.1, failures_events_visitBranches rest h.2]
    rfl

end

theorem failures_visitRoots (contents : List Content) (h : WellNestedAll contents) (n : Nat) :
    Event.failures (visitRoots inst anchor n contents)
      = contents.flatMap fun root =>
          root.report inst anchor false ++ root.orderFailures inst anchor := by
  induction contents generalizing n with
  | nil => rfl
  | cons content rest ih =>
    rw [visitRoots, Event.failures_append, Event.failures_append, Event.failures_map_reported]
    rw [failures_events_visit content h.1, pending_visit content h.1, ih h.2, List.flatMap_cons]

end Content

theorem Attribute.countFailure?_eq_some {a : Attribute} {inst : Instance} {failure : Failure}
    (h : a.countFailure? inst = some failure) :
    a.isCollection = true ∧ a.occurs.contains (inst.occurrences a.name) = false
      ∧ failure = .collectionCountOutOfRange a.name (inst.occurrences a.name) a.occurs := by
  unfold countFailure? at h
  dsimp only at h
  split at h
  next hcount =>
    rw [Bool.and_eq_true, Bool.not_eq_true'] at hcount
    cases h
    exact ⟨hcount.1, hcount.2, rfl⟩
  next => cases h

/--
The failures of an instance: the item counts first, then root by root what choices and alls report,
followed by the order failures of the root.
-/
theorem Model.value_validate {model : Model} (h : Content.WellNestedAll model.content)
    (inst : Instance) (anchor : Anchor) :
    (model.validate inst anchor).value
      = model.attributes.filterMap (·.countFailure? inst)
        ++ model.content.flatMap fun root =>
            root.report inst anchor false ++ root.orderFailures inst anchor := by
  change Event.failures (validationEvents model.content inst anchor) = _
  rw [validationEvents, Event.failures_append, Event.failures_map_reported]
  rw [Content.failures_visitRoots model.content h]
  rfl

end ContentModel
