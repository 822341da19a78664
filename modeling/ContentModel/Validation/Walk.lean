import ContentModel.Content.Listing
import ContentModel.Log
import ContentModel.Validation.Order

/-!
This module contains the walk that validates an instance against content trees. Each tree is visited
once. Choices and alls report their failures where they stand; a sequence hands the failure of its
order check to the particle around it, so that a choice can count it against the branch it came
from, and what reaches the top is reported there.
-/

namespace ContentModel

/--
What a walk has to tell, in the order in which it happens.
-/
inductive Event where
  | reported (failure : Failure)
  /-- An order check was passed over because its first expected child does not occur. -/
  | unanchored (expected : String)
  /-- A branch of a choice came with this many order failures. -/
  | branchFailed (choice : ParticleId) (failures : Nat)
deriving DecidableEq, Repr

namespace Event

def failure? : Event → Option Failure
  | .reported failure => some failure
  | _ => none

/--
The record that is logged for the event.
-/
def record : Event → Log.Record
  | .reported failure => ⟨.trace, failure.message, [("code", failure.code.text)]⟩
  | .unanchored expected =>
    ⟨.trace, "Sequence anchor missing, skipping order check", [("anchor", expected)]⟩
  | .branchFailed choice failures =>
    ⟨.trace, "Sequence inside choice failed",
      [("choice", choice.text), ("failures", toString failures)]⟩

end Event

/--
What the visit of a tree finds: the leaves that are present, the leaves with a place in the order
of a sequence around it, the order failures that nobody has recorded yet, and the events so far.
-/
structure Visit where
  present : List Attribute := []
  placed : List Attribute := []
  pending : List Failure := []
  events : List Event := []

namespace Visit

instance : Append Visit where
  append v w :=
    ⟨v.present ++ w.present, v.placed ++ w.placed, v.pending ++ w.pending, v.events ++ w.events⟩

/--
Settle the order check of a sequence whose children were visited.
-/
def settle (v : Visit) (verdict : OrderVerdict) : Visit :=
  match verdict with
  | .kept => v
  | .unanchored expected => { v with events := v.events ++ [.unanchored expected] }
  | .broken expected found => { v with pending := v.pending ++ [.incorrectSequence expected found] }

end Visit

/--
What a choice finds in its branches: the leaves that are present, the number of matches, whether
an order check failed in some branch, and the events of the branches.
-/
structure Branches where
  matched : List Attribute := []
  count : Nat := 0
  spoiled : Bool := false
  events : List Event := []

namespace Branches

/--
The number of matches of a branch with `added` present leaves. A sequence or group matches as a
whole; a nested choice adds its leaves one by one.
-/
def weight (branch : Content) (added : Nat) : Nat :=
  match branch with
  | .leaf _ => added
  | .particle kind _ => if kind.isChoice then added else if added = 0 then 0 else 1

/--
The visit of the first branch of the choice `id`, followed by what the others have.
-/
def cons (id : ParticleId) (branch : Content) (v : Visit) (others : Branches) : Branches where
  matched := v.present ++ others.matched
  count := weight branch v.present.length + others.count
  spoiled := !v.pending.isEmpty || others.spoiled
  events :=
    v.events ++ (if v.pending.isEmpty then [] else [.branchFailed id v.pending.length])
      ++ others.events

/--
The failure of a choice. A choice without a match in a branch that was not taken reports nothing.
-/
def failure? (range : ChoiceRange) (inChoice : Bool) (branches : Branches) : Option Failure :=
  let matched := branches.matched.map (·.name)
  if inChoice && branches.count == 0 then
    none
  else if range.contains branches.count then
    if branches.spoiled then some (.invalidChoice matched) else none
  else
    match range with
    | .exactlyOne => some (.invalidChoice matched)
    | .between min max => some (.outOfRangeChoice matched branches.count min max)

end Branches

/--
The visit of an all with the given leaves: those that are needed and absent fail together.
-/
def visitAll (inst : Instance) (leaves : List Attribute) : Visit :=
  let missing := leaves.filter fun a => !a.isPresent inst && !a.isOptional
  { present := leaves.filter (·.isPresent inst)
    events :=
      if missing.isEmpty then [] else [.reported (.incompleteAll (missing.map (·.name)))] }

namespace Content

/--
The attribute of a tree that is a leaf.
-/
def leaf? : Content → Option Attribute
  | .leaf a => some a
  | .particle .. => none

mutual

/--
Visit a tree whose particles are numbered from `n`. `inSequence` says that a sequence around it owns
the order check. `inChoice` is set below a choice, until a sequence or group with a present leaf is
entered: there a choice that matches nothing is a branch that was not taken.
-/
def visit (inst : Instance) (anchor : Anchor) (inSequence inChoice : Bool) (n : Nat) :
    Content → Visit
  | .leaf a => { present := if a.isPresent inst then [a] else [], placed := [a] }
  | .particle .sequence children =>
    let untaken := inChoice && !(leavesAll children).any (·.isPresent inst)
    let inner := visitRow inst anchor true untaken (n + 1) children
    if inSequence then inner else inner.settle (checkOrder anchor inst.order inner.placed)
  | .particle (.choice range) children =>
    let branches := visitBranches inst anchor ⟨n⟩ (n + 1) children
    { present := branches.matched
      placed := branches.matched
      events := branches.events ++ ((branches.failure? range inChoice).map .reported).toList }
  | .particle .group children =>
    let untaken := inChoice && !(leavesAll children).any (·.isPresent inst)
    visitRow inst anchor inSequence untaken (n + 1) children
  | .particle .all children => visitAll inst (children.filterMap leaf?)
termination_by structural content => content

/--
Visit trees that stand side by side.
-/
def visitRow (inst : Instance) (anchor : Anchor) (inSequence inChoice : Bool) (n : Nat) :
    List Content → Visit
  | [] => {}
  | content :: rest =>
    visit inst anchor inSequence inChoice n content
      ++ visitRow inst anchor inSequence inChoice (n + content.size) rest
termination_by structural contents => contents

/--
Visit the branches of the choice `id`.
-/
def visitBranches (inst : Instance) (anchor : Anchor) (id : ParticleId) (n : Nat) :
    List Content → Branches
  | [] => {}
  | branch :: rest =>
    .cons id branch (visit inst anchor false true n branch)
      (visitBranches inst anchor id (n + branch.size) rest)
termination_by structural contents => contents

end

/--
Visit trees at the top level, one after the other; order failures are reported after the tree they
come from.
-/
def visitRoots (inst : Instance) (anchor : Anchor) (n : Nat) : List Content → List Event
  | [] => []
  | content :: rest =>
    let v := visit inst anchor false false n content
    v.events ++ v.pending.map .reported ++ visitRoots inst anchor (n + content.size) rest

end Content

/--
The failure of a collection with too few or too many items. The presence of scalars is left to the
particles around them.
-/
def Attribute.countFailure? (a : Attribute) (inst : Instance) : Option Failure :=
  let count := inst.occurrences a.name
  if a.isCollection && !a.occurs.contains count then
    some (.collectionCountOutOfRange a.name count a.occurs)
  else
    none

/--
Validate an instance against content trees: first the item counts of all collections, then the
trees.
-/
def validationEvents (content : List Content) (inst : Instance) (anchor : Anchor) : List Event :=
  ((Content.leavesAll content).filterMap (·.countFailure? inst)).map .reported
    ++ Content.visitRoots inst anchor 0 content

end ContentModel
