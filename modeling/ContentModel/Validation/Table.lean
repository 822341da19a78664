import ContentModel.Model

/-!
This module contains the walk over the tables of a model. It follows the numbers and the names that
the rows hold, with no tree to tell it where it ends, so it is told how many calls may stand inside each
other. It keeps account of the steps it takes: what it enters, what it looks up, and what it passes over.
-/

namespace ContentModel

namespace Table

inductive Step where
  /-- The visit of a particle starts, called for by the visit of `caller`. `ordered` says that the
  order of a sequence around it goes along. -/
  | enters (caller : Option ParticleId) (id : ParticleId) (ordered : Bool)
  /-- It is asked whether a particle is taken, to answer the same question for `caller`. -/
  | asks (caller : Option ParticleId) (id : ParticleId)
  /-- An attribute or the kind of a particle is looked up. -/
  | seeks (node : Node)
  /-- An all passes over a particle among its children. -/
  | skips (id : ParticleId)
deriving DecidableEq

namespace Step

/--
The node that is looked at.
-/
def node : Step → Node
  | .enters _ id _ | .asks _ id | .skips id => .particle id
  | .seeks node => node

/--
The particle that the recursion comes from.
-/
def caller? : Step → Option ParticleId
  | .enters caller _ _ | .asks caller _ => caller
  | _ => none

def entered? : Step → Option ParticleId
  | .enters _ id _ => some id
  | _ => none

end Step

/--
What a walk has told and done so far.
-/
structure Progress where
  events : List Event := []
  steps : List Step := []

def Progress.add (progress : Progress) (events : List Event) (steps : List Step) : Progress :=
  ⟨progress.events ++ events, progress.steps ++ steps⟩

/--
A computation along the table. There is no result when more calls than allowed stand inside each other.
-/
abbrev Walk := StateT Progress Option

/--
The lists that a visit is handed and adds to: the leaves that are present and, in a sequence, its
declared order.
-/
structure Ledger where
  tally : List Attribute := []
  order : Option (List Attribute) := none

def Ledger.add (ledger : Ledger) (present placed : List Attribute) : Ledger :=
  ⟨ledger.tally ++ present, ledger.order.map (· ++ placed)⟩

namespace Walk

def tell (events : List Event) : Walk Unit := modify fun progress => progress.add events []

def note (step : Step) : Walk Unit := modify fun progress => progress.add [] [step]

end Walk

open Walk

variable (model : Model) (inst : Instance) (anchor : Anchor)

def attribute? (name : String) : Walk (Option Attribute) := do
  note (.seeks (.leaf name))
  return model.attribute? name

/--
The number is that of a choice.
-/
def isChoice (id : ParticleId) : Walk Bool := do
  note (.seeks (.particle id))
  return (model.particle? id).any (·.kind.isChoice)

/--
Some leaf at or below the node is present.
-/
def isTaken : Nat → Option ParticleId → Node → Walk Bool
  | _, _, .leaf name => do
    let a ← attribute? model name
    return a.any (·.isPresent inst)
  | 0, _, .particle _ => failure
  | depth + 1, caller, .particle id => do
    note (.asks caller id)
    match model.particle? id with
    | none => return false
    | some row => row.children.anyM (isTaken depth (some row.id))

/--
The particle stands below a choice and nothing is present in it, so that it is part of a branch that
was not taken.
-/
def isUntaken (depth : Nat) (inChoice : Bool) (id : ParticleId) : Walk Bool :=
  if inChoice then do return !(← isTaken model inst depth none (.particle id)) else return false

/--
What is known of a declared child, looked up by its name. A name that is not found is that of a scalar
that may not be left out.
-/
def known (declared : Attribute) : Walk Attribute := do
  return (← attribute? model declared.name).getD { name := declared.name, type := .string }

/--
What is told of an order check that was passed over.
-/
def passedOver : OrderVerdict → List Event
  | .unanchored expected => [.unanchored expected]
  | _ => []

/--
Settle the order check of a sequence.
-/
def settle (declared : List Attribute) : Walk (List Failure) := do
  let declared ← declared.mapM (known model)
  let verdict := checkOrder anchor inst.order declared
  tell (passedOver verdict)
  return verdict.failure?.toList

/--
The leaves among the children of an all.
-/
def leaves : List Node → Walk (List Attribute)
  | [] => return []
  | .leaf name :: rest => do
    let a ← attribute? model name
    return a.toList ++ (← leaves rest)
  | .particle id :: rest => do
    note (.skips id)
    leaves rest

/--
The number of matches of a branch that has `added` present leaves.
-/
def weight (branch : Node) (added : Nat) : Walk Nat :=
  match branch with
  | .leaf _ => return added
  | .particle id => do
    return if ← isChoice model id then added else if added = 0 then 0 else 1

/--
Visit the children of a sequence or group, one after the other.
-/
def visitRow (visit : Ledger → Node → Walk (Ledger × List Failure)) (ledger : Ledger) :
    List Node → Walk (Ledger × List Failure)
  | [] => return (ledger, [])
  | child :: rest => do
    let (ledger, failures) ← visit ledger child
    let (ledger, others) ← visitRow visit ledger rest
    return (ledger, failures ++ others)

/--
Visit the branches of the choice `id`, with what was found in the branches before them.
-/
def visitBranches (visit : Ledger → Node → Walk (Ledger × List Failure)) (id : ParticleId)
    (found : Branches) : List Node → Walk Branches
  | [] => return found
  | branch :: rest => do
    let (ledger, failures) ← visit ⟨found.matched, none⟩ branch
    tell (if failures.isEmpty then [] else [.branchFailed id failures.length])
    let gained ← weight model branch (ledger.tally.length - found.matched.length)
    let found := { found with
      matched := ledger.tally
      count := found.count + gained
      spoiled := found.spoiled || !failures.isEmpty }
    visitBranches visit id found rest

/--
Visit a node. The order failures that nobody has recorded yet are left to the caller.
-/
def visit : Nat → Option ParticleId → Bool → Ledger → Node → Walk (Ledger × List Failure)
  | _, _, _, ledger, .leaf name => do
    match ← attribute? model name with
    | none => return (ledger, [])
    | some a => return (ledger.add (if a.isPresent inst then [a] else []) [a], [])
  | 0, _, _, _, .particle _ => failure
  | depth + 1, caller, inChoice, ledger, .particle id => do
    note (.enters caller id ledger.order.isSome)
    match model.particle? id with
    | none => return (ledger, [])
    | some row =>
      match row.kind with
      | .sequence =>
        let untaken ← isUntaken model inst (depth + 1) inChoice row.id
        match ledger.order with
        | some _ => visitRow (visit depth (some row.id) untaken) ledger row.children
        | none =>
          let (inner, failures) ←
            visitRow (visit depth (some row.id) untaken) ⟨ledger.tally, some []⟩ row.children
          let others ← settle model inst anchor (inner.order.getD [])
          return (⟨inner.tally, none⟩, failures ++ others)
      | .choice range =>
        let branches ←
          visitBranches model (visit depth (some row.id) true) row.id {} row.children
        tell ((branches.failure? range inChoice).map .reported).toList
        return (ledger.add branches.matched branches.matched, [])
      | .group =>
        let untaken ← isUntaken model inst (depth + 1) inChoice row.id
        visitRow (visit depth (some row.id) untaken) ledger row.children
      | .all =>
        let v := visitAll inst (← leaves model row.children)
        tell v.events
        return (⟨ledger.tally ++ v.present, ledger.order⟩, [])

/--
Validate an instance: first the item counts of all collections, then root by root.
-/
def validate (depth : Nat) : Walk Unit := do
  tell ((model.attributes.filterMap (·.countFailure? inst)).map .reported)
  model.roots.forM fun root => do
    let (_, failures) ← visit model inst anchor depth none false {} (.particle root)
    tell (failures.map .reported)

end Table

end ContentModel
