import ContentModel.Declaration.Problem

/-!
This module contains declared blocks, the content of a model as it is written down, and the step
from blocks to content trees. A block that breaks a rule is left out together with everything in it
and leaves one problem behind.
-/

namespace ContentModel

/--
The kinds of particles as they are declared: a choice may come with bounds, which need not make
sense.
-/
inductive BlockKind where
  | sequence
  | choice (bounds : Option (Int × Int))
  | group
  | all
deriving DecidableEq, Repr

/--
A declared piece of content.
-/
inductive Block where
  | leaf (a : Attribute)
  | particle (kind : BlockKind) (children : List Block)

namespace BlockKind

/--
The kind of particle that a declaration asks for. The bounds of a choice are positive and in order.
-/
def resolve : BlockKind → Except Problem ParticleKind
  | .sequence => .ok .sequence
  | .choice none => .ok (.choice .exactlyOne)
  | .choice (some (min, max)) =>
    if 1 ≤ min ∧ 1 ≤ max then
      if min ≤ max then
        .ok (.choice (.between min.toNat max.toNat))
      else
        .error (.choiceBoundsInverted min max)
    else
      .error .choiceBoundNotPositive
  | .group => .ok .group
  | .all => .ok .all

end BlockKind

/--
The surroundings of a block: the kind of the particle it stands in, whether that particle has got a
choice already, and the names of all attributes declared so far.
-/
structure Scope where
  parent : Option ParticleKind
  hasChoice : Bool
  names : List String

namespace Scope

/--
The scope at the start of a model.
-/
def top : Scope := ⟨none, false, []⟩

/--
The scope at the start of a particle.
-/
def enter (scope : Scope) (kind : ParticleKind) : Scope := ⟨some kind, false, scope.names⟩

/--
The scope after a tree was added.
-/
def add (scope : Scope) (content : Content) : Scope :=
  { scope with
    hasChoice := scope.hasChoice || content.isChoice
    names := scope.names ++ content.leaves.map (·.name) }

/--
Why an attribute cannot be declared here: groups hold none directly, its range is inverted, or its
name is taken.
-/
def refuseAttribute? (scope : Scope) (a : Attribute) : Option Problem :=
  if scope.parent = some .group then
    some .attributeInGroup
  else if a.occurs.isInverted then
    some (.invertedOccurs a.name a.occurs)
  else if a.name ∈ scope.names then
    some (.duplicateAttribute a.name)
  else
    none

/--
Why a particle cannot be declared here. A group holds sequences and one choice, an all holds no
particles, and an all stands in no other particle.
-/
def refuseParticle? (scope : Scope) (kind : ParticleKind) : Option Problem :=
  match scope.parent, kind with
  | some .group, .group => some .groupInGroup
  | some .group, .all => some .allInGroup
  | some .group, .choice _ => if scope.hasChoice then some .secondChoiceInGroup else none
  | some .all, .group => some .groupInAll
  | some .all, .all => some .allInAll
  | some .all, .choice _ => some .choiceInAll
  | some .all, .sequence => some .sequenceInAll
  | some .sequence, .all => some .allInSequence
  | some (.choice _), .all => some .allInChoice
  | _, _ => none

end Scope

namespace Block

mutual

/--
The tree of a block, none when it was refused, and the problems met on the way. That a particle has
no children is found out when it ends.
-/
def elaborate (scope : Scope) : Block → Option Content × List Problem
  | .leaf a =>
    match scope.refuseAttribute? a with
    | some problem => (none, [problem])
    | none => (some (.leaf a), [])
  | .particle kind children =>
    match kind.resolve with
    | .error problem => (none, [problem])
    | .ok kind =>
      match scope.refuseParticle? kind with
      | some problem => (none, [problem])
      | none =>
        let (contents, problems) := elaborateAll (scope.enter kind) children
        (some (.particle kind contents),
          problems ++ if contents.isEmpty then [.emptyParticle kind] else [])
termination_by structural block => block

/--
The trees of the blocks that were not refused, and the problems of all blocks.
-/
def elaborateAll (scope : Scope) : List Block → List Content × List Problem
  | [] => ([], [])
  | block :: rest =>
    match elaborate scope block with
    | (none, problems) =>
      let (contents, others) := elaborateAll scope rest
      (contents, problems ++ others)
    | (some content, problems) =>
      let (contents, others) := elaborateAll (scope.add content) rest
      (content :: contents, problems ++ others)
termination_by structural blocks => blocks

end

end Block

end ContentModel
