import ContentModel.Declaration

/-!
This module contains the tables that a declaration fills while its blocks run: the particles, which
refer to each other by number, the roots and the attributes. The row of a particle is reserved before
its children are declared and gets their list after it, and by then the rows of the particles in it
stand behind its own.
-/

namespace ContentModel

/--
The tables of a model that is being declared, and the problems of its blocks so far.
-/
structure Arena where
  particles : List Particle := []
  roots : List ParticleId := []
  attributes : List Placement := []
  problems : List Problem := []

/--
A particle that is being filled: the children that it has got so far, and how many of them are choices.
-/
structure Filling where
  id : ParticleId
  kind : ParticleKind
  children : List Node := []
  choices : Nat := 0

namespace Arena

def emit (arena : Arena) (problem : Problem) : Arena :=
  { arena with problems := arena.problems ++ [problem] }

/--
The names that are taken.
-/
def names (arena : Arena) : List String := arena.attributes.map (·.declared.name)

def particle? (arena : Arena) (id : ParticleId) : Option Particle := arena.particles[id.index]?

/--
Record an attribute, unless its range is inverted or its name is taken.
-/
def declare (arena : Arena) (placement : Placement) : Bool × Arena :=
  let a := placement.declared
  if a.occurs.isInverted then
    (false, arena.emit (.invertedOccurs a.name a.occurs))
  else if a.name ∈ arena.names then
    (false, arena.emit (.duplicateAttribute a.name))
  else
    (true, { arena with attributes := arena.attributes ++ [placement] })

/--
Reserve the row of a particle. Its number is the place of the row.
-/
def reserve (arena : Arena) (kind : ParticleKind) (parent : Option ParticleId) : ParticleId × Arena :=
  let id := ⟨arena.particles.length⟩
  (id, { arena with particles := arena.particles ++ [⟨id, kind, [], parent⟩] })

/--
Write the children into the reserved row. There should be some.
-/
def close (arena : Arena) (id : ParticleId) (children : List Node) : Arena :=
  match arena.particle? id with
  | none => arena
  | some row =>
    if children.isEmpty then
      arena.emit (.emptyParticle row.kind)
    else
      { arena with particles := arena.particles.set id.index { row with children := children } }

/--
Declare a particle and run `fill` to fill it.
-/
def particle (arena : Arena) (kind : ParticleKind) (parent : Option ParticleId)
    (fill : Filling → Arena → Filling × Arena) : ParticleId × Arena :=
  let (id, arena) := arena.reserve kind parent
  let (filling, arena) := fill { id := id, kind := kind } arena
  (id, arena.close id filling.children)

end Arena

namespace Filling

/--
What the rules of nesting look at.
-/
def scope (filling : Filling) (arena : Arena) : Scope :=
  ⟨some filling.kind, 0 < filling.choices, arena.names⟩

/--
Declare an attribute in the particle.
-/
def leaf (filling : Filling) (arena : Arena) (a : Attribute) : Filling × Arena :=
  if filling.kind = .group then
    (filling, arena.emit .attributeInGroup)
  else
    let (recorded, arena) := arena.declare ⟨a, some filling.id⟩
    if recorded then
      ({ filling with children := filling.children ++ [.leaf a.name] }, arena)
    else
      (filling, arena)

/--
Declare a particle in the particle. A choice counts from when it is admitted.
-/
def nested (filling : Filling) (arena : Arena) (kind : ParticleKind)
    (fill : Filling → Arena → Filling × Arena) : Filling × Arena :=
  match (filling.scope arena).refuseParticle? kind with
  | some problem => (filling, arena.emit problem)
  | none =>
    let choices := filling.choices + if kind.isChoice then 1 else 0
    let (id, arena) := arena.particle kind (some filling.id) fill
    ({ filling with children := filling.children ++ [.particle id], choices := choices }, arena)

end Filling

namespace Block

mutual

/--
Declare a block in the particle around it.
-/
def fill (filling : Filling) (arena : Arena) : Block → Filling × Arena
  | .leaf a => filling.leaf arena a
  | .particle kind children =>
    match kind.resolve with
    | .error problem => (filling, arena.emit problem)
    | .ok kind => filling.nested arena kind fun filling arena => fillAll filling arena children
termination_by structural block => block

def fillAll (filling : Filling) (arena : Arena) : List Block → Filling × Arena
  | [] => (filling, arena)
  | block :: rest =>
    let (filling, arena) := fill filling arena block
    fillAll filling arena rest
termination_by structural blocks => blocks

end

end Block

namespace Arena

/--
Declare a block at the top level. No rule of nesting applies there.
-/
def take (arena : Arena) : Block → Arena
  | .leaf a => (arena.declare ⟨a, none⟩).2
  | .particle kind children =>
    match kind.resolve with
    | .error problem => arena.emit problem
    | .ok kind =>
      let (id, arena) := arena.particle kind none fun filling arena =>
        Block.fillAll filling arena children
      { arena with roots := arena.roots ++ [id] }

/--
Take one item of a declaration. Only blocks touch the tables.
-/
def add (arena : Arena) : Item → Arena
  | .block block => arena.take block
  | .mapping .. | .rootName _ | .noRoot => arena

end Arena

/--
The tables after all items.
-/
def Declaration.arena (declaration : Declaration) : Arena := declaration.items.foldl Arena.add {}

end ContentModel
