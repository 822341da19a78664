import ContentModel.Content

/-!
This module contains the table form of content trees. Particles are numbered in pre-order: a
particle takes the next number when it opens, before its children. A row of the table names the
children of a particle and the particle around it.
-/

namespace ContentModel

/--
The place of a particle in the listing of its model.
-/
structure ParticleId where
  index : Nat
deriving DecidableEq, Repr

def ParticleId.text (id : ParticleId) : String := s!"#{id.index}"

/--
A child in the listing: an attribute by its name or a particle by its number.
-/
inductive Node where
  | leaf (name : String)
  | particle (id : ParticleId)
deriving DecidableEq, Repr

def Node.particle? : Node → Option ParticleId
  | .leaf _ => none
  | .particle id => some id

/--
A row of the listing.
-/
structure Particle where
  id : ParticleId
  kind : ParticleKind
  children : List Node
  parent : Option ParticleId
deriving DecidableEq, Repr

/--
An attribute with the particle it was declared in, none for one outside of all particles.
-/
structure Placement where
  declared : Attribute
  parent : Option ParticleId
deriving DecidableEq, Repr

namespace Content

/--
The children of a row of trees whose first particle has the number `n`.
-/
def nodes (n : Nat) : List Content → List Node
  | [] => []
  | .leaf a :: rest => .leaf a.name :: nodes n rest
  | .particle kind children :: rest =>
    .particle ⟨n⟩ :: nodes (n + (Content.particle kind children).size) rest

mutual

/--
The rows of a tree whose root has the number `n` and stands in `parent`.
-/
def listing (parent : Option ParticleId) (n : Nat) : Content → List Particle
  | .leaf _ => []
  | .particle kind children =>
    ⟨⟨n⟩, kind, nodes (n + 1) children, parent⟩ :: listingAll (some ⟨n⟩) (n + 1) children
termination_by structural content => content

/--
The rows of a row of trees that stand in `parent`, numbered from `n`.
-/
def listingAll (parent : Option ParticleId) (n : Nat) : List Content → List Particle
  | [] => []
  | content :: rest => content.listing parent n ++ listingAll parent (n + content.size) rest
termination_by structural contents => contents

end

mutual

/--
The attributes of a tree, each with the particle around it.
-/
def placements (parent : Option ParticleId) (n : Nat) : Content → List Placement
  | .leaf a => [⟨a, parent⟩]
  | .particle _ children => placementsAll (some ⟨n⟩) (n + 1) children
termination_by structural content => content

def placementsAll (parent : Option ParticleId) (n : Nat) : List Content → List Placement
  | [] => []
  | content :: rest => content.placements parent n ++ placementsAll parent (n + content.size) rest
termination_by structural contents => contents

end

mutual

theorem length_listing (content : Content) (parent : Option ParticleId) (n : Nat) :
    (content.listing parent n).length = content.size := by
  cases content with
  | leaf a => rfl
  | particle kind children =>
    simp [listing, size, length_listingAll children (some ⟨n⟩) (n + 1)]

theorem length_listingAll (contents : List Content) (parent : Option ParticleId) (n : Nat) :
    (listingAll parent n contents).length = sizeAll contents := by
  cases contents with
  | nil => rfl
  | cons content rest =>
    simp [listingAll, length_listing content parent n,
      length_listingAll rest parent (n + content.size)]

end

mutual

theorem map_declared_placements (content : Content) (parent : Option ParticleId) (n : Nat) :
    (content.placements parent n).map (·.declared) = content.leaves := by
  cases content with
  | leaf a => rfl
  | particle kind children =>
    simp [placements, leaves, map_declared_placementsAll children (some ⟨n⟩) (n + 1)]

theorem map_declared_placementsAll (contents : List Content) (parent : Option ParticleId) (n : Nat) :
    (placementsAll parent n contents).map (·.declared) = leavesAll contents := by
  cases contents with
  | nil => rfl
  | cons content rest =>
    simp [placementsAll, map_declared_placements content parent n,
      map_declared_placementsAll rest parent (n + content.size)]

end

end Content

end ContentModel
