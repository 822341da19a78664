import ContentModel.Attribute

/-!
This module contains content trees: particles (sequences, choices, groups and alls) over attributes.
A tree carries no numbers and no links; `Content.Listing` derives the numbered table from it.
-/

namespace ContentModel

/--
How many matches a choice takes: exactly one, or a number between declared bounds.
-/
inductive ChoiceRange where
  | exactlyOne
  | between (min max : Nat)
deriving DecidableEq, Repr

namespace ChoiceRange

def min : ChoiceRange → Nat
  | .exactlyOne => 1
  | .between min _ => min

def max : ChoiceRange → Nat
  | .exactlyOne => 1
  | .between _ max => max

/--
The bounds were declared.
-/
def isExplicit : ChoiceRange → Bool
  | .exactlyOne => false
  | .between .. => true

def contains (range : ChoiceRange) (count : Nat) : Bool :=
  range.min ≤ count && count ≤ range.max

theorem contains_iff {range : ChoiceRange} {count : Nat} :
    range.contains count = true ↔ range.min ≤ count ∧ count ≤ range.max := by
  simp [contains]

end ChoiceRange

inductive ParticleKind where
  | sequence
  | choice (range : ChoiceRange)
  | group
  | all
deriving DecidableEq, Repr

namespace ParticleKind

def keyword : ParticleKind → String
  | .sequence => "sequence"
  | .choice _ => "choice"
  | .group => "group"
  | .all => "all"

/--
The keyword, for a choice with its bounds when they were declared.
-/
def text : ParticleKind → String
  | .choice (.between min max) => s!"choice({min}..={max})"
  | kind => kind.keyword

def isChoice : ParticleKind → Bool
  | .choice _ => true
  | _ => false

end ParticleKind

/--
A content tree.
-/
inductive Content where
  | leaf (a : Attribute)
  | particle (kind : ParticleKind) (children : List Content)

namespace Content

/--
The tree is a choice.
-/
def isChoice : Content → Bool
  | .leaf _ => false
  | .particle kind _ => kind.isChoice

mutual

/--
The attributes at and below a tree, in declaration order.
-/
def leaves : Content → List Attribute
  | .leaf a => [a]
  | .particle _ children => leavesAll children
termination_by structural content => content

/--
The attributes of a row of trees.
-/
def leavesAll : List Content → List Attribute
  | [] => []
  | content :: rest => content.leaves ++ leavesAll rest
termination_by structural contents => contents

end

mutual

/--
The number of particles in a tree, which is how many numbers a listing gives to it.
-/
def size : Content → Nat
  | .leaf _ => 0
  | .particle _ children => sizeAll children + 1
termination_by structural content => content

def sizeAll : List Content → Nat
  | [] => 0
  | content :: rest => content.size + sizeAll rest
termination_by structural contents => contents

end

/--
Some leaf at or below the tree is present.
-/
def isTaken (inst : Instance) (content : Content) : Bool :=
  content.leaves.any (·.isPresent inst)

@[simp]
theorem leavesAll_nil : leavesAll [] = [] := rfl

@[simp]
theorem leavesAll_cons (content : Content) (rest : List Content) :
    leavesAll (content :: rest) = content.leaves ++ leavesAll rest := rfl

theorem leavesAll_eq_flatMap (contents : List Content) :
    leavesAll contents = contents.flatMap leaves := by
  induction contents with
  | nil => rfl
  | cons content rest ih => simp [ih]

theorem leaves_sublist_leavesAll {contents : List Content} {content : Content}
    (h : content ∈ contents) : content.leaves.Sublist (leavesAll contents) := by
  rw [leavesAll_eq_flatMap]
  apply List.sublist_flatten_of_mem
  apply List.mem_map_of_mem h

theorem leavesAll_append (xs ys : List Content) :
    leavesAll (xs ++ ys) = leavesAll xs ++ leavesAll ys := by
  simp [leavesAll_eq_flatMap]

@[simp]
theorem sizeAll_nil : sizeAll [] = 0 := rfl

@[simp]
theorem sizeAll_cons (content : Content) (rest : List Content) :
    sizeAll (content :: rest) = content.size + sizeAll rest := rfl

end Content

end ContentModel
