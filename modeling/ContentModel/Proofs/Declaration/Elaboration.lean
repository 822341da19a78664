import ContentModel.Declaration
import ContentModel.Proofs.Nesting

/-!
This module contains what a declared block asks for, read off the block alone, and the proof that the
elaboration of a block reports no error exactly when the block and everything in it keeps the rules.
The tree is then the one that the block asks for.
-/

namespace ContentModel

namespace Problem

def NoError (problems : List Problem) : Prop := ∀ problem ∈ problems, problem.isError = false

@[simp]
theorem noError_nil : NoError [] := by
  simp [NoError]

@[simp]
theorem noError_cons (problem : Problem) (rest : List Problem) :
    NoError (problem :: rest) ↔ problem.isError = false ∧ NoError rest := by
  simp [NoError]

@[simp]
theorem noError_append (xs ys : List Problem) : NoError (xs ++ ys) ↔ NoError xs ∧ NoError ys := by
  simp [NoError, or_imp, forall_and]

end Problem

namespace BlockKind

/--
The kind of particle that a declaration asks for, whether its bounds make sense or not.
-/
def particleKind : BlockKind → ParticleKind
  | .sequence => .sequence
  | .choice none => .choice .exactlyOne
  | .choice (some (min, max)) => .choice (.between min.toNat max.toNat)
  | .group => .group
  | .all => .all

def InOrder : BlockKind → Prop
  | .choice (some (min, max)) => 1 ≤ min ∧ min ≤ max
  | _ => True

theorem resolve_of_inOrder {kind : BlockKind} (h : kind.InOrder) :
    kind.resolve = .ok kind.particleKind := by
  unfold resolve
  split
  . rfl
  . rfl
  . next min max =>
    have hmin : 1 ≤ min := h.1
    have hmax : min ≤ max := h.2
    rw [if_pos (by omega), if_pos hmax]
    rfl
  . rfl
  . rfl

theorem resolve_of_not_inOrder {kind : BlockKind} (h : ¬ kind.InOrder) :
    ∃ problem, kind.resolve = .error problem ∧ problem.isError = true := by
  unfold resolve
  split
  . simp [InOrder] at h
  . simp [InOrder] at h
  . next min max =>
    simp only [InOrder, not_and] at h
    split
    . next hpos =>
      rw [if_neg (h hpos.1)]
      exact ⟨_, rfl, rfl⟩
    . exact ⟨_, rfl, rfl⟩
  . simp [InOrder] at h
  . simp [InOrder] at h

end BlockKind

namespace Block

def kind? : Block → Option ParticleKind
  | .leaf _ => none
  | .particle kind _ => some kind.particleKind

mutual

/--
The attributes declared at and below a block, refused ones included.
-/
def attributes : Block → List Attribute
  | .leaf a => [a]
  | .particle _ children => attributesAll children
termination_by structural block => block

def attributesAll : List Block → List Attribute
  | [] => []
  | block :: rest => block.attributes ++ attributesAll rest
termination_by structural blocks => blocks

end

mutual

/--
The particles declared at and below a block in pre-order, each with what stands directly in it.
-/
def particles : Block → List (BlockKind × List Block)
  | .leaf _ => []
  | .particle kind children => (kind, children) :: particlesAll children
termination_by structural block => block

def particlesAll : List Block → List (BlockKind × List Block)
  | [] => []
  | block :: rest => block.particles ++ particlesAll rest
termination_by structural blocks => blocks

end

mutual

def content : Block → Content
  | .leaf a => .leaf a
  | .particle kind children => .particle kind.particleKind (contentAll children)
termination_by structural block => block

def contentAll : List Block → List Content
  | [] => []
  | block :: rest => block.content :: contentAll rest
termination_by structural blocks => blocks

end

mutual

def Sound : Block → Prop
  | .leaf a => a.occurs.isInverted = false
  | .particle kind children =>
    kind.InOrder ∧ kind.particleKind.Holds (children.map kind?) ∧ SoundAll children
termination_by structural block => block

def SoundAll : List Block → Prop
  | [] => True
  | block :: rest => block.Sound ∧ SoundAll rest
termination_by structural blocks => blocks

end

theorem kind?_content (block : Block) : block.content.kind? = block.kind? := by
  cases block <;> rfl

theorem map_kind?_contentAll (blocks : List Block) :
    (contentAll blocks).map Content.kind? = blocks.map kind? := by
  induction blocks with
  | nil => rfl
  | cons block rest ih => rw [contentAll, List.map_cons, List.map_cons, kind?_content, ih]

mutual

theorem leaves_content (block : Block) : block.content.leaves = block.attributes := by
  cases block with
  | leaf a => rfl
  | particle kind children => exact leavesAll_contentAll children

theorem leavesAll_contentAll (blocks : List Block) :
    Content.leavesAll (contentAll blocks) = attributesAll blocks := by
  cases blocks with
  | nil => rfl
  | cons block rest =>
    rw [contentAll, Content.leavesAll_cons, attributesAll]
    rw [leaves_content block, leavesAll_contentAll rest]

end

theorem contentAll_append (xs ys : List Block) :
    contentAll (xs ++ ys) = contentAll xs ++ contentAll ys := by
  induction xs with
  | nil => rfl
  | cons block rest ih => rw [List.cons_append, contentAll, contentAll, ih, List.cons_append]

theorem soundAll_append (xs ys : List Block) :
    SoundAll (xs ++ ys) ↔ SoundAll xs ∧ SoundAll ys := by
  induction xs with
  | nil => simp [SoundAll]
  | cons block rest ih => rw [List.cons_append, SoundAll, SoundAll, ih, and_assoc]

theorem attributesAll_eq_flatMap (blocks : List Block) :
    attributesAll blocks = blocks.flatMap attributes := by
  induction blocks with
  | nil => rfl
  | cons block rest ih => rw [attributesAll, List.flatMap_cons, ih]

theorem attributesAll_append (xs ys : List Block) :
    attributesAll (xs ++ ys) = attributesAll xs ++ attributesAll ys := by
  rw [attributesAll_eq_flatMap, attributesAll_eq_flatMap, attributesAll_eq_flatMap]
  apply List.flatMap_append

theorem particlesAll_eq_flatMap (blocks : List Block) :
    particlesAll blocks = blocks.flatMap particles := by
  induction blocks with
  | nil => rfl
  | cons block rest ih => rw [particlesAll, List.flatMap_cons, ih]

mutual

theorem sound_iff (block : Block) :
    block.Sound
      ↔ (∀ a ∈ block.attributes, a.occurs.isInverted = false)
        ∧ ∀ kind children, (kind, children) ∈ block.particles →
            kind.InOrder ∧ kind.particleKind.Holds (children.map kind?) := by
  cases block with
  | leaf a => simp [Sound, attributes, particles]
  | particle kind children =>
    rw [Sound, soundAll_iff children, attributes, particles]
    simp only [List.mem_cons, Prod.mk.injEq]
    constructor
    . intro h
      refine ⟨h.2.2.1, ?_⟩
      intro kind' children' hmem
      rcases hmem with ⟨rfl, rfl⟩ | hmem
      . exact ⟨h.1, h.2.1⟩
      . exact h.2.2.2 kind' children' hmem
    . intro h
      have hself := h.2 kind children (.inl ⟨rfl, rfl⟩)
      refine ⟨hself.1, hself.2, h.1, ?_⟩
      intro kind' children' hmem
      exact h.2 kind' children' (.inr hmem)

theorem soundAll_iff (blocks : List Block) :
    SoundAll blocks
      ↔ (∀ a ∈ attributesAll blocks, a.occurs.isInverted = false)
        ∧ ∀ kind children, (kind, children) ∈ particlesAll blocks →
            kind.InOrder ∧ kind.particleKind.Holds (children.map kind?) := by
  cases blocks with
  | nil => simp [SoundAll, attributesAll, particlesAll]
  | cons block rest =>
    rw [SoundAll, sound_iff block, soundAll_iff rest, attributesAll, particlesAll]
    simp only [List.mem_append, or_imp, forall_and]
    grind

end

end Block

namespace Scope

def Takes (scope : Scope) : Option ParticleKind → Prop
  | none => scope.parent ≠ some .group
  | some kind => scope.refuseParticle? kind = none

/--
Children of the given kinds may follow here, one after the other.
-/
def Admits (scope : Scope) (children : List (Option ParticleKind)) : Prop :=
  match scope.parent with
  | none => True
  | some .group =>
    none ∉ children ∧ some .group ∉ children ∧ some .all ∉ children
      ∧ children.countP (·.any ParticleKind.isChoice) + (if scope.hasChoice then 1 else 0) ≤ 1
  | some kind => kind.Holds children

def Fresh (scope : Scope) (names : List String) : Prop :=
  names.Nodup ∧ ∀ name ∈ names, name ∉ scope.names

theorem admits_nil (scope : Scope) : scope.Admits [] := by
  rcases scope with ⟨parent, hasChoice, names⟩
  cases parent with
  | none => simp [Admits]
  | some kind => cases kind <;> cases hasChoice <;> simp [Admits, ParticleKind.Holds]

theorem admits_cons (scope : Scope) (content : Content) (rest : List (Option ParticleKind)) :
    scope.Admits (content.kind? :: rest)
      ↔ scope.Takes content.kind? ∧ (scope.add content).Admits rest := by
  rcases scope with ⟨parent, hasChoice, names⟩
  simp only [Admits, Takes, add, Content.isChoice_eq]
  generalize content.kind? = child
  cases parent with
  | none => cases child <;> simp [refuseParticle?]
  | some kind =>
    cases kind with
    | group =>
      cases child with
      | none => simp
      | some kind =>
        cases kind with
        | choice range =>
          -- Only here does it matter whether the group has got its choice already.
          rw [List.countP_cons_of_pos (by rfl)]
          cases hasChoice <;> simp [refuseParticle?, ParticleKind.isChoice]
        | sequence => simp [refuseParticle?, ParticleKind.isChoice]
        | group => simp [refuseParticle?]
        | all => simp [refuseParticle?]
    | sequence | choice range | all =>
      cases child with
      | none => simp [ParticleKind.Holds]
      | some kind => cases kind <;> simp [refuseParticle?, ParticleKind.Holds]

theorem admits_enter (scope : Scope) (kind : ParticleKind) (children : List (Option ParticleKind)) :
    (scope.enter kind).Admits children ↔ kind.Holds children := by
  cases kind <;> simp [Admits, enter, ParticleKind.Holds]

theorem fresh_append (scope : Scope) (content : Content) (rest : List String) :
    scope.Fresh (content.leaves.map (·.name) ++ rest)
      ↔ scope.Fresh (content.leaves.map (·.name)) ∧ (scope.add content).Fresh rest := by
  simp only [Fresh, add, List.nodup_append, List.mem_append]
  grind

theorem refuseAttribute?_eq_none_iff (scope : Scope) (a : Attribute) :
    scope.refuseAttribute? a = none
      ↔ scope.parent ≠ some .group ∧ a.occurs.isInverted = false ∧ a.name ∉ scope.names := by
  unfold refuseAttribute?
  split
  . next h => simp [h]
  . next h =>
    split
    . next hrange => simp [hrange]
    . next hrange => simp [h, hrange]

theorem isError_of_refuseAttribute? {scope : Scope} {a : Attribute} {problem : Problem}
    (h : scope.refuseAttribute? a = some problem) : problem.isError = true := by
  unfold refuseAttribute? at h
  split at h
  . cases h
    rfl
  . split at h
    . cases h
      rfl
    . split at h
      . cases h
        rfl
      . cases h

theorem isError_of_refuseParticle? {scope : Scope} {kind : ParticleKind} {problem : Problem}
    (h : scope.refuseParticle? kind = some problem) : problem.isError = true := by
  unfold refuseParticle? at h
  split at h
  case h_3 =>
    split at h
    . cases h
      rfl
    . cases h
  all_goals
    cases h
    try rfl

end Scope

namespace Block

open Problem (NoError)

theorem elaborateAll_cons_of_some {block : Block} {scope : Scope} {content : Content}
    (h : (block.elaborate scope).1 = some content) (rest : List Block) :
    elaborateAll scope (block :: rest)
      = (content :: (elaborateAll (scope.add content) rest).1,
          (block.elaborate scope).2 ++ (elaborateAll (scope.add content) rest).2) := by
  rw [elaborateAll]
  split
  . next heq => simp [heq] at h
  . next heq =>
    simp only [heq, Option.some.injEq] at h
    simp [h, heq]

theorem elaborateAll_cons_of_none {block : Block} {scope : Scope}
    (h : (block.elaborate scope).1 = none) (rest : List Block) :
    elaborateAll scope (block :: rest)
      = ((elaborateAll scope rest).1, (block.elaborate scope).2 ++ (elaborateAll scope rest).2) := by
  rw [elaborateAll]
  split
  . next heq => simp [heq]
  . next heq => simp [heq] at h

theorem noError_of_elaborateAll_cons {block : Block} {scope : Scope} {rest : List Block}
    (h : NoError (elaborateAll scope (block :: rest)).2) : NoError (block.elaborate scope).2 := by
  cases hcontent : (block.elaborate scope).1 with
  | none =>
    rw [elaborateAll_cons_of_none hcontent, Problem.noError_append] at h
    exact h.1
  | some content =>
    rw [elaborateAll_cons_of_some hcontent, Problem.noError_append] at h
    exact h.1

mutual

theorem elaborate_of_noError (block : Block) (scope : Scope)
    (h : NoError (block.elaborate scope).2) : (block.elaborate scope).1 = some block.content := by
  cases block with
  | leaf a =>
    rw [elaborate] at h ⊢
    split at h
    . next problem heq => simp [Scope.isError_of_refuseAttribute? heq] at h
    . rfl
  | particle kind children =>
    by_cases hkind : kind.InOrder
    . rw [elaborate, BlockKind.resolve_of_inOrder hkind] at h ⊢
      dsimp only at h ⊢
      split at h
      . next problem heq => simp [Scope.isError_of_refuseParticle? heq] at h
      . rw [Problem.noError_append] at h
        rw [elaborateAll_of_noError children _ h.1]
        rfl
    . rcases BlockKind.resolve_of_not_inOrder hkind with ⟨problem, heq, herror⟩
      rw [elaborate, heq] at h
      simp [herror] at h

theorem elaborateAll_of_noError (blocks : List Block) (scope : Scope)
    (h : NoError (elaborateAll scope blocks).2) : (elaborateAll scope blocks).1 = contentAll blocks := by
  cases blocks with
  | nil => rfl
  | cons block rest =>
    have hblock := elaborate_of_noError block scope (noError_of_elaborateAll_cons h)
    rw [elaborateAll_cons_of_some hblock] at h ⊢
    rw [Problem.noError_append] at h
    rw [elaborateAll_of_noError rest _ h.2]
    rfl

end

theorem noError_elaborateAll_cons_iff (block : Block) (rest : List Block) (scope : Scope) :
    NoError (elaborateAll scope (block :: rest)).2
      ↔ NoError (block.elaborate scope).2
        ∧ NoError (elaborateAll (scope.add block.content) rest).2 := by
  constructor
  . intro h
    have hblock := noError_of_elaborateAll_cons h
    rw [elaborateAll_cons_of_some (elaborate_of_noError block scope hblock)] at h
    exact (Problem.noError_append _ _).mp h
  . intro h
    rw [elaborateAll_cons_of_some (elaborate_of_noError block scope h.1)]
    exact (Problem.noError_append _ _).mpr h

theorem noError_elaborate_leaf_iff (a : Attribute) (scope : Scope) :
    NoError ((Block.leaf a).elaborate scope).2 ↔ scope.refuseAttribute? a = none := by
  rw [elaborate]
  split
  . next problem heq => simp [Scope.isError_of_refuseAttribute? heq, heq]
  . next heq => simp [heq]

theorem noError_elaborate_particle_iff (kind : BlockKind) (children : List Block) (scope : Scope) :
    NoError ((Block.particle kind children).elaborate scope).2
      ↔ kind.InOrder ∧ scope.Takes (some kind.particleKind)
        ∧ NoError (elaborateAll (scope.enter kind.particleKind) children).2 := by
  by_cases hkind : kind.InOrder
  . rw [elaborate, BlockKind.resolve_of_inOrder hkind]
    dsimp only [Scope.Takes]
    split
    . next problem heq => simp [Scope.isError_of_refuseParticle? heq, heq]
    . next heq =>
      rw [Problem.noError_append]
      -- An empty particle is worth a warning only.
      have hempty (contents : List Content) :
          NoError (if contents.isEmpty then [.emptyParticle kind.particleKind] else []) := by
        cases contents <;> simp [Problem.isError, Problem.severity]
      simp only [hkind, heq, hempty, and_true, true_and]
  . rcases BlockKind.resolve_of_not_inOrder hkind with ⟨problem, heq, herror⟩
    rw [elaborate, heq]
    simp [herror, hkind]

mutual

theorem noError_elaborate_iff (block : Block) (scope : Scope) :
    NoError (block.elaborate scope).2
      ↔ scope.Takes block.kind? ∧ block.Sound ∧ scope.Fresh (block.attributes.map (·.name)) := by
  cases block with
  | leaf a =>
    rw [noError_elaborate_leaf_iff, Scope.refuseAttribute?_eq_none_iff]
    simp [kind?, Scope.Takes, Sound, attributes, Scope.Fresh]
  | particle kind children =>
    rw [noError_elaborate_particle_iff, noError_elaborateAll_iff children, Scope.admits_enter]
    simp only [kind?, Sound, attributes, Scope.Fresh, Scope.enter]
    grind

theorem noError_elaborateAll_iff (blocks : List Block) (scope : Scope) :
    NoError (elaborateAll scope blocks).2
      ↔ scope.Admits (blocks.map kind?) ∧ SoundAll blocks
        ∧ scope.Fresh ((attributesAll blocks).map (·.name)) := by
  cases blocks with
  | nil => simp [elaborateAll, Scope.admits_nil, SoundAll, attributesAll, Scope.Fresh]
  | cons block rest =>
    -- The scope of the other blocks has the tree of the first one, which is not refused.
    rw [noError_elaborateAll_cons_iff, noError_elaborate_iff block, noError_elaborateAll_iff rest]
    rw [List.map_cons, ← kind?_content block, Scope.admits_cons]
    rw [attributesAll, List.map_append, ← leaves_content block, Scope.fresh_append]
    simp only [SoundAll]
    grind

end

end Block

end ContentModel
