import ContentModel.Content

/-!
This module contains the rules about what may stand directly in what, as predicates over the kinds of
the children of a particle, and content trees that keep them at every depth.
-/

namespace ContentModel

namespace ParticleKind

/--
A particle of this kind may hold children of the given kinds, where `none` stands for an attribute.
-/
def Holds : ParticleKind → List (Option ParticleKind) → Prop
  | .group, children =>
    none ∉ children ∧ some .group ∉ children ∧ some .all ∉ children
      ∧ children.countP (·.any ParticleKind.isChoice) ≤ 1
  | .all, children => ∀ child ∈ children, child = none
  | _, children => some .all ∉ children

end ParticleKind

namespace Content

def kind? : Content → Option ParticleKind
  | .leaf _ => none
  | .particle kind _ => some kind

theorem isChoice_eq (content : Content) :
    content.isChoice = content.kind?.any ParticleKind.isChoice := by
  cases content <;> rfl

mutual

/--
Every particle at and below the tree holds only what its kind may hold.
-/
def WellNested : Content → Prop
  | .leaf _ => True
  | .particle kind children => kind.Holds (children.map kind?) ∧ WellNestedAll children
termination_by structural content => content

def WellNestedAll : List Content → Prop
  | [] => True
  | content :: rest => content.WellNested ∧ WellNestedAll rest
termination_by structural contents => contents

end

theorem wellNestedAll_iff {contents : List Content} :
    WellNestedAll contents ↔ ∀ content ∈ contents, content.WellNested := by
  induction contents with
  | nil => simp [WellNestedAll]
  | cons content rest ih => rw [WellNestedAll, ih, List.forall_mem_cons]

end Content

end ContentModel
