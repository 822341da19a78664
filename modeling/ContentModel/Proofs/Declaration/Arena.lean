import ContentModel.Declaration.Arena
import ContentModel.Proofs.Declaration.Acceptance
import ContentModel.Proofs.Listing

/-!
This module contains what the tables hold after a run over the blocks. A row is reserved at the number
that the listing gives to the particle, and every table grows by what the listing of the new content has
for it.
-/

namespace ContentModel

namespace Content

theorem nodes_append (xs ys : List Content) (n : Nat) :
    nodes n (xs ++ ys) = nodes n xs ++ nodes (n + sizeAll xs) ys := by
  induction xs generalizing n with
  | nil => rfl
  | cons content rest ih =>
    rw [List.cons_append, nodes_cons, ih, nodes_cons content rest, sizeAll_cons, List.append_assoc,
      Nat.add_assoc]

theorem listingAll_append (xs ys : List Content) (parent : Option ParticleId) (n : Nat) :
    listingAll parent n (xs ++ ys)
      = listingAll parent n xs ++ listingAll parent (n + sizeAll xs) ys := by
  induction xs generalizing n with
  | nil => rfl
  | cons content rest ih =>
    rw [List.cons_append, listingAll, ih, listingAll, sizeAll_cons, List.append_assoc, Nat.add_assoc]

theorem placementsAll_append (xs ys : List Content) (parent : Option ParticleId) (n : Nat) :
    placementsAll parent n (xs ++ ys)
      = placementsAll parent n xs ++ placementsAll parent (n + sizeAll xs) ys := by
  induction xs generalizing n with
  | nil => rfl
  | cons content rest ih =>
    rw [List.cons_append, placementsAll, ih, placementsAll, sizeAll_cons, List.append_assoc,
      Nat.add_assoc]

theorem nodes_eq_nil_iff {contents : List Content} {n : Nat} :
    nodes n contents = [] ↔ contents = [] := by
  cases contents with
  | nil => simp [nodes]
  | cons content rest => cases content <;> simp [nodes]

end Content

namespace Arena

variable {arena : Arena} {parent : Option ParticleId} {contents : List Content}
  {problems : List Problem}

/--
The tables after content was added in `parent`.
-/
def grow (arena : Arena) (parent : Option ParticleId) (contents : List Content)
    (problems : List Problem) : Arena :=
  { arena with
    particles := arena.particles ++ Content.listingAll parent arena.particles.length contents
    attributes := arena.attributes ++ Content.placementsAll parent arena.particles.length contents
    problems := arena.problems ++ problems }

theorem grow_nil (arena : Arena) (parent : Option ParticleId) : arena.grow parent [] [] = arena := by
  simp [grow, Content.listingAll, Content.placementsAll]

theorem emit_eq_grow (arena : Arena) (parent : Option ParticleId) (problem : Problem) :
    arena.emit problem = arena.grow parent [] [problem] := by
  simp [emit, grow, Content.listingAll, Content.placementsAll]

theorem length_particles_grow (arena : Arena) (parent : Option ParticleId) (contents : List Content)
    (problems : List Problem) :
    (arena.grow parent contents problems).particles.length
      = arena.particles.length + Content.sizeAll contents := by
  simp [grow, Content.length_listingAll]

theorem names_grow (arena : Arena) (parent : Option ParticleId) (contents : List Content)
    (problems : List Problem) :
    (arena.grow parent contents problems).names
      = arena.names ++ (Content.leavesAll contents).map (·.name) := by
  unfold names grow
  rw [List.map_append, ← Content.map_declared_placementsAll contents parent arena.particles.length,
    List.map_map]
  rfl

theorem grow_grow (arena : Arena) (parent : Option ParticleId) (contents others : List Content)
    (problems more : List Problem) :
    (arena.grow parent contents problems).grow parent others more
      = arena.grow parent (contents ++ others) (problems ++ more) := by
  simp only [grow, Content.listingAll_append, Content.placementsAll_append, List.length_append,
    Content.length_listingAll, List.append_assoc]

variable {scope : Scope} {a : Attribute}

theorem declare_of_some {problem : Problem} (hparent : scope.parent ≠ some .group)
    (hnames : scope.names = arena.names) (h : scope.refuseAttribute? a = some problem) :
    arena.declare ⟨a, parent⟩ = (false, arena.emit problem) := by
  unfold Scope.refuseAttribute? at h
  rw [if_neg hparent, hnames] at h
  unfold declare
  dsimp only
  split
  . next hinverted =>
    rw [if_pos hinverted] at h
    rw [← Option.some.inj h]
  . next hinverted =>
    rw [if_neg hinverted] at h
    split
    . next hmem =>
      rw [if_pos hmem] at h
      rw [← Option.some.inj h]
    . next hmem =>
      rw [if_neg hmem] at h
      cases h

theorem declare_of_none (hparent : scope.parent ≠ some .group) (hnames : scope.names = arena.names)
    (h : scope.refuseAttribute? a = none) :
    arena.declare ⟨a, parent⟩ = (true, arena.grow parent [.leaf a] []) := by
  unfold Scope.refuseAttribute? at h
  rw [if_neg hparent, hnames] at h
  have hinverted : ¬ a.occurs.isInverted = true := by
    intro hinverted
    rw [if_pos hinverted] at h
    cases h
  have hmem : a.name ∉ arena.names := by
    intro hmem
    rw [if_neg hinverted, if_pos hmem] at h
    cases h
  unfold declare
  dsimp only
  rw [if_neg hinverted, if_neg hmem]
  simp [grow, Content.listingAll, Content.listing, Content.placementsAll, Content.placements]

end Arena

namespace Filling

variable {filling : Filling} {arena : Arena} {parent : Option ParticleId}

/--
The particle after content was added whose first particle has the number `n`.
-/
def grow (filling : Filling) (n : Nat) (contents : List Content) : Filling :=
  { filling with
    children := filling.children ++ Content.nodes n contents
    choices := filling.choices + contents.countP Content.isChoice }

theorem grow_nil (filling : Filling) (n : Nat) : filling.grow n [] = filling := by
  simp [grow, Content.nodes]

theorem grow_grow (n : Nat) (contents others : List Content) :
    (filling.grow n contents).grow (n + Content.sizeAll contents) others
      = filling.grow n (contents ++ others) := by
  simp only [grow, Content.nodes_append, List.countP_append, List.append_assoc, Nat.add_assoc]

/--
The particle and the tables after content was added in the particle.
-/
def added (filling : Filling) (arena : Arena) (contents : List Content) (problems : List Problem) :
    Filling × Arena :=
  (filling.grow arena.particles.length contents, arena.grow (some filling.id) contents problems)

theorem added_nil (filling : Filling) (arena : Arena) :
    filling.added arena [] [] = (filling, arena) := by
  rw [added, grow_nil, Arena.grow_nil]

theorem added_nil_singleton (filling : Filling) (arena : Arena) (problem : Problem) :
    filling.added arena [] [problem] = (filling, arena.emit problem) := by
  rw [added, grow_nil, Arena.emit_eq_grow]

theorem scope_added_nil (problems : List Problem) :
    (filling.added arena [] problems).1.scope (filling.added arena [] problems).2
      = filling.scope arena := by
  unfold scope
  rw [added, Arena.names_grow, grow_nil, Content.leavesAll_nil, List.map_nil, List.append_nil]

/--
What comes after a tree is declared in the scope to which the tree was added.
-/
theorem scope_added_singleton (content : Content) (problems : List Problem) :
    (filling.added arena [content] problems).1.scope (filling.added arena [content] problems).2
      = (filling.scope arena).add content := by
  unfold scope Scope.add
  rw [added, Arena.names_grow]
  cases h : content.isChoice <;> simp [grow, h]

theorem added_added (contents others : List Content) (problems more : List Problem) :
    (filling.added arena contents problems).1.added (filling.added arena contents problems).2 others
        more
      = filling.added arena (contents ++ others) (problems ++ more) := by
  simp only [added, Arena.length_particles_grow, grow_grow]
  rw [← Arena.grow_grow]
  rfl

theorem leaf_of_some {a : Attribute} {problem : Problem}
    (h : (filling.scope arena).refuseAttribute? a = some problem) :
    filling.leaf arena a = filling.added arena [] [problem] := by
  rw [added_nil_singleton]
  by_cases hgroup : filling.kind = .group
  . have hparent : (filling.scope arena).parent = some .group := congrArg some hgroup
    unfold Scope.refuseAttribute? at h
    rw [if_pos hparent] at h
    unfold leaf
    rw [if_pos hgroup, ← Option.some.inj h]
  . have hparent : (filling.scope arena).parent ≠ some .group := fun heq => hgroup (Option.some.inj heq)
    unfold leaf
    rw [if_neg hgroup, Arena.declare_of_some hparent rfl h]
    rfl

theorem leaf_of_none {a : Attribute} (h : (filling.scope arena).refuseAttribute? a = none) :
    filling.leaf arena a = filling.added arena [.leaf a] [] := by
  by_cases hgroup : filling.kind = .group
  . have hparent : (filling.scope arena).parent = some .group := congrArg some hgroup
    unfold Scope.refuseAttribute? at h
    rw [if_pos hparent] at h
    cases h
  . have hparent : (filling.scope arena).parent ≠ some .group := fun heq => hgroup (Option.some.inj heq)
    unfold leaf
    rw [if_neg hgroup, Arena.declare_of_none hparent rfl h]
    rfl

end Filling

namespace Arena

variable {arena : Arena} {parent : Option ParticleId} {kind : ParticleKind}
  {fill : Filling → Arena → Filling × Arena} {contents : List Content} {problems : List Problem}

/--
The reserved row is still in its place after the particle was filled.
-/
theorem particle?_grow_reserve :
    ((arena.reserve kind parent).2.grow (some ⟨arena.particles.length⟩) contents problems).particle?
        ⟨arena.particles.length⟩
      = some ⟨⟨arena.particles.length⟩, kind, [], parent⟩ := by
  unfold particle? reserve grow
  dsimp only
  rw [List.append_assoc, List.singleton_append, List.getElem?_append_right (Nat.le_refl _),
    Nat.sub_self, List.getElem?_cons_zero]

/--
The children are written into the row that was reserved for them, whatever came behind it since.
-/
theorem close_grow :
    ((arena.reserve kind parent).2.grow (some ⟨arena.particles.length⟩) contents problems).close
        ⟨arena.particles.length⟩ (Content.nodes (arena.particles.length + 1) contents)
      = arena.grow parent [.particle kind contents]
          (problems ++ if contents.isEmpty then [.emptyParticle kind] else []) := by
  have hempty : (Content.nodes (arena.particles.length + 1) contents).isEmpty = contents.isEmpty := by
    rw [Bool.eq_iff_iff, List.isEmpty_iff, List.isEmpty_iff, Content.nodes_eq_nil_iff]
  unfold close
  rw [particle?_grow_reserve, hempty]
  dsimp only
  split
  . next h =>
    rw [List.isEmpty_iff] at h
    rw [h]
    simp [emit, grow, reserve, Content.listingAll, Content.listing, Content.placementsAll,
      Content.placements, Content.nodes]
  . unfold grow reserve
    dsimp only
    rw [List.append_assoc, List.singleton_append, List.set_append_right _ _ (Nat.le_refl _),
      Nat.sub_self, List.set_cons_zero]
    simp [Content.listingAll, Content.listing, Content.placementsAll, Content.placements]

/--
A particle that is filled with content becomes the tree over this content.
-/
theorem particle_eq_grow
    (h : fill { id := ⟨arena.particles.length⟩, kind := kind } (arena.reserve kind parent).2
      = Filling.added { id := ⟨arena.particles.length⟩, kind := kind } (arena.reserve kind parent).2
          contents problems) :
    arena.particle kind parent fill
      = (⟨arena.particles.length⟩,
          arena.grow parent [.particle kind contents]
            (problems ++ if contents.isEmpty then [.emptyParticle kind] else [])) := by
  have hlength : (arena.reserve kind parent).2.particles.length = arena.particles.length + 1 :=
    List.length_append
  have hfill : arena.particle kind parent fill
      = let filled := fill { id := ⟨arena.particles.length⟩, kind := kind }
          (arena.reserve kind parent).2
        (⟨arena.particles.length⟩, filled.2.close ⟨arena.particles.length⟩ filled.1.children) := rfl
  rw [hfill, h, ← close_grow, ← hlength]
  rfl

end Arena

namespace Filling

variable {filling : Filling} {arena : Arena} {kind : ParticleKind}
  {fill : Filling → Arena → Filling × Arena}

theorem nested_of_some {problem : Problem}
    (h : (filling.scope arena).refuseParticle? kind = some problem) :
    filling.nested arena kind fill = filling.added arena [] [problem] := by
  unfold nested
  rw [h, added_nil_singleton]

theorem nested_of_none {contents : List Content} {problems : List Problem}
    (h : (filling.scope arena).refuseParticle? kind = none)
    (hfill : fill { id := ⟨arena.particles.length⟩, kind := kind }
        (arena.reserve kind (some filling.id)).2
      = added { id := ⟨arena.particles.length⟩, kind := kind }
          (arena.reserve kind (some filling.id)).2 contents problems) :
    filling.nested arena kind fill
      = filling.added arena [.particle kind contents]
          (problems ++ if contents.isEmpty then [.emptyParticle kind] else []) := by
  unfold nested
  rw [h, Arena.particle_eq_grow hfill]
  cases hkind : kind.isChoice <;> simp [added, grow, Content.nodes, Content.isChoice, hkind]

end Filling

namespace Block

mutual

/--
Filling a particle with a block adds the tree of the block.
-/
theorem fill_eq_added (block : Block) (filling : Filling) (arena : Arena) :
    fill filling arena block
      = filling.added arena (block.elaborate (filling.scope arena)).1.toList
          (block.elaborate (filling.scope arena)).2 := by
  cases block with
  | leaf a =>
    rw [fill, elaborate]
    cases h : (filling.scope arena).refuseAttribute? a with
    | none => exact Filling.leaf_of_none h
    | some problem => exact Filling.leaf_of_some h
  | particle kind children =>
    rw [fill, elaborate]
    cases kind.resolve with
    | error problem => exact (Filling.added_nil_singleton ..).symm
    | ok kind =>
      dsimp only
      cases h : (filling.scope arena).refuseParticle? kind with
      | some problem => exact Filling.nested_of_some h
      | none =>
        have hchildren := fillAll_eq_added children { id := ⟨arena.particles.length⟩, kind := kind }
          (arena.reserve kind (some filling.id)).2
        exact Filling.nested_of_none h hchildren

theorem fillAll_eq_added (blocks : List Block) (filling : Filling) (arena : Arena) :
    fillAll filling arena blocks
      = filling.added arena (elaborateAll (filling.scope arena) blocks).1
          (elaborateAll (filling.scope arena) blocks).2 := by
  cases blocks with
  | nil => exact (Filling.added_nil ..).symm
  | cons block rest =>
    rw [fillAll, fill_eq_added block]
    dsimp only
    rw [fillAll_eq_added rest]
    cases h : (block.elaborate (filling.scope arena)).1 with
    | none => rw [elaborateAll_cons_of_none h, Option.toList_none, Filling.scope_added_nil,
        Filling.added_added, List.nil_append]
    | some content => rw [elaborateAll_cons_of_some h, Option.toList_some,
        Filling.scope_added_singleton, Filling.added_added, List.singleton_append]

end

end Block

namespace Arena

variable {arena : Arena} {scope : Scope}

/--
The tables after content was added at the top level, where a particle is a root.
-/
def growTop (arena : Arena) (contents : List Content) (problems : List Problem) : Arena :=
  { arena.grow none contents problems with
    roots := arena.roots
      ++ (Content.nodes arena.particles.length contents).filterMap Node.particle? }

theorem growTop_nil (arena : Arena) (problems : List Problem) :
    arena.growTop [] problems = { arena with problems := arena.problems ++ problems } := by
  simp [growTop, grow, Content.nodes, Content.listingAll, Content.placementsAll]

theorem growTop_growTop (contents others : List Content) (problems more : List Problem) :
    (arena.growTop contents problems).growTop others more
      = arena.growTop (contents ++ others) (problems ++ more) := by
  simp only [growTop, grow, Content.nodes_append, Content.listingAll_append,
    Content.placementsAll_append, List.length_append, Content.length_listingAll, List.append_assoc,
    List.filterMap_append]

theorem names_growTop (contents : List Content) (problems : List Problem) :
    (arena.growTop contents problems).names
      = arena.names ++ (Content.leavesAll contents).map (·.name) :=
  arena.names_grow none contents problems

/--
A block at the top level adds its tree.
-/
theorem take_eq_growTop (block : Block) (hparent : scope.parent = none)
    (hnames : scope.names = arena.names) :
    arena.take block
      = arena.growTop (block.elaborate scope).1.toList (block.elaborate scope).2 := by
  have hgroup : scope.parent ≠ some .group := by
    rw [hparent]
    nofun
  cases block with
  | leaf a =>
    rw [take, Block.elaborate]
    cases h : scope.refuseAttribute? a with
    | none =>
      rw [declare_of_none hgroup hnames h]
      simp [growTop, Content.nodes, Node.particle?, grow]
    | some problem =>
      rw [declare_of_some hgroup hnames h]
      exact (growTop_nil ..).symm
  | particle kind children =>
    rw [take, Block.elaborate]
    cases kind.resolve with
    | error problem => exact (growTop_nil ..).symm
    | ok kind =>
      have hallowed : scope.refuseParticle? kind = none := by
        unfold Scope.refuseParticle?
        rw [hparent]
      have hscope : Filling.scope { id := ⟨arena.particles.length⟩, kind := kind }
          (arena.reserve kind none).2 = scope.enter kind := by
        unfold Scope.enter
        rw [hnames]
        rfl
      have hchildren := Block.fillAll_eq_added children
        { id := ⟨arena.particles.length⟩, kind := kind } (arena.reserve kind none).2
      rw [hscope] at hchildren
      dsimp only
      rw [hallowed, particle_eq_grow hchildren]
      rfl

theorem foldl_add (items : List Item) (scope : Scope) (hparent : scope.parent = none)
    (hnames : scope.names = arena.names) :
    items.foldl add arena
      = arena.growTop (Block.elaborateAll scope (items.filterMap Item.block?)).1
          (Block.elaborateAll scope (items.filterMap Item.block?)).2 := by
  induction items generalizing arena scope with
  | nil => simp [Block.elaborateAll, growTop_nil]
  | cons item rest ih =>
    rw [List.foldl_cons]
    cases item with
    | block block =>
      rw [add, take_eq_growTop block hparent hnames, List.filterMap_cons_some (by rfl)]
      cases h : (block.elaborate scope).1 with
      | none =>
        rw [Block.elaborateAll_cons_of_none h, Option.toList_none]
        have hsame : scope.names = (arena.growTop [] (block.elaborate scope).2).names := by
          rw [hnames, names_growTop, Content.leavesAll_nil, List.map_nil, List.append_nil]
        rw [ih scope hparent hsame, growTop_growTop, List.nil_append]
      | some content =>
        rw [Block.elaborateAll_cons_of_some h, Option.toList_some]
        have htop : (scope.add content).parent = none := hparent
        have hmore : (scope.add content).names
            = (arena.growTop [content] (block.elaborate scope).2).names := by
          rw [names_growTop, Content.leavesAll_cons, Content.leavesAll_nil, List.append_nil, ← hnames]
          rfl
        rw [ih (scope.add content) htop hmore, growTop_growTop, List.singleton_append]
    | mapping format entries => exact ih scope hparent hnames
    | rootName name => exact ih scope hparent hnames
    | noRoot => exact ih scope hparent hnames

end Arena

/--
The run over the blocks leaves behind the tables of the content, whether or not the declaration is
accepted, and the problems of the blocks.
-/
theorem Declaration.arena_eq (declaration : Declaration) :
    declaration.arena = {
      particles := declaration.model.particles
      roots := declaration.model.roots
      attributes := declaration.model.placements
      problems := (Block.elaborateAll .top declaration.blocks).2 } := by
  unfold arena
  rw [Arena.foldl_add declaration.items .top rfl rfl]
  unfold Arena.growTop Arena.grow
  simp only [List.nil_append, List.length_nil, Model.particles, Model.roots, Model.placements,
    Declaration.model, content_draft]
  rfl

end ContentModel
