import ContentModel.Proofs.Declaration.Arena
import ContentModel.Proofs.Model

/-!
This module contains the proof that the tables that a declaration fills, the particles, their parents,
the attributes and the roots, represent the declared blocks faithfully, and that they are the tables of
the model.
-/

namespace ContentModel

mutual

/--
`Listed arena parent n block node m`: the node stands in `parent` for the declared block, and the
particles that are declared at and below it are those with the numbers from `n` up to `m`.
-/
inductive Listed (arena : Arena) : Option ParticleId → Nat → Block → Node → Nat → Prop where
  | leaf {parent : Option ParticleId} {n : Nat} {a : Attribute} :
      ⟨a, parent⟩ ∈ arena.attributes → Listed arena parent n (.leaf a) (.leaf a.name) n
  | particle {parent : Option ParticleId} {n m : Nat} {kind : BlockKind} {children : List Block}
      {nodes : List Node} :
      arena.particle? ⟨n⟩ = some ⟨⟨n⟩, kind.particleKind, nodes, parent⟩ →
        ListedAll arena (some ⟨n⟩) (n + 1) children nodes m →
          Listed arena parent n (.particle kind children) (.particle ⟨n⟩) m

inductive ListedAll (arena : Arena) :
    Option ParticleId → Nat → List Block → List Node → Nat → Prop where
  | nil {parent : Option ParticleId} {n : Nat} : ListedAll arena parent n [] [] n
  | cons {parent : Option ParticleId} {n m l : Nat} {block : Block} {rest : List Block} {node : Node}
      {nodes : List Node} :
      Listed arena parent n block node m → ListedAll arena parent m rest nodes l →
        ListedAll arena parent n (block :: rest) (node :: nodes) l

end

/--
The tables represent the declaration faithfully. The nodes that are listed for the blocks at the top
level use all numbers.
-/
structure Arena.Represents (arena : Arena) (declaration : Declaration) : Prop where
  ids : ∀ i (row : Particle), arena.particles[i]? = some row → row.id.index = i
  kinds : arena.particles.map (·.kind) = declaration.particles.map (·.1.particleKind)
  listed : ∃ nodes, ListedAll arena none 0 declaration.blocks nodes arena.particles.length
    ∧ arena.roots = nodes.filterMap Node.particle?
  links : ∀ row ∈ arena.particles, ∀ id, .particle id ∈ row.children →
    row.id.index < id.index
      ∧ (∃ child, arena.particle? id = some child ∧ child.parent = some row.id)
      ∧ (arena.particles.flatMap (·.children)).count (.particle id) = 1
  roots : arena.roots = (arena.particles.filter (·.parent.isNone)).map (·.id)
  held : ∀ a id, ⟨a, some id⟩ ∈ arena.attributes →
    (∃ row, arena.particle? id = some row ∧ .leaf a.name ∈ row.children)
      ∧ (arena.particles.flatMap (·.children)).count (.leaf a.name) = 1
  loose : ∀ a, ⟨a, none⟩ ∈ arena.attributes →
    ∀ row ∈ arena.particles, .leaf a.name ∉ row.children
  attributes : arena.attributes.map (·.declared) = declaration.attributes

/--
The tables are those of the model.
-/
structure Arena.Backs (arena : Arena) (model : Model) : Prop where
  particles : model.particles = arena.particles
  roots : model.roots = arena.roots
  placements : model.placements = arena.attributes
  attributes : model.attributes = arena.attributes.map (·.declared)

namespace Model

variable {model : Model}

theorem particle?_eq_some_iff {id : ParticleId} {row : Particle} :
    model.particle? id = some row ↔ row ∈ model.particles ∧ row.id = id := by
  have hindex {i : Nat} (h : model.particles[i]? = some row) : row.id.index = i := by
    rw [Content.index_eq_of_getElem? h, Nat.zero_add]
  unfold particle?
  constructor
  . intro h
    exact ⟨List.mem_of_getElem? h, congrArg ParticleId.mk (hindex h)⟩
  . rintro ⟨hmem, heq⟩
    rcases List.getElem?_of_mem hmem with ⟨i, hi⟩
    rw [← heq, hindex hi]
    exact hi

theorem count_node_le_one (h : (model.attributes.map (·.name)).Nodup) (node : Node) :
    (Content.nodes 0 model.content).count node
        + (model.particles.flatMap (·.children)).count node
      ≤ 1 := by
  have hcount := Content.count_listingAll model.content none 0 node
  cases node with
  | leaf name =>
    have hrows : (model.particles.map (fun row => Node.particle row.id)).count (.leaf name) = 0 := by
      rw [List.count_eq_zero]
      simp
    have hnames : (model.attributes.map (fun a => Node.leaf a.name)).count (.leaf name) ≤ 1 := by
      apply Content.count_map_le_one h
      intro a b heq
      exact Node.leaf.inj heq
    unfold particles attributes at *
    omega
  | particle id =>
    have hrows := Content.count_row_le_one model.content none 0 id
    have hnames : (model.attributes.map (fun a => Node.leaf a.name)).count (.particle id) = 0 := by
      rw [List.count_eq_zero]
      simp
    unfold particles attributes at *
    omega

theorem count_child_eq_one (h : (model.attributes.map (·.name)).Nodup) {row : Particle}
    (hrow : row ∈ model.particles) {node : Node} (hchild : node ∈ row.children) :
    (model.particles.flatMap (·.children)).count node = 1 := by
  have hle := count_node_le_one h node
  have hpos : 0 < (model.particles.flatMap (·.children)).count node :=
    List.count_pos_iff.mpr (List.mem_flatMap.mpr ⟨row, hrow, hchild⟩)
  omega

theorem not_mem_children_of_loose (h : (model.attributes.map (·.name)).Nodup) {a : Attribute}
    (hloose : ⟨a, none⟩ ∈ model.placements) {row : Particle} (hrow : row ∈ model.particles) :
    .leaf a.name ∉ row.children := by
  -- Its node stands at the top level, and the child would be a second one.
  intro hchild
  rcases Content.mem_nodes_or_row_all model.content hloose with ⟨_, hnode⟩ | ⟨other, _, hparent, _⟩
  . have hle := count_node_le_one h (.leaf a.name)
    have hone := count_child_eq_one h hrow hchild
    have hpos : 0 < (Content.nodes 0 model.content).count (.leaf a.name) :=
      List.count_pos_iff.mpr hnode
    omega
  . cases hparent

end Model

namespace Block

variable {arena : Arena}

mutual

theorem exists_listed (block : Block) (parent : Option ParticleId) (n : Nat)
    (hrows : ∀ row ∈ block.content.listing parent n, arena.particle? row.id = some row)
    (hplaced : ∀ placement ∈ block.content.placements parent n, placement ∈ arena.attributes) :
    ∃ node, Content.nodes n [block.content] = [node]
      ∧ Listed arena parent n block node (n + block.content.size) := by
  cases block with
  | leaf a => exact ⟨.leaf a.name, rfl, .leaf (hplaced _ (List.mem_singleton_self _))⟩
  | particle kind children =>
    have hrow := hrows _ List.mem_cons_self
    have hchildren := listedAll children (some ⟨n⟩) (n + 1)
      (fun row hmem => hrows row (List.mem_cons_of_mem _ hmem)) hplaced
    rw [Nat.add_right_comm n 1] at hchildren
    exact ⟨.particle ⟨n⟩, rfl, .particle hrow hchildren⟩

theorem listedAll (blocks : List Block) (parent : Option ParticleId) (n : Nat)
    (hrows : ∀ row ∈ Content.listingAll parent n (contentAll blocks),
      arena.particle? row.id = some row)
    (hplaced : ∀ placement ∈ Content.placementsAll parent n (contentAll blocks),
      placement ∈ arena.attributes) :
    ListedAll arena parent n blocks (Content.nodes n (contentAll blocks))
      (n + Content.sizeAll (contentAll blocks)) := by
  cases blocks with
  | nil => exact .nil
  | cons block rest =>
    rw [contentAll, Content.listingAll] at hrows
    rw [contentAll, Content.placementsAll] at hplaced
    rcases exists_listed block parent n
      (fun row hmem => hrows row (List.mem_append_left _ hmem))
      (fun placement hmem => hplaced placement (List.mem_append_left _ hmem)) with ⟨node, hnode, hfirst⟩
    have hrest := listedAll rest parent (n + block.content.size)
      (fun row hmem => hrows row (List.mem_append_right _ hmem))
      (fun placement hmem => hplaced placement (List.mem_append_right _ hmem))
    rw [contentAll, Content.nodes_cons, hnode, Content.sizeAll_cons, ← Nat.add_assoc]
    exact .cons hfirst hrest

end

mutual

theorem map_kind_listing (block : Block) (parent : Option ParticleId) (n : Nat) :
    (block.content.listing parent n).map (·.kind) = block.particles.map (·.1.particleKind) := by
  cases block with
  | leaf a => rfl
  | particle kind children =>
    rw [content, Content.listing, particles, List.map_cons, List.map_cons]
    rw [map_kind_listingAll children]

theorem map_kind_listingAll (blocks : List Block) (parent : Option ParticleId) (n : Nat) :
    (Content.listingAll parent n (contentAll blocks)).map (·.kind)
      = (particlesAll blocks).map (·.1.particleKind) := by
  cases blocks with
  | nil => rfl
  | cons block rest =>
    rw [contentAll, Content.listingAll, particlesAll, List.map_append, List.map_append]
    rw [map_kind_listing block, map_kind_listingAll rest]

end

end Block

namespace Declaration

variable {declaration : Declaration} {model : Model}

theorem backs_of_build (h : declaration.build.value = .ok model) : declaration.arena.Backs model := by
  rw [build_eq_ok_iff] at h
  rw [arena_eq, ← h.2]
  constructor
  case particles => rfl
  case roots => rfl
  case placements => rfl
  case attributes => exact (Content.map_declared_placementsAll _ none 0).symm

/--
The tables that the blocks of an accepted declaration fill represent it faithfully, and they are the
tables of the model.
-/
theorem represents_of_build (h : declaration.build.value = .ok model) :
    declaration.arena.Represents declaration ∧ declaration.arena.Backs model := by
  have hbacks := backs_of_build h
  have hcontent := content_of_build h
  have hdistinct := distinct_of_build h
  have hparticle (id : ParticleId) : declaration.arena.particle? id = model.particle? id := by
    rw [Arena.particle?, Model.particle?, hbacks.particles]
  refine ⟨?_, hbacks⟩
  constructor
  case ids =>
    intro i row hrow
    rw [← hbacks.particles] at hrow
    rw [Content.index_eq_of_getElem? hrow, Nat.zero_add]
  case kinds =>
    rw [← hbacks.particles, Model.particles, hcontent]
    exact Block.map_kind_listingAll declaration.blocks none 0
  case listed =>
    refine ⟨Content.nodes 0 model.content, ?_, hbacks.roots.symm⟩
    rw [← hbacks.particles, Model.particles, Content.length_listingAll, hcontent,
      ← Nat.zero_add (Content.sizeAll _)]
    apply Block.listedAll declaration.blocks none 0
    . intro row hmem
      rw [hparticle, Model.particle?_eq_some_iff, Model.particles, hcontent]
      exact ⟨hmem, rfl⟩
    . intro placement hmem
      rw [← hbacks.placements, Model.placements, hcontent]
      exact hmem
  case links =>
    intro row hrow id hchild
    rw [← hbacks.particles] at hrow ⊢
    rcases Content.exists_child_listingAll _ hrow hchild with ⟨hlt, child, hmem, hid, hparent⟩
    refine ⟨hlt, ⟨child, ?_, hparent⟩, Model.count_child_eq_one hdistinct hrow hchild⟩
    rw [hparticle]
    exact Model.particle?_eq_some_iff.mpr ⟨hmem, hid⟩
  case roots =>
    rw [← hbacks.roots, ← hbacks.particles]
    exact Content.filterMap_particle?_nodes model.content 0
  case held =>
    intro a id hplaced
    rw [← hbacks.placements] at hplaced
    rw [← hbacks.particles]
    rcases Content.mem_nodes_or_row_all _ hplaced with ⟨hnone, _⟩ | ⟨row, hrow, hparent, hchild⟩
    . cases hnone
    . have hid : row.id = id := (Option.some.inj hparent).symm
      refine ⟨⟨row, ?_, hchild⟩, Model.count_child_eq_one hdistinct hrow hchild⟩
      rw [hparticle]
      exact Model.particle?_eq_some_iff.mpr ⟨hrow, hid⟩
  case loose =>
    intro a hloose row hrow
    rw [← hbacks.placements] at hloose
    rw [← hbacks.particles] at hrow
    exact Model.not_mem_children_of_loose hdistinct hloose hrow
  case attributes => rw [← hbacks.attributes, attributes_of_build h]

end Declaration

theorem represents_purchase :
    Declaration.purchase.arena.Represents Declaration.purchase
      ∧ Declaration.purchase.arena.Backs Declaration.purchase.model
      ∧ Declaration.purchase.arena.roots = [⟨0⟩]
      ∧ Declaration.purchase.arena.particles.map (·.parent) = [none, some ⟨0⟩, some ⟨1⟩]
      ∧ Declaration.purchase.arena.particles.map (·.children)
        = [[.particle ⟨1⟩, .leaf "voucher"], [.leaf "item", .particle ⟨2⟩],
            [.leaf "card", .leaf "cash"]]
      ∧ Declaration.purchase.arena.attributes.map (·.parent)
        = [none, some ⟨1⟩, some ⟨2⟩, some ⟨2⟩, some ⟨0⟩] := by
  have hbuild : Declaration.purchase.build.value = .ok Declaration.purchase.model := rfl
  rcases Declaration.represents_of_build hbuild with ⟨hrepresents, hbacks⟩
  exact ⟨hrepresents, hbacks, rfl, rfl, rfl, rfl⟩

end ContentModel
