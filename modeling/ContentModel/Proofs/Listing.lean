import ContentModel.Content.Listing

/-!
This module contains the links between the rows of a listing: what the numbers, the child lists and
the parents of the particles and attributes say about each other.
-/

namespace ContentModel

namespace Content

theorem nodes_cons (content : Content) (rest : List Content) (n : Nat) :
    nodes n (content :: rest) = nodes n [content] ++ nodes (n + content.size) rest := by
  cases content <;> rfl

mutual

theorem map_index_listing (content : Content) (parent : Option ParticleId) (n : Nat) :
    (content.listing parent n).map (·.id.index) = List.range' n content.size := by
  cases content with
  | leaf a => rfl
  | particle kind children =>
    rw [listing, List.map_cons, map_index_listingAll children, size, List.range'_succ]

theorem map_index_listingAll (contents : List Content) (parent : Option ParticleId) (n : Nat) :
    (listingAll parent n contents).map (·.id.index) = List.range' n (sizeAll contents) := by
  cases contents with
  | nil => rfl
  | cons content rest =>
    rw [listingAll, List.map_append, sizeAll_cons, ← List.range'_append_1]
    rw [map_index_listing content, map_index_listingAll rest]

end

theorem index_eq_of_getElem? {contents : List Content} {parent : Option ParticleId} {n i : Nat}
    {row : Particle} (h : (listingAll parent n contents)[i]? = some row) : row.id.index = n + i := by
  have hmap := congrArg (·[i]?) (map_index_listingAll contents parent n)
  rw [List.getElem?_map, h] at hmap
  rcases List.getElem?_eq_some_iff.mp hmap.symm with ⟨hlt, heq⟩
  rw [List.getElem_range'] at heq
  change n + 1 * i = row.id.index at heq
  omega

theorem count_map_le_one {α β : Type} {list : List α} {key : α → β} (h : (list.map key).Nodup)
    {node : α → Node} (hkey : ∀ a b, node a = node b → key a = key b) (x : Node) :
    (list.map node).count x ≤ 1 := by
  apply List.nodup_iff_count.mp
  rw [List.Nodup, List.pairwise_map] at h ⊢
  apply h.imp
  intro a b hne heq
  exact hne (hkey a b heq)

theorem count_row_le_one (contents : List Content) (parent : Option ParticleId) (n : Nat)
    (id : ParticleId) :
    ((listingAll parent n contents).map (fun row => Node.particle row.id)).count (.particle id)
      ≤ 1 := by
  have hnodup : ((listingAll parent n contents).map (·.id.index)).Nodup := by
    rw [map_index_listingAll]
    exact List.nodup_range'
  apply count_map_le_one hnodup
  intro row other heq
  exact congrArg ParticleId.index (Node.particle.inj heq)

mutual

theorem count_listing (content : Content) (parent : Option ParticleId) (n : Nat) (node : Node) :
    (nodes n [content]).count node + ((content.listing parent n).flatMap (·.children)).count node
      = ((content.listing parent n).map (fun row => Node.particle row.id)).count node
        + (content.leaves.map (fun a => Node.leaf a.name)).count node := by
  cases content with
  | leaf a => exact (Nat.zero_add _).symm
  | particle kind children =>
    -- The row of the particle is its own node at the top and brings the nodes of its children.
    have ih := count_listingAll children (some ⟨n⟩) (n + 1) node
    rw [listing, List.flatMap_cons, List.map_cons, leaves]
    simp only [nodes, List.count_append, List.count_cons, List.count_nil]
    omega

theorem count_listingAll (contents : List Content) (parent : Option ParticleId) (n : Nat)
    (node : Node) :
    (nodes n contents).count node + ((listingAll parent n contents).flatMap (·.children)).count node
      = ((listingAll parent n contents).map (fun row => Node.particle row.id)).count node
        + ((leavesAll contents).map (fun a => Node.leaf a.name)).count node := by
  cases contents with
  | nil => rfl
  | cons content rest =>
    have ih := count_listing content parent n node
    have ihrest := count_listingAll rest parent (n + content.size) node
    rw [nodes_cons, listingAll, leavesAll_cons, List.flatMap_append, List.map_append, List.map_append]
    simp only [List.count_append]
    omega

end

theorem exists_row_of_mem_nodes {contents : List Content} {n : Nat} {id : ParticleId}
    (h : .particle id ∈ nodes n contents) (parent : Option ParticleId) :
    n ≤ id.index ∧ ∃ row ∈ listingAll parent n contents, row.id = id ∧ row.parent = parent := by
  induction contents generalizing n with
  | nil => cases h
  | cons content rest ih =>
    rw [nodes_cons, List.mem_append] at h
    rw [listingAll]
    rcases h with h | h
    . cases content with
      | leaf a => simp [nodes] at h
      | particle kind children =>
        simp only [nodes, List.mem_singleton, Node.particle.injEq] at h
        rw [h]
        exact ⟨Nat.le_refl n, _, List.mem_append_left _ (List.mem_cons_self), rfl, rfl⟩
    . rcases ih h with ⟨hle, row, hmem, hrow⟩
      refine ⟨by omega, row, List.mem_append_right _ hmem, hrow⟩

mutual

theorem exists_child_listing (content : Content) {parent : Option ParticleId} {n : Nat}
    {row : Particle} (h : row ∈ content.listing parent n) {id : ParticleId}
    (hchild : .particle id ∈ row.children) :
    row.id.index < id.index
      ∧ ∃ child ∈ content.listing parent n, child.id = id ∧ child.parent = some row.id := by
  cases content with
  | leaf a => cases h
  | particle kind children =>
    rw [listing, List.mem_cons] at h
    rw [listing]
    rcases h with h | h
    . rw [h] at hchild ⊢
      rcases exists_row_of_mem_nodes hchild (some ⟨n⟩) with ⟨hle, child, hmem, heq⟩
      exact ⟨hle, child, List.mem_cons_of_mem _ hmem, heq⟩
    . rcases exists_child_listingAll children h hchild with ⟨hlt, child, hmem, heq⟩
      exact ⟨hlt, child, List.mem_cons_of_mem _ hmem, heq⟩

theorem exists_child_listingAll (contents : List Content) {parent : Option ParticleId} {n : Nat}
    {row : Particle} (h : row ∈ listingAll parent n contents) {id : ParticleId}
    (hchild : .particle id ∈ row.children) :
    row.id.index < id.index
      ∧ ∃ child ∈ listingAll parent n contents, child.id = id ∧ child.parent = some row.id := by
  cases contents with
  | nil => cases h
  | cons content rest =>
    rw [listingAll, List.mem_append] at h
    rw [listingAll]
    rcases h with h | h
    . rcases exists_child_listing content h hchild with ⟨hlt, child, hmem, heq⟩
      exact ⟨hlt, child, List.mem_append_left _ hmem, heq⟩
    . rcases exists_child_listingAll rest h hchild with ⟨hlt, child, hmem, heq⟩
      exact ⟨hlt, child, List.mem_append_right _ hmem, heq⟩

end

mutual

theorem parent_listing (content : Content) {id : ParticleId} {n : Nat} {row : Particle}
    (hle : id.index ≤ n) (h : row ∈ content.listing (some id) n) :
    ∃ outer, row.parent = some outer ∧ id.index ≤ outer.index := by
  cases content with
  | leaf a => cases h
  | particle kind children =>
    rw [listing, List.mem_cons] at h
    rcases h with h | h
    . rw [h]
      exact ⟨id, rfl, Nat.le_refl _⟩
    . rcases parent_listingAll children (Nat.le_succ n) h with ⟨outer, hparent, houter⟩
      exact ⟨outer, hparent, Nat.le_trans hle houter⟩

theorem parent_listingAll (contents : List Content) {id : ParticleId} {n : Nat} {row : Particle}
    (hle : id.index ≤ n) (h : row ∈ listingAll (some id) n contents) :
    ∃ outer, row.parent = some outer ∧ id.index ≤ outer.index := by
  cases contents with
  | nil => cases h
  | cons content rest =>
    rw [listingAll, List.mem_append] at h
    rcases h with h | h
    . exact parent_listing content hle h
    . exact parent_listingAll rest (Nat.le_trans hle (Nat.le_add_right n _)) h

end

theorem filterMap_particle?_nodes (contents : List Content) (n : Nat) :
    (nodes n contents).filterMap Node.particle?
      = ((listingAll none n contents).filter (·.parent.isNone)).map (·.id) := by
  induction contents generalizing n with
  | nil => rfl
  | cons content rest ih =>
    rw [nodes_cons, List.filterMap_append, ih, listingAll, List.filter_append, List.map_append]
    congr 1
    cases content with
    | leaf a => rfl
    | particle kind children =>
      -- Whatever is listed below a particle has a parent.
      have hbelow : (listingAll (some ⟨n⟩) (n + 1) children).filter (·.parent.isNone) = [] := by
        rw [List.filter_eq_nil_iff]
        intro row hmem
        rcases parent_listingAll children (Nat.le_succ n) hmem with ⟨outer, hparent, _⟩
        simp [hparent]
      rw [listing, List.filter_cons_of_pos (by rfl), hbelow]
      rfl

mutual

theorem mem_nodes_or_row (content : Content) {parent : Option ParticleId} {n : Nat}
    {placement : Placement} (h : placement ∈ content.placements parent n) :
    placement.parent = parent ∧ .leaf placement.declared.name ∈ nodes n [content]
      ∨ ∃ row ∈ content.listing parent n,
          placement.parent = some row.id ∧ .leaf placement.declared.name ∈ row.children := by
  cases content with
  | leaf a =>
    rw [placements, List.mem_singleton] at h
    rw [h]
    exact .inl ⟨rfl, List.mem_singleton_self _⟩
  | particle kind children =>
    rw [listing]
    rcases mem_nodes_or_row_all children h with ⟨hparent, hmem⟩ | ⟨row, hrow, hmem⟩
    . exact .inr ⟨_, List.mem_cons_self, hparent, hmem⟩
    . exact .inr ⟨row, List.mem_cons_of_mem _ hrow, hmem⟩

theorem mem_nodes_or_row_all (contents : List Content) {parent : Option ParticleId} {n : Nat}
    {placement : Placement} (h : placement ∈ placementsAll parent n contents) :
    placement.parent = parent ∧ .leaf placement.declared.name ∈ nodes n contents
      ∨ ∃ row ∈ listingAll parent n contents,
          placement.parent = some row.id ∧ .leaf placement.declared.name ∈ row.children := by
  cases contents with
  | nil => cases h
  | cons content rest =>
    rw [placementsAll, List.mem_append] at h
    rw [nodes_cons, listingAll]
    rcases h with h | h
    . rcases mem_nodes_or_row content h with ⟨hparent, hmem⟩ | ⟨row, hrow, hmem⟩
      . exact .inl ⟨hparent, List.mem_append_left _ hmem⟩
      . exact .inr ⟨row, List.mem_append_left _ hrow, hmem⟩
    . rcases mem_nodes_or_row_all rest h with ⟨hparent, hmem⟩ | ⟨row, hrow, hmem⟩
      . exact .inl ⟨hparent, List.mem_append_right _ hmem⟩
      . exact .inr ⟨row, List.mem_append_right _ hrow, hmem⟩

end

end Content

end ContentModel
