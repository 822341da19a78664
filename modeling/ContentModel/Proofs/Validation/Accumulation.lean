import ContentModel.Proofs.Validation.Coverage

/-!
This module contains what the walk over the tables of a model adds to the lists that it is handed:
which of the leaves below a node, told by the rows of the table alone, are counted as present and which
get a place in the order of a sequence.
-/

namespace ContentModel

namespace Model

/--
The second node stands at or below the first one in the tables.
-/
inductive Reaches (model : Model) : Node → Node → Prop where
  | self {node : Node} : Reaches model node node
  | child {id : ParticleId} {row : Particle} {child node : Node} :
      model.particle? id = some row → child ∈ row.children → Reaches model child node →
        Reaches model (.particle id) node

/--
The leaf stands below a choice that is the node itself or stands below it.
-/
def Offers (model : Model) (node : Node) (name : String) : Prop :=
  ∃ id row, model.particle? id = some row ∧ row.kind.isChoice ∧ model.Reaches node (.particle id)
    ∧ model.Reaches (.particle id) (.leaf name)

def IsAll (model : Model) (node : Node) : Prop :=
  ∃ id row, node = .particle id ∧ model.particle? id = some row ∧ row.kind = .all

/--
The list holds the attributes with the property and no others, once each and in declaration order.
-/
structure Lists (model : Model) (list : List Attribute) (p : Attribute → Prop) : Prop where
  ordered : list.Sublist model.attributes
  once : (list.map (·.name)).Nodup
  exact : ∀ a, a ∈ list ↔ a ∈ model.attributes ∧ p a

variable {model : Model}

theorem Reaches.trans {node middle target : Node} (h : model.Reaches node middle)
    (h' : model.Reaches middle target) : model.Reaches node target := by
  induction h with
  | self => exact h'
  | child hrow hchild _ ih => exact .child hrow hchild (ih h')

theorem reaches_leaf_iff {name : String} {node : Node} :
    model.Reaches (.leaf name) node ↔ node = .leaf name := by
  constructor
  . rintro ⟨⟩
    rfl
  . intro h
    rw [h]
    exact .self

theorem reaches_particle_iff {id : ParticleId} {row : Particle} {node : Node}
    (hrow : model.particle? id = some row) :
    model.Reaches (.particle id) node
      ↔ node = .particle id ∨ ∃ child ∈ row.children, model.Reaches child node := by
  constructor
  . intro h
    cases h with
    | self => exact .inl rfl
    | child hrow' hchild hreaches =>
      rw [hrow] at hrow'
      cases hrow'
      exact .inr ⟨_, hchild, hreaches⟩
  . rintro (h | ⟨child, hchild, hreaches⟩)
    . rw [h]
      exact .self
    . exact .child hrow hchild hreaches

theorem Offers.reaches {node : Node} {name : String} (h : model.Offers node name) :
    model.Reaches node (.leaf name) := by
  rcases h with ⟨id, row, _, _, hnode, hleaf⟩
  exact hnode.trans hleaf

theorem not_offers_leaf (leaf name : String) : ¬ model.Offers (.leaf leaf) name := by
  rintro ⟨id, row, _, _, hnode, _⟩
  rw [reaches_leaf_iff] at hnode
  cases hnode

theorem offers_particle_iff {id : ParticleId} {row : Particle} {name : String}
    (hrow : model.particle? id = some row) :
    model.Offers (.particle id) name
      ↔ row.kind.isChoice ∧ model.Reaches (.particle id) (.leaf name)
        ∨ ∃ child ∈ row.children, model.Offers child name := by
  constructor
  . rintro ⟨inner, innerRow, hinner, hchoice, hnode, hleaf⟩
    rcases (reaches_particle_iff hrow).mp hnode with heq | ⟨child, hchild, hreaches⟩
    . cases heq
      rw [hrow] at hinner
      cases hinner
      exact .inl ⟨hchoice, hleaf⟩
    . exact .inr ⟨child, hchild, inner, innerRow, hinner, hchoice, hreaches, hleaf⟩
  . rintro (⟨hchoice, hleaf⟩ | ⟨child, hchild, inner, innerRow, hinner, hchoice, hreaches, hleaf⟩)
    . exact ⟨id, row, hrow, hchoice, .self, hleaf⟩
    . exact ⟨inner, innerRow, hinner, hchoice, .child hrow hchild hreaches, hleaf⟩

end Model

namespace Table

variable {model : Model} {inst : Instance} {anchor : Anchor}

mutual

theorem reaches_node_iff (content : Content) {n : Nat} (h : Carries model n [content])
    (name : String) :
    model.Reaches (content.node n) (.leaf name) ↔ name ∈ content.leaves.map (·.name) := by
  cases content with
  | leaf a =>
    rw [Content.node, Model.reaches_leaf_iff]
    simp [Content.leaves]
  | particle kind children =>
    rcases h.exists_row with ⟨parent, hrow⟩
    rw [Content.node, Model.reaches_particle_iff hrow, Content.leaves]
    rw [← reaches_nodes_iff children h.below name]
    simp

theorem reaches_nodes_iff (contents : List Content) {n : Nat} (h : Carries model n contents)
    (name : String) :
    (∃ node ∈ Content.nodes n contents, model.Reaches node (.leaf name))
      ↔ name ∈ (Content.leavesAll contents).map (·.name) := by
  cases contents with
  | nil => simp [Content.nodes]
  | cons content rest =>
    have hfirst := reaches_node_iff content h.head name
    have hrest := reaches_nodes_iff rest h.tail name
    rw [Content.nodes_cons_node, Content.leavesAll_cons, List.map_append, List.mem_append]
    rw [← hfirst, ← hrest]
    simp

end

namespace Carries

variable {n : Nat} {content : Content} {contents rest : List Content}

theorem sublist (h : Carries model n [content]) : content.leaves.Sublist model.attributes := by
  have hleaves := h.leaves
  rw [Content.leavesAll_cons, Content.leavesAll_nil, List.append_nil] at hleaves
  exact hleaves

/--
The trees share no name.
-/
theorem disjoint (h : Carries model n (content :: rest)) {a : Attribute}
    (ha : a ∈ content.leaves) : a.name ∉ (Content.leavesAll rest).map (·.name) := by
  have hnodup := h.distinct.sublist (h.leaves.map (·.name))
  rw [Content.leavesAll_cons, List.map_append, List.nodup_append] at hnodup
  intro hmem
  exact hnodup.2.2 _ (List.mem_map_of_mem ha) _ hmem rfl

/--
Some of the leaves of a tree, told apart from the others by a property, are all the attributes at or
below its node that have the property.
-/
theorem lists (h : Carries model n [content]) {list : List Attribute} {p : Attribute → Prop}
    (hsublist : list.Sublist content.leaves)
    (hexact : ∀ a ∈ content.leaves, a ∈ list ↔ p a) :
    model.Lists list fun a => model.Reaches (content.node n) (.leaf a.name) ∧ p a := by
  constructor
  case ordered => exact hsublist.trans h.sublist
  case once => exact h.distinct.sublist ((hsublist.trans h.sublist).map _)
  case exact =>
    intro a
    constructor
    . intro ha
      have hleaf := hsublist.subset ha
      refine ⟨h.sublist.subset hleaf, ?_, (hexact a hleaf).mp ha⟩
      exact (reaches_node_iff content h a.name).mpr (List.mem_map_of_mem hleaf)
    . rintro ⟨ha, hreaches, hp⟩
      rw [reaches_node_iff content h, List.mem_map] at hreaches
      rcases hreaches with ⟨b, hb, hname⟩
      have heq : b = a := List.inj_on_of_nodup_map h.distinct (h.sublist.subset hb) ha hname
      rw [heq] at hb
      exact (hexact a hb).mpr hp

theorem isAll_iff (h : Carries model n [content]) :
    model.IsAll (content.node n) ↔ content.kind? = some .all := by
  cases content with
  | leaf a => simp [Model.IsAll, Content.node, Content.kind?]
  | particle kind children =>
    rcases h.exists_row with ⟨parent, hrow⟩
    simp [Model.IsAll, Content.node, Content.kind?, hrow]

end Carries

mutual

/--
A leaf that some choice offers has a place in an order when it is present, and any other leaf has one.
-/
theorem mem_placed_iff (content : Content) {n : Nat} (h : Carries model n [content])
    (hkind : content.kind? ≠ some .all) {a : Attribute} (ha : a ∈ content.leaves) :
    a ∈ content.placed inst ↔ a.isPresent inst ∨ ¬ model.Offers (content.node n) a.name := by
  cases content with
  | leaf b => exact iff_of_true ha (.inr (model.not_offers_leaf b.name a.name))
  | particle kind children =>
    rcases h.exists_row with ⟨parent, hrow⟩
    have hkinds := h.holds
    have hbelow := mem_placedAll_iff children h.below
    rw [Content.node, Model.offers_particle_iff hrow]
    cases kind with
    | sequence => simpa [Content.placed, ParticleKind.isChoice] using hbelow hkinds ha
    | group => simpa [Content.placed, ParticleKind.isChoice] using hbelow hkinds.2.2.1 ha
    | choice range =>
      have hreaches := (reaches_node_iff _ h a.name).mpr (List.mem_map_of_mem ha)
      have hoffers : ¬ ¬ (true ∧ model.Reaches (.particle ⟨n⟩) (.leaf a.name)
          ∨ ∃ child ∈ Content.nodes (n + 1) children, model.Offers child a.name) :=
        not_not.mpr (.inl ⟨rfl, hreaches⟩)
      rw [Content.placed, Content.presentAll, List.mem_filter]
      exact ⟨fun hplaced => .inl hplaced.2, fun hor => ⟨ha, hor.resolve_right hoffers⟩⟩
    | all => exact absurd rfl hkind

theorem mem_placedAll_iff (contents : List Content) {n : Nat} (h : Carries model n contents)
    (hkinds : some .all ∉ contents.map Content.kind?) {a : Attribute}
    (ha : a ∈ Content.leavesAll contents) :
    a ∈ Content.placedAll inst contents
      ↔ a.isPresent inst ∨ ¬ ∃ node ∈ Content.nodes n contents, model.Offers node a.name := by
  cases contents with
  | nil => cases ha
  | cons content rest =>
    rw [List.map_cons, List.mem_cons, not_or] at hkinds
    rw [Content.placedAll, List.mem_append, Content.nodes_cons_node, List.exists_mem_cons_iff, not_or]
    rw [Content.leavesAll_cons, List.mem_append] at ha
    -- No two leaves share a name, so the trees that do not hold the leaf neither place nor offer it.
    rcases ha with ha | ha
    . have hname := h.disjoint ha
      have hplaced : a ∉ Content.placedAll inst rest := fun hmem =>
        hname (List.mem_map_of_mem ((Content.placedAll_sublist rest).subset hmem))
      have hoffers : ¬ ∃ node ∈ Content.nodes (n + content.size) rest,
          model.Offers node a.name := by
        rintro ⟨node, hnode, hoffers⟩
        exact hname ((reaches_nodes_iff rest h.tail a.name).mp ⟨node, hnode, hoffers.reaches⟩)
      rw [mem_placed_iff content h.head (Ne.symm hkinds.1) ha]
      simp only [hplaced, hoffers, or_false, not_false_eq_true, and_true]
    . have hname : a.name ∉ content.leaves.map (·.name) := by
        rw [List.mem_map]
        rintro ⟨b, hb, heq⟩
        exact h.disjoint hb (heq ▸ List.mem_map_of_mem ha)
      have hplaced : a ∉ content.placed inst := fun hmem =>
        hname (List.mem_map_of_mem ((Content.placed_sublist content).subset hmem))
      have hoffers : ¬ model.Offers (content.node n) a.name := fun hoffers =>
        hname ((reaches_node_iff content h.head a.name).mp hoffers.reaches)
      rw [mem_placedAll_iff rest h.tail hkinds.2 ha]
      simp only [hplaced, hoffers, false_or, not_false_eq_true, true_and]

end

/--
Wherever a visit starts, it adds to the tally the attributes at or below the node that are present.
Unless the node is an all, it adds to an order those of them that no choice at or below the node
offers, together with the present ones. The node is taken when the visit adds to the tally. No visit of
a pass hands an order to an all.
-/
structure Accumulates (model : Model) (inst : Instance) (anchor : Anchor) : Prop where
  visits : ∀ node, model.Finds node → ∀ caller inChoice ledger progress,
    ∃ present placed failures after taken asked,
      (∀ depth, model.particles.length ≤ depth →
          visit model inst anchor depth caller inChoice ledger node progress
            = some ((ledger.add present placed, failures), after))
        ∧ (∀ depth, model.particles.length ≤ depth →
          isTaken model inst depth caller node progress = some (taken, asked))
        ∧ model.Lists present (fun a => model.Reaches node (.leaf a.name) ∧ a.isPresent inst)
        ∧ (¬ model.IsAll node → model.Lists placed fun a => model.Reaches node (.leaf a.name)
            ∧ (a.isPresent inst ∨ ¬ model.Offers node a.name))
        ∧ (taken = true ↔ present ≠ [])
  unordered : ∃ steps, (∀ depth, model.particles.length ≤ depth →
      validate model inst anchor depth {}
        = some ((), ⟨validationEvents model.content inst anchor, steps⟩))
    ∧ ∀ caller id, .enters caller id true ∈ steps → ¬ model.IsAll (.particle id)

end Table

open Table in
theorem Declaration.accumulates_of_build {declaration : Declaration} {model : Model}
    (h : declaration.build.value = .ok model) (inst : Instance) (anchor : Anchor) :
    Accumulates model inst anchor := by
  have hcarries := carries_of_build h
  constructor
  case visits =>
    intro node hnode caller inChoice ledger progress
    rcases exists_carries hcarries hnode with ⟨n, content, rfl, hcontent⟩
    let v := content.visit inst anchor ledger.order.isSome inChoice n
    have hnested : content.WellNested := hcontent.nested.1
    have hpresent : v.present = content.leaves.filter (·.isPresent inst) :=
      Content.present_visit content hnested _ inChoice n
    have hplaced : v.placed = content.placed inst := Content.placed_visit content hnested _ inChoice n
    rcases exists_visit_eq_some hcontent inst anchor caller inChoice ledger progress
      with ⟨after, hvisit⟩
    rcases exists_isTaken_eq_some hcontent inst caller progress with ⟨asked, htaken⟩
    refine ⟨v.present, v.placed, v.pending, after, _, asked, hvisit, htaken, ?_, ?_, ?_⟩
    . rw [hpresent]
      apply hcontent.lists (List.filter_sublist)
      intro a ha
      rw [List.mem_filter, and_iff_right ha]
    . intro hall
      rw [hcontent.isAll_iff] at hall
      rw [hplaced]
      apply hcontent.lists (Content.placed_sublist content)
      intro a ha
      exact mem_placed_iff content hcontent hall ha
    . rw [hpresent, Content.isTaken, List.any_eq_true, ne_eq, List.filter_eq_nil_iff]
      simp
  case unordered =>
    rcases exists_validate_eq_some hcarries inst anchor with ⟨steps, hrun, hsteps, _⟩
    refine ⟨steps, hrun, ?_⟩
    rintro caller id hmem ⟨id', row, heq, hrow, hkind⟩
    cases heq
    exact (hsteps _ hmem).unordered caller id rfl row hrow hkind

/--
In a purchase that is paid in cash, the sequence below the choice has a place for the item, which is
absent, and for the cash, but none for the card.
-/
theorem accumulates_purchase :
    let model := Declaration.purchase.model
    let inst := model.newInstance.set "cash" (toValue "5")
    let names (ledger : Table.Ledger) : List String × Option (List String) :=
      (ledger.tally.map (·.name), ledger.order.map (·.map (·.name)))
    Declaration.purchase.build.value = .ok model
      ∧ Table.Accumulates model inst .lenient
      ∧ (Table.visit model inst .lenient 3 none false ⟨[], some []⟩ (.particle ⟨1⟩) {}).map
            (fun result => names result.1.1)
          = some (["cash"], some ["item", "cash"]) := by
  intro model inst names
  have hbuild : Declaration.purchase.build.value = .ok model := rfl
  exact ⟨hbuild, Declaration.accumulates_of_build hbuild inst .lenient, by decide⟩

end ContentModel
