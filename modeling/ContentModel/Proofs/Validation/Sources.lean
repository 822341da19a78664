import Mathlib.Data.List.Forall2
import Mathlib.Data.List.Nodup
import Mathlib.Data.List.Perm.Subperm
import ContentModel.Proofs.Forest
import ContentModel.Proofs.Validation.Report

/-!
This module contains the order of the failures of an instance and where each of them comes from: a
collection, a choice, an all, or a sequence that is a root or stands directly in a root group. No
source has more than one failure, and what comes from one root does not depend on the others.
-/

namespace ContentModel

/--
The failures come from different members of a list, in the order of the list.
-/
def Stems {α : Type} (gives : α → Failure → Prop) (sources : List α) (failures : List Failure) :
    Prop :=
  ∃ chosen, chosen.Sublist sources ∧ List.Forall₂ gives chosen failures

/--
The failure is the one that the item count of the collection has.
-/
def Attribute.Gives (inst : Instance) (a : Attribute) : Failure → Prop
  | .collectionCountOutOfRange name count occurs =>
    a.isCollection = true ∧ name = a.name ∧ count = inst.occurrences a.name ∧ occurs = a.occurs
  | _ => False

/--
A particle that failures come from, with its row in the listing of the model.
-/
structure Source where
  row : Particle
  children : List Content

/--
The failure says of the instance what the particle has to say. A failure of a sequence is told from
those of other sequences by the leaf it expects.
-/
def Source.Gives (inst : Instance) (source : Source) : Failure → Prop
  | .invalidChoice matched =>
    source.row.kind.isChoice = true
      ∧ matched = (Content.presentAll inst source.children).map (·.name)
  | .outOfRangeChoice matched count min max =>
    source.row.kind = .choice (.between min max)
      ∧ matched = (Content.presentAll inst source.children).map (·.name)
      ∧ count = Content.matchCount inst source.children
  | .incompleteAll missing =>
    source.row.kind = .all
      ∧ missing = ((source.children.filterMap Content.leaf?).filter fun a =>
          !a.isPresent inst && !a.isOptional).map (·.name)
  | .incorrectSequence expected _ =>
    source.row.kind = .sequence ∧ expected ∈ (Content.leavesAll source.children).map (·.name)
  | .collectionCountOutOfRange .. => False

namespace Content

mutual

/--
The particles of a tree in post-order, numbered as in its listing.
-/
def postorder (parent : Option ParticleId) (n : Nat) : Content → List Source
  | .leaf _ => []
  | .particle kind children =>
    postorderAll (some ⟨n⟩) (n + 1) children
      ++ [⟨⟨⟨n⟩, kind, nodes (n + 1) children, parent⟩, children⟩]
termination_by structural content => content

def postorderAll (parent : Option ParticleId) (n : Nat) : List Content → List Source
  | [] => []
  | content :: rest => content.postorder parent n ++ postorderAll parent (n + content.size) rest
termination_by structural contents => contents

end

/--
The trees of a row, each with its number.
-/
def trees (n : Nat) : List Content → List (ParticleId × Content)
  | [] => []
  | .leaf _ :: rest => trees n rest
  | .particle kind children :: rest =>
    (⟨n⟩, .particle kind children) :: trees (n + (Content.particle kind children).size) rest

/--
The choices and alls of a root in post-order.
-/
def judges (root : ParticleId × Content) : List Source :=
  (root.2.postorder none root.1.index).filter fun source =>
    source.row.kind.isChoice || source.row.kind == .all

/--
The sequence that is the root, or the sequences that stand directly in a root that is a group.
-/
def ordered (root : ParticleId × Content) : List Source :=
  (root.2.postorder none root.1.index).filter fun source =>
    source.row.kind == .sequence
      && source.row.parent == if root.2.kind? == some .group then some root.1 else none

end Content

/--
What an instance has from one root: failures of its choices and alls, followed by those of its
sequences. They are the ones that the root has where it stands alone.
-/
structure Part (inst : Instance) (anchor : Anchor) (root : ParticleId × Content)
    (part : List Failure) : Prop where
  split : ∃ judged disordered, part = judged ++ disordered
    ∧ Stems (Source.Gives inst) (Content.judges root) judged
    ∧ Stems (Source.Gives inst) (Content.ordered root) disordered
  alone : part = Event.failures (Content.visitRoots inst anchor 0 [root.2])

namespace Model

def trees (model : Model) : List (ParticleId × Content) := Content.trees 0 model.content

def sources (model : Model) : List Source :=
  model.trees.flatMap fun root => Content.judges root ++ Content.ordered root

/--
The failures of an instance stand in order: those of the collections first, then root by root.
-/
structure Arranged (model : Model) (inst : Instance) (anchor : Anchor) (failures : List Failure) :
    Prop where
  roots : model.trees.map Prod.fst = model.roots
  collections : (model.attributes.map (·.name)).Nodup
  rows : model.sources.map (·.row) ⊆ model.particles
  distinct : (model.sources.map (·.row.id)).Nodup
  ordered : ∀ source ∈ model.sources, source.row.kind = .sequence →
    source.row.parent = none
      ∨ ∃ outer ∈ model.particles,
          source.row.parent = some outer.id ∧ outer.kind = .group ∧ outer.parent = none
  parts : ∃ counts parts, failures = counts ++ parts.flatten
    ∧ Stems (Attribute.Gives inst) (model.attributes.filter (·.isCollection)) counts
    ∧ List.Forall₂ (Part inst anchor) model.trees parts

end Model

namespace Stems

variable {α : Type} {gives : α → Failure → Prop}

theorem append {sources sources' : List α} {failures failures' : List Failure}
    (h : Stems gives sources failures) (h' : Stems gives sources' failures') :
    Stems gives (sources ++ sources') (failures ++ failures') := by
  rcases h with ⟨chosen, hsublist, hgives⟩
  rcases h' with ⟨chosen', hsublist', hgives'⟩
  refine ⟨chosen ++ chosen', ?_, ?_⟩
  . apply List.Sublist.append hsublist hsublist'
  . apply List.rel_append hgives hgives'

theorem nil (sources : List α) : Stems gives sources [] := by
  refine ⟨[], ?_, ?_⟩
  . apply List.nil_sublist
  . apply List.Forall₂.nil

theorem singleton {source : α} {failure? : Option Failure}
    (h : ∀ failure, failure? = some failure → gives source failure) :
    Stems gives [source] failure?.toList := by
  cases failure? with
  | none => apply nil
  | some failure =>
    refine ⟨[source], ?_, ?_⟩
    . apply List.Sublist.refl
    . apply List.Forall₂.cons (h failure rfl) .nil

theorem filterMap {sources : List α} {f : α → Option Failure}
    (h : ∀ source ∈ sources, ∀ failure, f source = some failure → gives source failure) :
    Stems gives sources (sources.filterMap f) := by
  induction sources with
  | nil => apply nil
  | cons source rest ih =>
    rw [List.forall_mem_cons] at h
    rw [filterMap_cons_eq_append]
    apply append (singleton h.1) (ih h.2)

end Stems

namespace Content

mutual

theorem perm_postorder (content : Content) (parent : Option ParticleId) (n : Nat) :
    ((content.postorder parent n).map (·.row)).Perm (content.listing parent n) := by
  cases content with
  | leaf a => apply List.Perm.refl
  | particle kind children =>
    rw [postorder, listing, List.map_append, List.map_singleton]
    apply List.Perm.trans (List.perm_append_singleton _ _)
    apply List.Perm.cons
    apply perm_postorderAll

theorem perm_postorderAll (contents : List Content) (parent : Option ParticleId) (n : Nat) :
    ((postorderAll parent n contents).map (·.row)).Perm (listingAll parent n contents) := by
  cases contents with
  | nil => apply List.Perm.refl
  | cons content rest =>
    rw [postorderAll, listingAll, List.map_append]
    apply List.Perm.append
    . apply perm_postorder
    . apply perm_postorderAll

end

variable {inst : Instance} {anchor : Anchor}

theorem gives_of_choiceFailure? {range : ChoiceRange} {inChoice : Bool} {branches : List Content}
    {failure : Failure} (h : choiceFailure? inst anchor range inChoice branches = some failure)
    {row : Particle} (hkind : row.kind = .choice range) :
    Source.Gives inst ⟨row, branches⟩ failure := by
  rcases choiceFailure?_eq_some h with ⟨heq, _⟩ | ⟨min, max, hrange, _, heq⟩
  . simp [heq, Source.Gives, hkind, ParticleKind.isChoice]
  . simp [heq, Source.Gives, hkind, hrange]

theorem gives_of_allFailure? {children : List Content} {failure : Failure}
    (h : allFailure? inst children = some failure) {row : Particle} (hkind : row.kind = .all) :
    Source.Gives inst ⟨row, children⟩ failure := by
  rw [(allFailure?_eq_some h).2]
  exact ⟨hkind, rfl⟩

theorem gives_of_orderFailure? {children : List Content} {failure : Failure}
    (h : orderFailure? inst anchor children = some failure) {row : Particle}
    (hkind : row.kind = .sequence) : Source.Gives inst ⟨row, children⟩ failure := by
  rcases orderFailure?_eq_some h with ⟨expected, found, heq, hbroken⟩
  rcases checkOrder_eq_broken hbroken with ⟨_, _, hexpected, _⟩
  rw [heq]
  refine ⟨hkind, ?_⟩
  apply ((placedAll_sublist children).map _).subset hexpected

mutual

theorem stems_report (content : Content) (inChoice : Bool) (parent : Option ParticleId) (n : Nat) :
    Stems (Source.Gives inst)
      ((content.postorder parent n).filter fun source =>
        source.row.kind.isChoice || source.row.kind == .all)
      (content.report inst anchor inChoice) := by
  cases content with
  | leaf a => apply Stems.nil
  | particle kind children =>
    rw [postorder, List.filter_append]
    cases kind with
    | sequence =>
      rw [report_sequence, ← List.append_nil (reportAll _ _ _ _)]
      apply Stems.append
      . apply stems_reportAll
      . apply Stems.nil
    | choice range =>
      rw [report]
      apply Stems.append
      . apply stems_reportAll
      . apply Stems.singleton
        intro failure h
        apply gives_of_choiceFailure? h rfl
    | group =>
      rw [report_group, ← List.append_nil (reportAll _ _ _ _)]
      apply Stems.append
      . apply stems_reportAll
      . apply Stems.nil
    | all =>
      rw [report, ← List.nil_append (Option.toList _)]
      apply Stems.append
      . apply Stems.nil
      . apply Stems.singleton
        intro failure h
        apply gives_of_allFailure? h rfl

theorem stems_reportAll (contents : List Content) (inChoice : Bool) (parent : Option ParticleId)
    (n : Nat) :
    Stems (Source.Gives inst)
      ((postorderAll parent n contents).filter fun source =>
        source.row.kind.isChoice || source.row.kind == .all)
      (reportAll inst anchor inChoice contents) := by
  cases contents with
  | nil => apply Stems.nil
  | cons content rest =>
    rw [postorderAll, List.filter_append, reportAll]
    apply Stems.append
    . apply stems_report
    . apply stems_reportAll

end

theorem filter_postorderAll_eq_nil (children : List Content) {outer : Option ParticleId} {n : Nat}
    (h : ∀ id, outer = some id → id.index < n) :
    (postorderAll (some ⟨n⟩) (n + 1) children).filter
        (fun source => source.row.kind == .sequence && source.row.parent == outer)
      = [] := by
  rw [List.filter_eq_nil_iff]
  intro source hmem hsource
  have hrow : source.row ∈ listingAll (some ⟨n⟩) (n + 1) children := by
    rw [← (perm_postorderAll children (some ⟨n⟩) (n + 1)).mem_iff]
    apply List.mem_map_of_mem hmem
  rcases parent_listingAll children (Nat.le_succ n) hrow with ⟨id, hparent, hle⟩
  simp only [Bool.and_eq_true, beq_iff_eq] at hsource
  have hlt := h id (hsource.2.symm.trans hparent)
  apply Nat.not_le_of_lt hlt hle

theorem stems_sequences (contents : List Content) {n m : Nat} (hlt : n < m) :
    Stems (Source.Gives inst)
      ((postorderAll (some ⟨n⟩) m contents).filter fun source =>
        source.row.kind == .sequence && source.row.parent == some ⟨n⟩)
      ((contents.filterMap sequence?).filterMap (orderFailure? inst anchor)) := by
  induction contents generalizing m with
  | nil => apply Stems.nil
  | cons content rest ih =>
    have hrest := ih (Nat.lt_of_lt_of_le hlt (Nat.le_add_right m content.size))
    rw [postorderAll, List.filter_append]
    cases content with
    | leaf a => apply hrest
    | particle kind children =>
      -- Nothing below the particle stands directly in the group.
      have hbelow : (postorderAll (some ⟨m⟩) (m + 1) children).filter
          (fun source => source.row.kind == .sequence && source.row.parent == some ⟨n⟩) = [] := by
        apply filter_postorderAll_eq_nil
        intro id heq
        rw [← Option.some.inj heq]
        exact hlt
      rw [postorder, List.filter_append, hbelow, List.nil_append]
      by_cases hkind : kind = .sequence
      . rw [hkind, List.filter_cons_of_pos (by simp)]
        rw [List.filterMap_cons_some (by rfl), filterMap_cons_eq_append]
        apply Stems.append _ hrest
        apply Stems.singleton
        intro failure h
        apply gives_of_orderFailure? h rfl
      . have hnone : (particle kind children).sequence? = none := by
          cases kind <;> simp_all [sequence?]
        rw [List.filter_cons_of_neg (by simp [hkind]), List.filterMap_cons_none hnone]
        apply hrest

theorem ordered_sequence (children : List Content) (n : Nat) :
    ordered (⟨n⟩, .particle .sequence children)
      = [⟨⟨⟨n⟩, .sequence, nodes (n + 1) children, none⟩, children⟩] := by
  unfold ordered
  dsimp only
  rw [postorder, List.filter_append, List.filter_cons_of_pos (by simp [kind?])]
  rw [kind?, filter_postorderAll_eq_nil children (by simp)]
  rfl

theorem stems_orderFailures (content : Content) (n : Nat) :
    Stems (Source.Gives inst) (ordered (⟨n⟩, content)) (content.orderFailures inst anchor) := by
  cases content with
  | leaf a => apply Stems.nil
  | particle kind children =>
    cases kind with
    | sequence =>
      rw [ordered_sequence, orderFailures_sequence]
      apply Stems.singleton
      intro failure h
      apply gives_of_orderFailure? h rfl
    | choice range => apply Stems.nil
    | group =>
      unfold ordered
      dsimp only
      rw [postorder, List.filter_append, List.filter_cons_of_neg (by simp), List.filter_nil]
      rw [List.append_nil]
      apply stems_sequences children (Nat.lt_succ_self n)
    | all => apply Stems.nil

theorem mem_of_mem_trees {contents : List Content} {n : Nat} {root : ParticleId × Content}
    (h : root ∈ trees n contents) : root.2 ∈ contents := by
  induction contents generalizing n with
  | nil => cases h
  | cons content rest ih =>
    cases content with
    | leaf a => apply List.mem_cons_of_mem _ (ih h)
    | particle kind children =>
      rw [trees, List.mem_cons] at h
      cases h with
      | inl h =>
        rw [h]
        apply List.mem_cons_self
      | inr h => apply List.mem_cons_of_mem _ (ih h)

theorem listingAll_eq_flatMap (contents : List Content) (n : Nat) :
    listingAll none n contents
      = (trees n contents).flatMap fun root => root.2.listing none root.1.index := by
  induction contents generalizing n with
  | nil => rfl
  | cons content rest ih =>
    rw [listingAll, ih]
    cases content with
    | leaf a => rfl
    | particle kind children => rfl

theorem flatMap_trees {f : Content → List Failure} (hleaf : ∀ a, f (.leaf a) = [])
    (contents : List Content) (n : Nat) :
    contents.flatMap f = ((trees n contents).map fun root => f root.2).flatten := by
  induction contents generalizing n with
  | nil => rfl
  | cons content rest ih =>
    cases content with
    | leaf a => simp [trees, hleaf, ← ih]
    | particle kind children => simp [trees, ← ih]

theorem map_fst_trees (contents : List Content) (n : Nat) :
    (trees n contents).map Prod.fst = (nodes n contents).filterMap Node.particle? := by
  induction contents generalizing n with
  | nil => rfl
  | cons content rest ih =>
    cases content with
    | leaf a =>
      rw [trees, nodes, List.filterMap_cons_none (by rfl), ih]
    | particle kind children =>
      rw [trees, nodes, List.filterMap_cons_some (by rfl), List.map_cons, ih]

theorem subperm_listing (root : ParticleId × Content) :
    ((judges root ++ ordered root).map (·.row)).Subperm
      (root.2.listing none root.1.index) := by
  have hordered : (ordered root).Sublist ((root.2.postorder none root.1.index).filter fun source =>
      !(source.row.kind.isChoice || source.row.kind == .all)) := by
    apply List.monotone_filter_right
    intro source hsource
    simp only [Bool.and_eq_true, beq_iff_eq] at hsource
    simp [hsource.1, ParticleKind.isChoice]
  have hsources : (judges root ++ ordered root).Subperm (root.2.postorder none root.1.index) := by
    apply List.Subperm.trans ((List.Sublist.refl _).append hordered).subperm
    apply (List.filter_append_perm _ _).subperm
  have hrows := (perm_postorder root.2 none root.1.index).subperm
  rcases hsources with ⟨chosen, hperm, hsublist⟩
  apply List.Subperm.trans _ hrows
  exact ⟨chosen.map (·.row), hperm.map _, hsublist.map _⟩

end Content

theorem subperm_flatMap {α β : Type} {f g : α → List β} {list : List α}
    (h : ∀ a, (f a).Subperm (g a)) : (list.flatMap f).Subperm (list.flatMap g) := by
  induction list with
  | nil => apply List.Subperm.refl
  | cons a rest ih => apply (h a).append ih

namespace Model

variable {model : Model}

theorem subperm_sources : (model.sources.map (·.row)).Subperm model.particles := by
  unfold sources particles
  rw [Content.listingAll_eq_flatMap, List.map_flatMap]
  apply subperm_flatMap Content.subperm_listing

theorem nodup_sources : (model.sources.map (·.row.id)).Nodup := by
  have hparticles : (model.particles.map (·.id)).Nodup := by
    apply List.Nodup.of_map ParticleId.index
    rw [List.map_map]
    change (model.particles.map (·.id.index)).Nodup
    unfold particles
    rw [Content.map_index_listingAll]
    exact List.nodup_range'
  have hsubperm : (model.sources.map (·.row)).Subperm model.particles := subperm_sources
  rcases hsubperm with ⟨rows, hperm, hsublist⟩
  have hids : ((model.sources.map (·.row)).map (·.id)).Nodup := by
    rw [← (hperm.map _).nodup_iff]
    apply (hsublist.map _).nodup hparticles
  rw [List.map_map] at hids
  exact hids

theorem mem_particles_of_mem_trees {id : ParticleId} {kind : ParticleKind}
    {children : List Content} (h : (id, .particle kind children) ∈ model.trees) :
    ⟨id, kind, Content.nodes (id.index + 1) children, none⟩ ∈ model.particles := by
  unfold particles
  rw [Content.listingAll_eq_flatMap, List.mem_flatMap]
  exact ⟨_, h, List.mem_cons_self⟩

theorem parent_of_mem_sources {source : Source} (h : source ∈ model.sources)
    (hkind : source.row.kind = .sequence) :
    source.row.parent = none
      ∨ ∃ outer ∈ model.particles,
          source.row.parent = some outer.id ∧ outer.kind = .group ∧ outer.parent = none := by
  unfold sources at h
  rw [List.mem_flatMap] at h
  rcases h with ⟨⟨id, content⟩, hroot, hsource⟩
  rw [List.mem_append] at hsource
  cases hsource with
  | inl hsource =>
    unfold Content.judges at hsource
    rw [List.mem_filter] at hsource
    simp [hkind, ParticleKind.isChoice] at hsource
  | inr hsource =>
    unfold Content.ordered at hsource
    rw [List.mem_filter] at hsource
    simp only [Bool.and_eq_true, beq_iff_eq] at hsource
    rcases hsource with ⟨_, _, hparent⟩
    split at hparent
    next hgroup =>
      cases content with
      | leaf a => cases hgroup
      | particle kind children =>
        cases hgroup
        exact .inr ⟨_, mem_particles_of_mem_trees hroot, hparent, rfl, rfl⟩
    next => exact .inl hparent

theorem part_of_mem_trees (hnested : Content.WellNestedAll model.content) {inst : Instance}
    {anchor : Anchor} {root : ParticleId × Content} (h : root ∈ model.trees) :
    Part inst anchor root
      (root.2.report inst anchor false ++ root.2.orderFailures inst anchor) := by
  have hroot : Content.WellNestedAll [root.2] := by
    rw [Content.wellNestedAll_iff] at hnested
    refine ⟨hnested _ (Content.mem_of_mem_trees h), trivial⟩
  constructor
  case split =>
    refine ⟨_, _, rfl, ?_, ?_⟩
    . apply Content.stems_report
    . apply Content.stems_orderFailures
  case alone =>
    rw [Content.failures_visitRoots _ hroot, List.flatMap_singleton]

theorem gives_of_countFailure? {a : Attribute} {inst : Instance} {failure : Failure}
    (h : a.countFailure? inst = some failure) : a.Gives inst failure := by
  rcases Attribute.countFailure?_eq_some h with ⟨hcollection, _, heq⟩
  rw [heq]
  exact ⟨hcollection, rfl, rfl, rfl⟩

theorem stems_counts (attributes : List Attribute) (inst : Instance) :
    Stems (Attribute.Gives inst) (attributes.filter (·.isCollection))
      (attributes.filterMap (·.countFailure? inst)) := by
  have hcollections : (attributes.filter (·.isCollection)).filterMap (·.countFailure? inst)
      = attributes.filterMap (·.countFailure? inst) := by
    rw [List.filterMap_filter]
    apply List.filterMap_congr
    intro a _
    cases hcollection : a.isCollection with
    | true => rfl
    | false => simp [Attribute.countFailure?, hcollection]
  rw [← hcollections]
  apply Stems.filterMap
  intro a _ failure h
  apply gives_of_countFailure? h

theorem arranged_validate (hnested : Content.WellNestedAll model.content)
    (hdistinct : (model.attributes.map (·.name)).Nodup) (inst : Instance) (anchor : Anchor) :
    model.Arranged inst anchor (model.validate inst anchor).value := by
  constructor
  case roots => apply Content.map_fst_trees
  case collections => exact hdistinct
  case rows => apply subperm_sources.subset
  case distinct => apply nodup_sources
  case ordered =>
    intro source hsource hkind
    apply parent_of_mem_sources hsource hkind
  case parts =>
    let part (content : Content) : List Failure :=
      content.report inst anchor false ++ content.orderFailures inst anchor
    refine ⟨model.attributes.filterMap (·.countFailure? inst),
      model.trees.map fun root => part root.2, ?_, ?_, ?_⟩
    . rw [value_validate hnested]
      congr 1
      apply Content.flatMap_trees
      intro a
      rfl
    . apply stems_counts
    . rw [List.forall₂_map_right_iff, List.forall₂_same]
      intro root hroot
      apply part_of_mem_trees hnested hroot

end Model

/--
The failures of an instance stand in order, at most one from each source, and what comes from a root
is what the root has alone.
-/
theorem Declaration.validate_arranged {declaration : Declaration} {model : Model}
    (h : declaration.build.value = .ok model) (inst : Instance) (anchor : Anchor) :
    model.Arranged inst anchor (model.validate inst anchor).value := by
  apply Model.arranged_validate (wellNested_of_build h) (distinct_of_build h)

/--
A letter with an address line, a body with its place and date in a group, and two marks.
-/
def Declaration.letter : Declaration where
  name := "Letter"
  kind := .model
  items := [
    .block (.particle .sequence [
      .leaf ⟨"from", .string, .one⟩,
      .leaf ⟨"to", .string, .collection ⟨1, some 2⟩⟩]),
    .block (.particle .group [
      .particle (.choice none) [
        .leaf ⟨"body", .string, .one⟩,
        .leaf ⟨"scan", .string, .one⟩],
      .particle .sequence [
        .leaf ⟨"place", .string, .optional⟩,
        .leaf ⟨"date", .string, .one⟩]]),
    .block (.particle .all [
      .leaf ⟨"seal", .string, .one⟩,
      .leaf ⟨"signature", .string, .one⟩])]

theorem arranged_letter :
    let inst := ((Declaration.letter.model.newInstance).set "from" (toValue "A")).set "seal"
      (toValue "S")
    let ordered := { inst with order := some ⟨["seal", "from", "date", "place"], false⟩ }
    Declaration.letter.model.Arranged ordered .strict [
      .collectionCountOutOfRange "to" 0 ⟨1, some 2⟩,
      .incorrectSequence "to" none,
      .invalidChoice [],
      .incorrectSequence "date" none,
      .incompleteAll ["signature"]] := by
  intro inst ordered
  have hbuild : Declaration.letter.build.value = .ok Declaration.letter.model := rfl
  have hfailures : (Declaration.letter.model.validate ordered .strict).value = [
      .collectionCountOutOfRange "to" 0 ⟨1, some 2⟩,
      .incorrectSequence "to" none,
      .invalidChoice [],
      .incorrectSequence "date" none,
      .incompleteAll ["signature"]] := by
    decide
  rw [← hfailures]
  apply Declaration.validate_arranged hbuild ordered .strict

end ContentModel
