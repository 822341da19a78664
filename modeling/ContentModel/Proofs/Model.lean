import ContentModel.Proofs.Declaration.Acceptance

/-!
This module contains what holds of every model that a declaration makes: its content is what the
blocks ask for, it keeps the rules of nesting at every depth, and no two attributes share a name.
-/

namespace ContentModel

namespace Block

mutual

theorem wellNested_content (block : Block) (h : block.Sound) : block.content.WellNested := by
  cases block with
  | leaf a => trivial
  | particle kind children =>
    rw [Sound] at h
    rw [content, Content.WellNested, map_kind?_contentAll]
    exact ⟨h.2.1, wellNestedAll_contentAll children h.2.2⟩

theorem wellNestedAll_contentAll (blocks : List Block) (h : SoundAll blocks) :
    Content.WellNestedAll (contentAll blocks) := by
  cases blocks with
  | nil => trivial
  | cons block rest => exact ⟨wellNested_content block h.1, wellNestedAll_contentAll rest h.2⟩

end

end Block

namespace Declaration

variable {declaration : Declaration} {model : Model}

theorem acceptable_of_build (h : declaration.build.value = .ok model) :
    declaration.Acceptable := by
  rw [build_eq_ok_iff] at h
  exact acceptable_of_noError h.1

theorem noError_blocks_of_build (h : declaration.build.value = .ok model) :
    Problem.NoError (Block.elaborateAll .top declaration.blocks).2 := by
  rw [build_eq_ok_iff, problems, Problem.noError_append, noError_problems_draft_iff] at h
  exact h.1.1.1

theorem content_of_build (h : declaration.build.value = .ok model) :
    model.content = Block.contentAll declaration.blocks := by
  have hblocks := noError_blocks_of_build h
  rw [build_eq_ok_iff] at h
  rw [h.2, Declaration.model, content_draft]
  exact Block.elaborateAll_of_noError _ _ hblocks

theorem attributes_of_build (h : declaration.build.value = .ok model) :
    model.attributes = declaration.attributes := by
  rw [Model.attributes, content_of_build h, Block.leavesAll_contentAll]
  rfl

theorem wellNested_of_build (h : declaration.build.value = .ok model) :
    Content.WellNestedAll model.content := by
  have hblocks := noError_blocks_of_build h
  rw [noError_blocks_iff] at hblocks
  rw [content_of_build h]
  exact Block.wellNestedAll_contentAll _ hblocks.1

theorem distinct_of_build (h : declaration.build.value = .ok model) :
    (model.attributes.map (·.name)).Nodup := by
  rw [attributes_of_build h]
  exact (acceptable_of_build h).distinct

end Declaration

end ContentModel
