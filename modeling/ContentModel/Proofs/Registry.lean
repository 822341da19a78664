import Mathlib.Data.List.Basic
import Mathlib.Data.List.Induction
import ContentModel.Registry
import ContentModel.Proofs.Declaration.Mappings

/-!
This module contains what a registry knows after any number of declarations were registered: of each
name the first model that was built, for good.
-/

namespace ContentModel

/--
The model that the declaration builds, if it is accepted.
-/
def Declaration.built? (declaration : Declaration) : Option Model :=
  declaration.build.value.toOption

namespace Registry

variable {registry : Registry} {declaration : Declaration} {model : Model} {name : String}

/--
The registry after a declaration was registered; a call that fails leaves it as it is.
-/
def after (registry : Registry) (declaration : Declaration) : Registry :=
  match (registry.register declaration).value with
  | .ok next => next
  | .error _ => registry

/--
The registry after declarations were registered one after the other.
-/
def run (registry : Registry) (declarations : List Declaration) : Registry :=
  declarations.foldl after registry

/--
Of each name the first of the models.
-/
def firsts (models : List Model) : List Model :=
  (models.map (·.name)).eraseDups.filterMap fun name => models.find? (·.name == name)

/--
What is asked of the registry under the name of the model is answered by the model, in the given
configuration.
-/
structure Answers (registry : Registry) (config : Config) (model : Model) : Prop where
  validate : ∀ inst, inst.model = model.name →
    (registry.validate inst).value = .ok (model.validate inst config.anchor).value
  validateStrict : ∀ inst, inst.model = model.name →
    (registry.validateStrict inst).value
      = match (model.validate inst config.anchor).value with
        | [] => .ok ()
        | failures => .error (.validation ⟨failures⟩)
  toDocument : ∀ format inst, inst.model = model.name →
    (registry.toDocument format inst).value
      = (model.toDocument format inst config.renderNil).value.mapError .mapping
  fromDocument : ∀ format doc,
    (registry.fromDocument format model.name doc).value
      = (model.fromDocument format doc).value.mapError .mapping

/--
What is asked of the registry under the name is refused.
-/
structure Lacks (registry : Registry) (name : String) : Prop where
  validate : ∀ inst, inst.model = name →
    (registry.validate inst).value = .error (.unknownModel name)
  validateStrict : ∀ inst, inst.model = name →
    (registry.validateStrict inst).value = .error (.unknownModel name)
  toDocument : ∀ format inst, inst.model = name →
    (registry.toDocument format inst).value = .error (.unknownModel name)
  fromDocument : ∀ format doc,
    (registry.fromDocument format name doc).value = .error (.unknownModel name)

/--
The outcome of registering the declaration, and the registry after it: what the declaration gets
wrong comes before a name that is taken, and a call that fails changes nothing.
-/
structure Takes (registry : Registry) (declaration : Declaration) : Prop where
  refused : ∀ e, declaration.build.value = .error e →
    (registry.register declaration).value = .error (.declaration e)
      ∧ registry.after declaration = registry
  repeated : ∀ model, declaration.build.value = .ok model →
    model.name ∈ registry.models.map (·.name) →
      (registry.register declaration).value = .error (.duplicateModel model.name)
        ∧ registry.after declaration = registry
  added : ∀ model, declaration.build.value = .ok model →
    model.name ∉ registry.models.map (·.name) →
      (registry.register declaration).value = .ok (registry.after declaration)
        ∧ (registry.after declaration).models = registry.models ++ [model]

theorem value_register_of_error {e : DeclarationError} (h : declaration.build.value = .error e) :
    (registry.register declaration).value = .error (.declaration e) := by
  rw [register, Logged.value_bind, h]
  rfl

theorem value_register_of_some {other : Model} (h : declaration.build.value = .ok model)
    (htaken : registry.model? model.name = some other) :
    (registry.register declaration).value = .error (.duplicateModel model.name) := by
  rw [register, Logged.value_bind, h]
  dsimp only
  split
  . rfl
  . next hnone =>
    rw [hnone] at htaken
    cases htaken

theorem value_register_of_none (h : declaration.build.value = .ok model)
    (hfree : registry.model? model.name = none) :
    (registry.register declaration).value = .ok (registry.add model hfree) := by
  rw [register, Logged.value_bind, h]
  dsimp only
  split
  . next htaken =>
    rw [hfree] at htaken
    cases htaken
  . rfl

theorem after_of_none (h : declaration.build.value = .ok model)
    (hfree : registry.model? model.name = none) :
    registry.after declaration = registry.add model hfree := by
  rw [after, value_register_of_none h hfree]

theorem takes (registry : Registry) (declaration : Declaration) : registry.Takes declaration := by
  constructor
  case refused =>
    intro e h
    have hvalue : (registry.register declaration).value = _ := value_register_of_error h
    exact ⟨hvalue, by rw [after, hvalue]⟩
  case repeated =>
    intro model h hmem
    cases htaken : registry.model? model.name with
    | none => exact absurd hmem (model?_eq_none_iff.mp htaken)
    | some other =>
      have hvalue := value_register_of_some h htaken
      exact ⟨hvalue, by rw [after, hvalue]⟩
  case added =>
    intro model h hmem
    have hfree := model?_eq_none_iff.mpr hmem
    rw [after_of_none h hfree]
    exact ⟨value_register_of_none h hfree, rfl⟩

theorem answers_of_model? (h : registry.model? model.name = some model) :
    registry.Answers registry.config model := by
  constructor
  case validate =>
    intro inst hname
    rw [validate, withModel, hname, h]
    rfl
  case validateStrict =>
    intro inst hname
    rw [validateStrict, withModel, hname, h]
    dsimp only
    rw [Logged.value_bind, Model.validateStrict, Logged.value_bind]
    cases (model.validate inst registry.config.anchor).value <;> rfl
  case toDocument =>
    intro format inst hname
    rw [toDocument, withModel, hname, h]
    dsimp only
    rw [Logged.value_bind]
    cases (model.toDocument format inst registry.config.renderNil).value <;> rfl
  case fromDocument =>
    intro format doc
    rw [fromDocument, withModel, h]
    dsimp only
    rw [Logged.value_bind]
    cases (model.fromDocument format doc).value <;> rfl

theorem lacks_of_model? (h : registry.model? name = none) : registry.Lacks name := by
  constructor
  case validate =>
    intro inst hname
    rw [validate, withModel, hname, h]
    rfl
  case validateStrict =>
    intro inst hname
    rw [validateStrict, withModel, hname, h]
    rfl
  case toDocument =>
    intro format inst hname
    rw [toDocument, withModel, hname, h]
    rfl
  case fromDocument =>
    intro format doc
    rw [fromDocument, withModel, h]
    rfl

section Firsts

variable (models : List Model)

theorem firsts_concat (model : Model) :
    firsts (models ++ [model])
      = if model.name ∈ models.map (·.name) then firsts models else firsts models ++ [model] := by
  have hfind : ∀ name ∈ (models.map (·.name)).eraseDups,
      (models ++ [model]).find? (·.name == name) = models.find? (·.name == name) := by
    intro name hname
    rw [List.mem_eraseDups] at hname
    rw [List.find?_append, Option.or_of_isSome]
    rw [List.find?_isSome]
    rcases List.mem_map.mp hname with ⟨other, hother, heq⟩
    exact ⟨other, hother, beq_iff_eq.mpr heq⟩
  unfold firsts
  rw [List.map_append, List.map_singleton, eraseDups_concat]
  split
  . apply List.filterMap_congr hfind
  . next hnew =>
    have hnone : models.find? (·.name == model.name) = none := by
      simpa using hnew
    rw [List.filterMap_append, List.filterMap_congr hfind]
    simp [hnone]

theorem map_name_firsts : (firsts models).map (·.name) = (models.map (·.name)).eraseDups := by
  induction models using List.reverseRecOn with
  | nil => rfl
  | append_singleton models model ih =>
    rw [firsts_concat, List.map_append, List.map_singleton, eraseDups_concat]
    split
    . exact ih
    . rw [List.map_append, ih]
      rfl

theorem find?_firsts (name : String) :
    (firsts models).find? (·.name == name) = models.find? (·.name == name) := by
  induction models using List.reverseRecOn with
  | nil => rfl
  | append_singleton models model ih =>
    rw [firsts_concat, List.find?_append]
    split
    . next htaken =>
      rw [ih]
      by_cases hname : model.name = name
      . rw [hname] at htaken
        rcases List.mem_map.mp htaken with ⟨other, hother, heq⟩
        rw [Option.or_of_isSome]
        exact List.find?_isSome.mpr ⟨other, hother, beq_iff_eq.mpr heq⟩
      . simp [hname]
    . rw [List.find?_append, ih]

end Firsts

/--
What registering a declaration can do: nothing, when it is not accepted or its name is taken, or put
its model behind the others.
-/
theorem after_cases (registry : Registry) (declaration : Declaration) :
    (registry.after declaration = registry
        ∧ ∀ model, declaration.built? = some model →
            model.name ∈ registry.models.map (·.name))
      ∨ ∃ model hfree, declaration.built? = some model
        ∧ registry.after declaration = registry.add model hfree := by
  unfold Declaration.built?
  have htakes := registry.takes declaration
  cases hbuild : declaration.build.value with
  | error e => exact .inl ⟨(htakes.refused e hbuild).2, fun _ h => nomatch h⟩
  | ok model =>
    by_cases hmem : model.name ∈ registry.models.map (·.name)
    . refine .inl ⟨(htakes.repeated model hbuild hmem).2, ?_⟩
      rintro model ⟨⟩
      exact hmem
    . have hfree := model?_eq_none_iff.mpr hmem
      exact .inr ⟨model, hfree, rfl, after_of_none hbuild hfree⟩

theorem config_run (registry : Registry) (declarations : List Declaration) :
    (registry.run declarations).config = registry.config := by
  unfold run
  induction declarations generalizing registry with
  | nil => rfl
  | cons declaration rest ih =>
    rw [List.foldl_cons, ih]
    rcases registry.after_cases declaration with ⟨heq, _⟩ | ⟨model, hfree, _, heq⟩
    . rw [heq]
    . rw [heq]
      rfl

theorem models_run (config : Config) (declarations : List Declaration) :
    ((empty config).run declarations).models
      = firsts (declarations.filterMap Declaration.built?) := by
  induction declarations using List.reverseRecOn with
  | nil => rfl
  | append_singleton declarations declaration ih =>
    have hrun : (empty config).run (declarations ++ [declaration])
        = ((empty config).run declarations).after declaration := by
      unfold run
      rw [List.foldl_concat]
    have hmem (name : String) :
        name ∈ ((empty config).run declarations).models.map (·.name)
          ↔ name ∈ (declarations.filterMap Declaration.built?).map (·.name) := by
      rw [ih, map_name_firsts, List.mem_eraseDups]
    rw [hrun, List.filterMap_append]
    rcases after_cases ((empty config).run declarations) declaration
      with ⟨hsame, htaken⟩ | ⟨model, hfree, hbuilt, hadd⟩
    . rw [hsame, ih]
      cases hbuilt : declaration.built? with
      | none => simp [hbuilt]
      | some model =>
        have hname := (hmem model.name).mp (htaken model hbuilt)
        rw [List.filterMap_cons_some hbuilt, List.filterMap_nil, firsts_concat, if_pos hname]
    . have hname := model?_eq_none_iff.mp hfree
      rw [hmem] at hname
      rw [List.filterMap_cons_some hbuilt, List.filterMap_nil, firsts_concat, if_neg hname, ← ih]
      rw [hadd]
      rfl

theorem model?_run (config : Config) (declarations : List Declaration) (name : String) :
    ((empty config).run declarations).model? name
      = (declarations.filterMap Declaration.built?).find? (·.name == name) := by
  rw [model?, models_run, find?_firsts]

/--
Whatever was registered, a registry holds of each name the first model that was built, and answers
for it as the model does, now and after all that is registered later.
-/
theorem serves_run (config : Config) (declarations : List Declaration) :
    let registry := (empty config).run declarations
    let built := declarations.filterMap Declaration.built?
    registry.models = firsts built ∧ (registry.models.map (·.name)).Nodup
      ∧ (∀ declaration, registry.Takes declaration)
      ∧ (∀ name model, built.find? (·.name == name) = some model →
          ∀ later, (registry.run later).Answers config model)
      ∧ ∀ name ∉ built.map (·.name), registry.Lacks name := by
  intro registry built
  refine ⟨models_run config declarations, registry.nodup_names, registry.takes, ?_, ?_⟩
  . intro name model hfind later
    have hname : model.name = name := by
      simpa using List.find?_some hfind
    have hrun : registry.run later = (empty config).run (declarations ++ later) := by
      unfold registry run
      rw [List.foldl_append]
    have hmodel : (registry.run later).model? model.name = some model := by
      rw [hrun, model?_run, List.filterMap_append, List.find?_append, hname, hfind]
      rfl
    have hconfig : (registry.run later).config = config := by
      rw [hrun, config_run]
      rfl
    rw [← hconfig]
    apply answers_of_model? hmodel
  . intro name hname
    apply lacks_of_model?
    rw [model?_run, List.find?_eq_none]
    intro model hmem heq
    apply hname
    rw [← beq_iff_eq.mp heq]
    apply List.mem_map_of_mem hmem

end Registry

namespace Declaration

def article : Declaration where
  name := "Article"
  kind := .model
  items := [.block (.particle .sequence [
    .leaf ⟨"title", .string, .one⟩,
    .leaf ⟨"body", .string, .one⟩])]

/--
The name of an article again, for another model.
-/
def headline : Declaration where
  name := "Article"
  kind := .model
  items := [.block (.leaf ⟨"title", .string, .one⟩)]

/--
The name of an article again, with an attribute that is declared twice.
-/
def garbled : Declaration where
  name := "Article"
  kind := .model
  items := [.block (.leaf ⟨"title", .string, .one⟩), .block (.leaf ⟨"title", .string, .one⟩)]

end Declaration

open Declaration in
theorem Registry.article_registered :
    let registry := (empty ⟨.strict, true⟩).run [garbled, article, headline]
    registry.models = [article.model]
      ∧ (registry.register headline).value = .error (.duplicateModel "Article")
      ∧ (registry.register garbled).value = .error (.declaration ⟨garbled.diagnostics⟩)
      ∧ (registry.run [headline, garbled]).Answers ⟨.strict, true⟩ article.model
      ∧ registry.Lacks "Comment" := by
  intro registry
  have hgarbled : garbled.build.value = .error ⟨garbled.diagnostics⟩ := rfl
  have hheadline : headline.build.value = .ok headline.model := rfl
  rcases serves_run ⟨.strict, true⟩ [garbled, article, headline]
    with ⟨hmodels, _, htakes, hanswers, hlacks⟩
  have hnames : registry.models.map (·.name) = ["Article"] := by
    rw [hmodels]
    rfl
  refine ⟨hmodels, ?_, ((htakes garbled).refused _ hgarbled).1, ?_, ?_⟩
  . apply ((htakes headline).repeated _ hheadline _).1
    rw [hnames]
    apply List.mem_singleton_self
  . apply hanswers "Article" article.model rfl
  . apply hlacks
    decide

end ContentModel
