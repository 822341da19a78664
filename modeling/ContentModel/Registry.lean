import ContentModel.Config
import ContentModel.Declaration

/-!
This module contains the registry, the models that have been declared so far under one
configuration. Instances and documents are handed to the model they name.
-/

namespace ContentModel

/--
What a registry cannot do for its caller.
-/
inductive RegistryError where
  | declaration (e : DeclarationError)
  | validation (e : ValidationError)
  | mapping (e : MappingError)
  /-- A model with this name is registered already. -/
  | duplicateModel (name : String)
  /-- No model with this name is registered. -/
  | unknownModel (name : String)
deriving DecidableEq, Repr

def RegistryError.message : RegistryError → String
  | .declaration e => e.message
  | .validation e => e.message
  | .mapping e => s!"Mapping error: {e.message}"
  | .duplicateModel name => s!"Model `{name}` is already registered"
  | .unknownModel name => s!"Model `{name}` is not registered"

/--
Registered models in the order of their registration, no two of the same name.
-/
structure Registry where
  config : Config := {}
  models : List Model := []
  nodup_names : (models.map (·.name)).Nodup := by simp

namespace Registry

/--
A registry without models.
-/
def empty (config : Config) : Registry := { config }

instance : Inhabited Registry := ⟨empty {}⟩

/--
The registered model of a name.
-/
def model? (registry : Registry) (name : String) : Option Model :=
  registry.models.find? (·.name == name)

theorem model?_eq_none_iff {registry : Registry} {name : String} :
    registry.model? name = none ↔ name ∉ registry.models.map (·.name) := by
  simp [model?]

/--
The registry with one more model behind the others.
-/
def add (registry : Registry) (model : Model) (h : registry.model? model.name = none) :
    Registry where
  config := registry.config
  models := registry.models ++ [model]
  nodup_names := by
    have := model?_eq_none_iff.1 h
    simp_all [List.nodup_append, registry.nodup_names]

/--
Build a declared model and register it. A name that is taken is noticed after the model was built.
-/
def register (registry : Registry) (declaration : Declaration) :
    Logged (Except RegistryError Registry) := do
  match ← declaration.build with
  | .error e => return .error (.declaration e)
  | .ok model =>
    match h : registry.model? model.name with
    | some _ => return .error (.duplicateModel model.name)
    | none =>
      Logged.log .info "Registered model" [("model", model.name), ("kind", model.kind.text)]
      return .ok (registry.add model h)

/--
Use the model of a name.
-/
def withModel {α : Type} (registry : Registry) (name : String)
    (use : Model → Logged (Except RegistryError α)) : Logged (Except RegistryError α) :=
  match registry.model? name with
  | some model => use model
  | none => pure (.error (.unknownModel name))

/--
The failures of an instance against the model it names.
-/
def validate (registry : Registry) (inst : Instance) :
    Logged (Except RegistryError (List Failure)) :=
  registry.withModel inst.model fun model => do
    return .ok (← model.validate inst registry.config.anchor)

/--
Require that an instance has no failure against the model it names.
-/
def validateStrict (registry : Registry) (inst : Instance) : Logged (Except RegistryError Unit) :=
  registry.withModel inst.model fun model => do
    return (← model.validateStrict inst registry.config.anchor).mapError .validation

/--
Write an instance to a key-value document by the mapping of the model it names.
-/
def toDocument (registry : Registry) (format : Format) (inst : Instance) :
    Logged (Except RegistryError Document) :=
  registry.withModel inst.model fun model => do
    match ← model.toDocument format inst registry.config.renderNil with
    | .error e => return .error (.mapping e)
    | .ok doc =>
      Logged.log .debug "Serialized instance"
        [("model", model.name), ("format", format.keyword), ("fields", toString doc.size)]
      return .ok doc

/--
Read a key-value document into a new instance of the model of a name.
-/
def fromDocument (registry : Registry) (format : Format) (name : String) (doc : Document) :
    Logged (Except RegistryError Instance) :=
  registry.withModel name fun model => do
    match ← model.fromDocument format doc with
    | .error e => return .error (.mapping e)
    | .ok inst =>
      Logged.log .debug "Deserialized document" [("model", model.name), ("format", format.keyword)]
      Logged.log .trace "Deserialized instance" []
      return .ok inst

end Registry

end ContentModel
