import ContentModel.Diagnostic
import ContentModel.Mapping
import ContentModel.Validation.Walk

/-!
This module contains declared models and what can be asked of them: their attributes and particles,
the failures of an instance, and the documents that stand for instances.
-/

namespace ContentModel

/--
A full model, or a group class: a reusable fragment that may do without a document root.
-/
inductive ModelKind where
  | model
  | group
deriving DecidableEq, Repr

namespace ModelKind

/--
The name of the kind in log records.
-/
def text : ModelKind → String
  | .model => "Model"
  | .group => "Group"

end ModelKind

/--
A declared model. At the top level of `content` a particle is a root and a leaf is an attribute
outside of all particles. The mappings stand in the order in which their formats came up.
-/
structure Model where
  name : String
  kind : ModelKind
  content : List Content
  mappings : List Mapping
  rootName : Option String
  noRoot : Bool

namespace Model

/--
The attributes in declaration order.
-/
def attributes (model : Model) : List Attribute := Content.leavesAll model.content

def attribute? (model : Model) (name : String) : Option Attribute :=
  model.attributes.find? (·.name == name)

/--
The attributes in declaration order, each with the particle around it.
-/
def placements (model : Model) : List Placement := Content.placementsAll none 0 model.content

def placement? (model : Model) (name : String) : Option Placement :=
  model.placements.find? (·.declared.name == name)

/--
The particles in the order of their numbers.
-/
def particles (model : Model) : List Particle := Content.listingAll none 0 model.content

def particle? (model : Model) (id : ParticleId) : Option Particle := model.particles[id.index]?

/--
The particles at the top level in declaration order.
-/
def roots (model : Model) : List ParticleId :=
  (Content.nodes 0 model.content).filterMap Node.particle?

/--
The mapping for a format: its own, or the one of the format that stands in for it.
-/
def mapping? (model : Model) (format : Format) : Option Mapping :=
  let own (format : Format) : Option Mapping := model.mappings.find? (·.format == format)
  (own format).or (format.fallback?.bind own)

/--
The mapping for a format, or the one that maps each attribute to the field of its name.
-/
def mappingOrIdentity (model : Model) (format : Format) : Mapping :=
  (model.mapping? format).getD (.identity format model.attributes)

/--
The diagnostic of a model that was asked for its root element and declared to have none.
-/
def noRootDiagnostic (model : Model) : Diagnostic where
  severity := .error
  message := s!"model `{model.name}` declares `no_root` and can't be used as a document root"
  code := some .noRootMapping
  model := some model.name

/--
The name of the element that holds an instance at the root of a document.
-/
def rootElement (model : Model) : Except DeclarationError String :=
  if model.noRoot then
    .error ⟨[model.noRootDiagnostic]⟩
  else
    .ok (model.rootName.getD model.name)

/--
An instance of the model without fields.
-/
def newInstance (model : Model) : Instance := .new model.name

/--
All failures of an instance, in the order in which the walk finds them. The model name of the
instance is not looked at.
-/
def validate (model : Model) (inst : Instance) (anchor : Anchor) : Logged (List Failure) :=
  let events := validationEvents model.content inst anchor
  let failures := events.filterMap Event.failure?
  { value := failures
    records := events.map Event.record
      ++ [⟨.debug, "Validated instance",
        [("model", model.name), ("failures", toString failures.length)]⟩] }

/--
Require that an instance has no failure.
-/
def validateStrict (model : Model) (inst : Instance) (anchor : Anchor) :
    Logged (Except ValidationError Unit) := do
  let failures ← model.validate inst anchor
  return if failures.isEmpty then .ok () else .error ⟨failures⟩

/--
Write an instance to a key-value document.
-/
def toDocument (model : Model) (format : Format) (inst : Instance) (renderNil : Bool) :
    Logged (Except MappingError Document) :=
  (model.mappingOrIdentity format).toDocument inst renderNil

/--
Read a key-value document into a new instance.
-/
def fromDocument (model : Model) (format : Format) (doc : Document) :
    Logged (Except MappingError Instance) := do
  match ← (model.mappingOrIdentity format).fromDocument model.attributes doc model.newInstance with
  | .ok () inst => return .ok inst
  | .error e _ => return .error e

end Model

end ContentModel
