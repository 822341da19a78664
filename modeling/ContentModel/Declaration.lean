import ContentModel.Declaration.Block
import ContentModel.Declaration.Rules
import ContentModel.Model

/-!
This module contains declarations of models and how they are built. A declaration is taken item by
item; whatever is wrong with it is collected, and only a declaration without errors becomes a model.
-/

namespace ContentModel

/--
One item of a declaration.
-/
inductive Item where
  | block (block : Block)
  /-- Rules for a format, behind those declared for it before. -/
  | mapping (format : Format) (entries : List MappingEntry)
  /-- The name of the root element. -/
  | rootName (name : String)
  /-- The model is no document root. -/
  | noRoot

/--
A model as it is declared.
-/
structure Declaration where
  name : String
  kind : ModelKind
  items : List Item

/--
What has become of the items of a declaration so far.
-/
structure Draft where
  scope : Scope := .top
  content : List Content := []
  mappings : List Mapping := []
  nextGroup : Nat := 0
  rootName : Option String := none
  noRoot : Bool := false
  problems : List Problem := []

namespace Draft

/--
Add rules behind those of the same format; a format that is new comes last.
-/
def addRules (format : Format) (rules : List Rule) : List Mapping → List Mapping
  | [] => [⟨format, rules⟩]
  | mapping :: rest =>
    if mapping.format = format then
      { mapping with rules := mapping.rules ++ rules } :: rest
    else
      mapping :: addRules format rules rest

/--
Take one item of the declaration of a model of the given kind.
-/
def add (kind : ModelKind) (draft : Draft) : Item → Draft
  | .block block =>
    match block.elaborate draft.scope with
    | (none, problems) => { draft with problems := draft.problems ++ problems }
    | (some content, problems) =>
      { draft with
        scope := draft.scope.add content
        content := draft.content ++ [content]
        problems := draft.problems ++ problems }
  | .mapping format entries =>
    let (rules, problems) := MappingEntry.elaborate draft.nextGroup entries
    { draft with
      mappings := addRules format rules draft.mappings
      nextGroup := draft.nextGroup + entries.countP MappingEntry.isGroup
      problems := draft.problems ++ problems }
  | .rootName name => { draft with rootName := some name }
  | .noRoot =>
    if kind = .group then
      { draft with noRoot := true }
    else
      { draft with problems := draft.problems ++ [.misplacedNoRoot] }

/--
What the rules get wrong about the attributes, mapping by mapping.
-/
def mappingProblems (draft : Draft) : List Problem :=
  draft.mappings.flatMap fun mapping =>
    mapping.rules.filterMap (·.problem? (Content.leavesAll draft.content))

end Draft

namespace Declaration

/--
The declaration with all items taken.
-/
def draft (declaration : Declaration) : Draft :=
  declaration.items.foldl (Draft.add declaration.kind) {}

/--
Everything that is wrong with a declaration: first what comes up item by item, then what the rules
get wrong about the attributes, wherever these are declared.
-/
def problems (declaration : Declaration) : List Problem :=
  declaration.draft.problems ++ declaration.draft.mappingProblems

def diagnostics (declaration : Declaration) : List Diagnostic :=
  declaration.problems.map (·.diagnostic declaration.name)

/--
The model that the items make, for what it is worth when there are problems.
-/
def model (declaration : Declaration) : Model where
  name := declaration.name
  kind := declaration.kind
  content := declaration.draft.content
  mappings := declaration.draft.mappings
  rootName := declaration.draft.rootName
  noRoot := declaration.draft.noRoot

/--
Build the model. Errors refuse the declaration with all of its diagnostics; warnings alone are
logged.
-/
def build (declaration : Declaration) : Logged (Except DeclarationError Model) :=
  if declaration.problems.any Problem.isError then
    pure (.error ⟨declaration.diagnostics⟩)
  else
    let model := declaration.model
    { value := .ok model
      records := declaration.diagnostics.map Diagnostic.record
        ++ [⟨.debug, "Model declared", [
          ("model", model.name),
          ("attributes", toString model.attributes.length),
          ("particles", toString model.particles.length),
          ("mappings", toString model.mappings.length)]⟩] }

/--
The mapping groups of a declaration with their formats, in the order in which they are declared and
numbered.
-/
def groups (declaration : Declaration) : List (Format × GroupId) :=
  let formats := declaration.items.flatMap fun
    | .mapping format entries => (entries.filter MappingEntry.isGroup).map fun _ => format
    | _ => []
  formats.zipIdx.map fun (format, n) => (format, ⟨n⟩)

end Declaration

end ContentModel
