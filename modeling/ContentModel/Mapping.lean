import ContentModel.Mapping.Collector

/-!
This module contains mappings, ordered lists of rules for one format, and the two passes over them:
writing an instance to a key-value document and reading it back.
-/

namespace ContentModel

/--
The mapping rules of one format, in declaration order.
-/
structure Mapping where
  format : Format
  rules : List Rule

namespace Mapping

/--
The mapping that ties each attribute to the field of the same name.
-/
def identity (format : Format) (attributes : List Attribute) : Mapping :=
  ⟨format, attributes.map fun a => .direct a.name⟩

/--
The first rule for a document field.
-/
def rule? (mapping : Mapping) (name : String) : Option Rule :=
  mapping.rules.find? (·.name == name)

/--
How far a writing pass has come: the document so far, the groups it has met, and the group whose
rules it is among.
-/
structure Writing where
  document : Document
  groups : Collector
  current : Option GroupId

namespace Writing

/--
Flush the group whose rules have just ended, if there is one.
-/
def close (state : Writing) (inst : Instance) : Logged (Except MappingError Writing) :=
  match state.current with
  | none => pure (.ok state)
  | some id => do
    let (groups, document) := state.groups.flush id inst state.document
    return (← document).map fun document => ⟨document, groups, none⟩

/--
Write the field of a rule that stands in no group. A null value is written only when the rule, or
the pass where the rule is silent, asks for it.
-/
def put (state : Writing) (rule : Rule) (inst : Instance) (renderNil : Bool) :
    Logged (Except MappingError Writing) :=
  match rule.serialize inst state.document with
  | .error e _ => pure (.error e)
  | .ok none document => pure (.ok { state with document })
  | .ok (some value) document =>
    if value.isNull && !rule.renderNil.getD renderNil then do
      Logged.log .trace "Skipping nil value" [("field", rule.name)]
      return .ok { state with document }
    else
      pure (.ok { state with document := document.insert rule.name value })

/--
Pass one rule: leave the group whose rules have ended, then enter the group of the rule or write
its field.
-/
def step (state : Writing) (rule : Rule) (inst : Instance) (renderNil : Bool) :
    Logged (Except MappingError Writing) := do
  let left ← if rule.group? = state.current then pure (.ok state) else state.close inst
  match left with
  | .error e => return .error e
  | .ok state =>
    match rule.group? with
    | some id => return .ok { state with groups := state.groups.enter rule, current := some id }
    | none => state.put rule inst renderNil

/--
Pass rules one after the other up to the first error, and leave the last group.
-/
def run (inst : Instance) (renderNil : Bool) : Writing → List Rule →
    Logged (Except MappingError Writing)
  | state, [] => state.close inst
  | state, rule :: rules => do
    match ← state.step rule inst renderNil with
    | .ok state => run inst renderNil state rules
    | .error e => return .error e

end Writing

/--
Write an instance to a key-value document. Rules run in declaration order; the fields of a mapping
group land where its rules end.
-/
def toDocument (mapping : Mapping) (inst : Instance) (renderNil : Bool) :
    Logged (Except MappingError Document) :=
  if mapping.format.isKeyValue then do
    let written ← Writing.run inst renderNil ⟨.empty, .empty, none⟩ mapping.rules
    return written.map (·.document)
  else
    pure (.error (.notKeyValue mapping.format))

/--
Read the fields of the rules that stand in no group into the instance, and collect those of the
others.
-/
def readFields (attributes : List Attribute) (doc : Document) : Collector → List Rule →
    EStateM MappingError Instance Collector
  | groups, [] => pure groups
  | groups, rule :: rules =>
    match doc.get? rule.name with
    | none => readFields attributes doc groups rules
    | some value =>
      if rule.group?.isSome then
        readFields attributes doc (groups.add rule value) rules
      else do
        rule.deserialize attributes value
        readFields attributes doc groups rules

/--
Read a key-value document into an instance. Fields outside of groups come first, then each mapping
group that has a field in the document reads once; fields that no rule names are ignored. What was
read before an error stays in the instance.
-/
def fromDocument (mapping : Mapping) (attributes : List Attribute) (doc : Document)
    (inst : Instance) : Logged (EStateM.Result MappingError Instance Unit) :=
  if mapping.format.isKeyValue then
    match readFields attributes doc .empty mapping.rules inst with
    | .ok groups inst => groups.apply inst
    | .error e inst => pure (.error e inst)
  else
    pure (.error (.notKeyValue mapping.format) inst)

end Mapping

end ContentModel
