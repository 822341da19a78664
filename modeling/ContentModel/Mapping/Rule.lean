import ContentModel.Attribute
import ContentModel.Mapping.Error
import ContentModel.Text.Quoted

/-!
This module contains mapping rules. A rule ties one document field either to an attribute, which may
live on a nested instance, or to functions of the caller. Reading a target attribute and writing it
are the two halves `Target.get` and `Target.set`.
-/

namespace ContentModel

/--
The number of a mapping group within its model.
-/
structure GroupId where
  index : Nat
deriving DecidableEq, Repr

namespace GroupId

def text (id : GroupId) : String := s!"group#{id.index}"

/--
The number with the name of its type.
-/
def typedText (id : GroupId) : String := s!"GroupId({id.index})"

end GroupId

/--
A caller's function that reads a document value into an instance. One that fails may have changed
the instance before.
-/
abbrev Reader := Value → EStateM MappingError Instance Unit

/--
A caller's function that writes an instance into a document. One that fails may have changed the
document before.
-/
abbrev Writer := Instance → EStateM MappingError Document Unit

/--
A caller's pair of functions.
-/
structure Custom where
  read : Reader
  write : Writer

/--
Where a rule finds its value: an attribute, of the instance itself or of the nested instance that
the delegate attribute holds.
-/
structure Target where
  name : String
  delegate : Option String := none
deriving DecidableEq, Repr

namespace Target

/--
The instance that holds the target: none when it is nested and not there.
-/
def holder (target : Target) (inst : Instance) : Except MappingError (Option Instance) :=
  match target.delegate with
  | none => .ok (some inst)
  | some delegate =>
    match inst.get? delegate with
    | none | some .null => .ok none
    | some (.object inner) => .ok (some inner)
    | some other => .error (.delegateValue delegate (some other.kind))

/--
The value of the target, null when it is not set.
-/
def get (target : Target) (inst : Instance) : Except MappingError Value := do
  let holder ← target.holder inst
  return ((holder.bind (·.get? target.name)).getD .null)

/--
Make the nested instance under a delegate if there is none.
-/
def supply (delegate model : String) : EStateM MappingError Instance Unit := do
  if ((← getThe Instance).get? delegate).all Value.isNull then
    modify (·.set delegate (.object (.new model)))

/--
The nested instance under a delegate.
-/
def nested (delegate : String) : EStateM MappingError Instance Instance := do
  match (← getThe Instance).get? delegate with
  | some (.object inner) => return inner
  | other => throw (.delegateValue delegate (other.map Value.kind))

/--
Fetch the nested instance under a delegate in order to change it. A missing one is made from the model
type of the delegate first, and what stands there is looked at afterwards.
-/
def reach (delegate : String) (attributes : List Attribute) :
    EStateM MappingError Instance Instance :=
  match (attributes.find? (·.name == delegate)).bind (·.type.model?) with
  | none => throw (.delegateType delegate)
  | some model => do
    supply delegate model
    nested delegate

/--
Set the target, on the instance itself or on the nested one.
-/
def set (target : Target) (attributes : List Attribute) (value : Value) :
    EStateM MappingError Instance Unit :=
  match target.delegate with
  | none => modify (·.set target.name value)
  | some delegate => do
    let inner ← reach delegate attributes
    modify (·.set delegate (.object (inner.set target.name value)))

end Target

/--
What a rule does with its field: exchange it with a target, pass it to functions of its own, or
hand it to the functions that the rules of one group share. Functions of its own leave the
attributes that a rule names without effect.
-/
inductive Handler where
  | target (target : Target)
  | custom (functions : Custom) (attribute? delegate? : Option String)
  | group (id : GroupId) (functions : Custom)

/--
A mapping rule for one document field. `renderNil` says whether a null value is written, and
leaves it to the pass when it is not set.
-/
structure Rule where
  name : String
  handler : Handler
  renderNil : Option Bool := none

namespace Rule

/--
The rule that ties a field to the attribute of the same name.
-/
def direct (name : String) : Rule := ⟨name, .target ⟨name, none⟩, none⟩

/--
The attribute that the rule names.
-/
def attribute? (rule : Rule) : Option String :=
  match rule.handler with
  | .target target => some target.name
  | .custom _ name _ => name
  | .group .. => none

/--
The delegate that the rule names.
-/
def delegate? (rule : Rule) : Option String :=
  match rule.handler with
  | .target target => target.delegate
  | .custom _ _ delegate => delegate
  | .group .. => none

def group? (rule : Rule) : Option GroupId :=
  match rule.handler with
  | .group id _ => some id
  | _ => none

def custom? (rule : Rule) : Option Custom :=
  match rule.handler with
  | .target _ => none
  | .custom functions _ _ => some functions
  | .group _ functions => some functions

/--
Produce the value of the field. A rule with functions writes to the document itself and produces
nothing.
-/
def serialize (rule : Rule) (inst : Instance) : EStateM MappingError Document (Option Value) :=
  match rule.handler with
  | .target target =>
    match target.get inst with
    | .ok value => pure (some value)
    | .error e => throw e
  | .custom functions _ _ | .group _ functions => do
    functions.write inst
    return none

/--
Read the value of the field into the instance.
-/
def deserialize (rule : Rule) (attributes : List Attribute) (value : Value) :
    EStateM MappingError Instance Unit :=
  match rule.handler with
  | .target target => target.set attributes value
  | .custom functions _ _ | .group _ functions => functions.read value

/--
The rule as a record, with all its settings.
-/
def fullText (rule : Rule) : String :=
  let boolean (b : Bool) : String := if b then "true" else "false"
  "MappingRule \x7b name: " ++ Text.quoted rule.name
    ++ ", to: " ++ Text.optional Text.quoted rule.attribute?
    ++ ", custom: " ++ boolean rule.custom?.isSome
    ++ ", delegate: " ++ Text.optional Text.quoted rule.delegate?
    ++ ", group: " ++ Text.optional GroupId.typedText rule.group?
    ++ ", render_nil: " ++ Text.optional boolean rule.renderNil ++ " \x7d"

end Rule

end ContentModel
