import ContentModel.Mapping.Format
import ContentModel.Value

/-!
This module contains what can go wrong while a mapping reads or writes an instance.
-/

namespace ContentModel

inductive MappingError where
  /-- A custom function reported a problem with a field. -/
  | custom (field message : String)
  /-- A nested instance is needed, but the attribute has no model type to make one of. -/
  | delegateType (delegate : String)
  /-- A nested instance is needed where another kind of value, or nothing at all, is held. -/
  | delegateValue (delegate : String) (found : Option Value.Kind)
  /-- A mapping of a format without key-value documents was asked for one. -/
  | notKeyValue (format : Format)
  /-- A document is needed where another kind of value was found. -/
  | notDocument (found : Value.Kind)
deriving DecidableEq, Repr

/--
The word for what is held in messages.
-/
def MappingError.foundWord : Option Value.Kind → String
  | some kind => kind.word
  | none => "nothing"

def MappingError.message : MappingError → String
  | .custom field message => s!"custom mapping for `{field}` failed: {message}"
  | .delegateType delegate => s!"delegate `{delegate}` is not declared with a model type"
  | .delegateValue delegate found =>
    s!"delegate `{delegate}` holds a {foundWord found}, expected an object"
  | .notKeyValue format => s!"`{format.keyword}` mappings can't be used for key-value documents"
  | .notDocument found => s!"expected a key-value document, found a {found.word}"

/--
A value as a key-value document.
-/
def Value.document : Value → Except MappingError Document
  | .map entries => .ok entries
  | value => .error (.notDocument value.kind)

end ContentModel
