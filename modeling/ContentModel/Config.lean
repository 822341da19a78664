import ContentModel.Config.Setting
import ContentModel.Validation.Order

/-!
This module contains the configuration of a registry and how it is read from settings. What is not
set keeps its default and names that mean nothing are passed over, so an empty document configures
everything.
-/

namespace ContentModel

/--
The configuration of validation and of the passes that write documents.
-/
structure Config where
  /-- What sequences make of an element order without their first expected child. -/
  anchor : Anchor := .lenient
  /-- Whether null values are written by the rules that do not decide on their own. -/
  renderNil : Bool := false
deriving DecidableEq, Repr, Inhabited

/--
Why settings are no configuration.
-/
inductive ConfigError where
  /-- Another kind of setting is expected. -/
  | unexpected (found : Setting) (expected : String)
  /-- An anchor has no such keyword. -/
  | unknownAnchor (keyword : String)
  /-- An anchor in table form comes with one entry, and there are none or several. -/
  | notSingleEntry
  /-- A section in list form has more items than there are names for. -/
  | tooLong (length : Nat)

namespace ConfigError

def message : ConfigError → String
  | .unexpected found expected => s!"invalid type: {found.text}, expected {expected}"
  | .unknownAnchor keyword => s!"unknown variant `{keyword}`, expected `lenient` or `strict`"
  | .notSingleEntry => "invalid value: map, expected map with a single key"
  | .tooLong length => s!"invalid length {length}, expected fewer elements in array"

end ConfigError

namespace Setting

/--
What an optional setting is read as.
-/
def orDefault {α : Type} (read : Setting → Except ConfigError α) (fallback : α) :
    Option Setting → Except ConfigError α
  | some setting => read setting
  | none => .ok fallback

/--
The boolean that a setting is.
-/
def toBoolean : Setting → Except ConfigError Bool
  | .boolean b => .ok b
  | found => .error (.unexpected found "a boolean")

/--
An anchor, given by its keyword or by a table with the keyword over nothing.
-/
def toAnchor : Setting → Except ConfigError Anchor
  | .string keyword => named keyword
  | .table [(keyword, content)] => do
    let anchor ← named keyword
    match content with
    | .null => return anchor
    | found => .error (.unexpected found "unit")
  | .table _ => .error .notSingleEntry
  | found => .error (.unexpected found "string or map")
where
  named (keyword : String) : Except ConfigError Anchor :=
    match Anchor.ofKeyword? keyword with
    | some anchor => .ok anchor
    | none => .error (.unknownAnchor keyword)

/--
A section with one name in it, as a table or as the list of what stands under its names.
-/
def single {α : Type} (expected name : String) (read : Setting → Except ConfigError α)
    (fallback : α) : Setting → Except ConfigError α
  | .table entries => orDefault read fallback (entries.lookup name)
  | .list items => do
    let a ← orDefault read fallback items[0]?
    if 1 < items.length then .error (.tooLong items.length) else return a
  | found => .error (.unexpected found expected)

/--
The section for validation.
-/
def toValidation : Setting → Except ConfigError Anchor :=
  single "struct ValidationConfig" "sequence_anchor" toAnchor .lenient

/--
The section for mappings.
-/
def toMapping : Setting → Except ConfigError Bool :=
  single "struct MappingConfig" "render_nil" toBoolean false

/--
The configuration that settings stand for. Of two mistakes the first one counts: a table is read in
the order of its names, a list in the order of its items.
-/
def toConfig : Setting → Except ConfigError Config
  | .table entries => do
    let renderNil ← orDefault toMapping false (entries.lookup "mapping")
    let anchor ← orDefault toValidation .lenient (entries.lookup "validation")
    return ⟨anchor, renderNil⟩
  | .list items => do
    let anchor ← orDefault toValidation .lenient items[0]?
    let renderNil ← orDefault toMapping false items[1]?
    if 2 < items.length then .error (.tooLong items.length) else return ⟨anchor, renderNil⟩
  | found => .error (.unexpected found "struct AppConfig")

end Setting

end ContentModel
