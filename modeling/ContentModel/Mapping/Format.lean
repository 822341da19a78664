/-!
This module contains the document formats that mappings are declared for.
-/

namespace ContentModel

inductive Format where
  | xml
  | json
  | yaml
  | toml
  /-- Shared by the key-value formats that have no mapping of their own. -/
  | keyValue
deriving DecidableEq, Repr

namespace Format

/--
All formats.
-/
def all : List Format := [.xml, .json, .yaml, .toml, .keyValue]

def keyword : Format → String
  | .xml => "xml"
  | .json => "json"
  | .yaml => "yaml"
  | .toml => "toml"
  | .keyValue => "key_value"

/--
Documents of the format are key-value documents.
-/
def isKeyValue : Format → Bool
  | .xml => false
  | _ => true

/--
The format whose mapping stands in for a missing one.
-/
def fallback? : Format → Option Format
  | .json | .yaml | .toml => some .keyValue
  | .xml | .keyValue => none

/--
The format with a given keyword.
-/
def ofKeyword? (s : String) : Option Format := all.find? (·.keyword == s)

end Format

end ContentModel
