import ContentModel.Binary64.Decimal
import ContentModel.Text.Quoted

/-!
This module contains settings, the tree that a configuration document stands for.
-/

namespace ContentModel

/--
A configuration document or a part of it. The entries of a table have distinct names, and their
order says nothing.
-/
inductive Setting where
  | null
  | boolean (b : Bool)
  | integer (n : Int)
  | float (x : Binary64)
  | string (s : String)
  | list (items : List Setting)
  | table (entries : List (String × Setting))
deriving Inhabited

namespace Setting

/--
The setting in a message: a scalar with its value, all else by its kind.
-/
def text : Setting → String
  | .null => "null"
  | .boolean b => s!"boolean `{b}`"
  | .integer n => s!"integer `{n}`"
  | .float x => s!"floating point `{x.concise}`"
  | .string s => "string " ++ Text.quoted s
  | .list _ => "sequence"
  | .table _ => "map"

end Setting

end ContentModel
