import ContentModel.ErrorCode
import ContentModel.Log

/-!
This module contains diagnostics, the remarks made on a declaration, and the error that carries all
diagnostics of a declaration that was refused.
-/

namespace ContentModel

inductive Severity where
  | error
  | warning
deriving DecidableEq, Repr

namespace Severity

def text : Severity → String
  | .error => "error"
  | .warning => "warning"

/--
The level at which a diagnostic is logged.
-/
def level : Severity → Log.Level
  | .error => .error
  | .warning => .warn

end Severity

/--
A remark on a declaration.
-/
structure Diagnostic where
  severity : Severity
  message : String
  code : Option ErrorCode := none
  model : Option String := none
  help : Option String := none
deriving DecidableEq, Repr

namespace Diagnostic

def isError (diagnostic : Diagnostic) : Bool := diagnostic.severity == .error

/--
The diagnostic in one line, with its code when it has one.
-/
def text (diagnostic : Diagnostic) : String :=
  let code :=
    match diagnostic.code with
    | some code => "[" ++ code.text ++ "]"
    | none => ""
  diagnostic.severity.text ++ code ++ ": " ++ diagnostic.message

/--
The record that is logged for a diagnostic which does not stop a declaration.
-/
def record (diagnostic : Diagnostic) : Log.Record where
  level := diagnostic.severity.level
  message := diagnostic.message
  fields := [
    ("model", Text.optional Text.quoted diagnostic.model),
    ("code", Text.optional ErrorCode.text diagnostic.code)]

end Diagnostic

/--
All diagnostics of a declaration that was refused, warnings included.
-/
structure DeclarationError where
  diagnostics : List Diagnostic
deriving DecidableEq, Repr

namespace DeclarationError

/--
The diagnostics that are errors.
-/
def errors (e : DeclarationError) : List Diagnostic := e.diagnostics.filter Diagnostic.isError

/--
Some diagnostic carries the code.
-/
def hasCode (e : DeclarationError) (code : ErrorCode) : Bool :=
  e.diagnostics.any (·.code == some code)

/--
The first error and the number of further ones.
-/
def message (e : DeclarationError) : String :=
  match e.errors with
  | [] => ""
  | [first] => first.text
  | first :: rest => first.text ++ s!" (+{rest.length} more)"

end DeclarationError

end ContentModel
