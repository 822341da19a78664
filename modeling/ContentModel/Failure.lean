import ContentModel.Attribute
import ContentModel.ErrorCode

/-!
This module contains failures, the ways in which the content of an instance can break its model.
-/

namespace ContentModel

/--
A single violation of a content model.
-/
inductive Failure where
  /--
  A choice of exactly one was not met, or a sequence inside a choice is out of order. `matched`
  names the leaves that are present below the choice.
  -/
  | invalidChoice (matched : List String)
  /-- A choice with declared bounds was met `count` times. -/
  | outOfRangeChoice (matched : List String) (count min max : Nat)
  /-- Where a sequence expects a child, another one stands or the content ends. -/
  | incorrectSequence (expected : String) (found : Option String)
  /-- Children of an `all` that are needed and absent. -/
  | incompleteAll (missing : List String)
  /-- A collection holds too few or too many items. -/
  | collectionCountOutOfRange (name : String) (count : Nat) (occurs : Occurs)
deriving DecidableEq, Repr

namespace Failure

def code : Failure → ErrorCode
  | .invalidChoice .. => .invalidChoice
  | .outOfRangeChoice .. => .outOfRangeChoice
  | .incorrectSequence .. => .incorrectSequence
  | .incompleteAll .. => .incompleteAll
  | .collectionCountOutOfRange .. => .collectionCountOutOfRange

/--
A list of names in a message.
-/
def nameList (names : List String) : String :=
  if names.isEmpty then
    "nothing"
  else
    ", ".intercalate (names.map fun name => s!"`{name}`")

def message : Failure → String
  | .invalidChoice matched =>
    s!"Exactly one attribute must be specified in a choice (matched {nameList matched})"
  | .outOfRangeChoice _ count min max =>
    s!"Attributes must be in specified range in a choice (matched {count}, expected {min}..={max})"
  | .incorrectSequence expected found =>
    let found :=
      match found with
      | some name => s!"`{name}`"
      | none => "end of content"
    s!"Elements must be present in the specified order (expected `{expected}`, found {found})"
  | .incompleteAll missing =>
    s!"All elements of an all block must be present (missing {nameList missing})"
  | .collectionCountOutOfRange name count occurs =>
    s!"Collection `{name}` holds {count} items, expected {occurs.text}"

end Failure

/--
The failures of an instance that was required to be valid.
-/
structure ValidationError where
  failures : List Failure
deriving DecidableEq, Repr

/--
One line per failure.
-/
def ValidationError.message (e : ValidationError) : String :=
  "\n".intercalate (e.failures.map Failure.message)

end ContentModel
