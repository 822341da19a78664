/-!
This module contains the codes of what can be wrong with a declaration (`E1xx`) or with the content
of an instance (`E2xx`).
-/

namespace ContentModel

inductive ErrorCode where
  | invalidGroup
  | invalidAll
  | invalidSequence
  | invalidChoiceRange
  | noRootMapping
  | incorrectMappingArguments
  | duplicateAttribute
  | unknownAttribute
  | invalidDelegate
  | invalidOccurrenceRange
  | invalidChoice
  | outOfRangeChoice
  | incorrectSequence
  | incompleteAll
  | collectionCountOutOfRange
deriving DecidableEq, Repr

namespace ErrorCode

/--
All codes in ascending order.
-/
def all : List ErrorCode := [
  .invalidGroup, .invalidAll, .invalidSequence, .invalidChoiceRange, .noRootMapping,
  .incorrectMappingArguments, .duplicateAttribute, .unknownAttribute, .invalidDelegate,
  .invalidOccurrenceRange, .invalidChoice, .outOfRangeChoice, .incorrectSequence, .incompleteAll,
  .collectionCountOutOfRange]

/--
The code as it is printed.
-/
def text : ErrorCode → String
  | .invalidGroup => "E100"
  | .invalidAll => "E101"
  | .invalidSequence => "E102"
  | .invalidChoiceRange => "E103"
  | .noRootMapping => "E104"
  | .incorrectMappingArguments => "E105"
  | .duplicateAttribute => "E106"
  | .unknownAttribute => "E107"
  | .invalidDelegate => "E108"
  | .invalidOccurrenceRange => "E109"
  | .invalidChoice => "E200"
  | .outOfRangeChoice => "E201"
  | .incorrectSequence => "E202"
  | .incompleteAll => "E203"
  | .collectionCountOutOfRange => "E204"

/--
What the code stands for, in a few words.
-/
def description : ErrorCode → String
  | .invalidGroup => "invalid group"
  | .invalidAll => "invalid all"
  | .invalidSequence => "invalid sequence"
  | .invalidChoiceRange => "invalid choice range"
  | .noRootMapping => "no root mapping"
  | .incorrectMappingArguments => "incorrect mapping arguments"
  | .duplicateAttribute => "duplicate attribute"
  | .unknownAttribute => "unknown attribute"
  | .invalidDelegate => "invalid delegate"
  | .invalidOccurrenceRange => "invalid occurrence range"
  | .invalidChoice => "invalid choice"
  | .outOfRangeChoice => "out of range choice"
  | .incorrectSequence => "incorrect sequence"
  | .incompleteAll => "incomplete all"
  | .collectionCountOutOfRange => "collection count out of range"

/--
The code belongs to declarations and not to the content of instances.
-/
def isDeclaration : ErrorCode → Bool
  | .invalidChoice | .outOfRangeChoice | .incorrectSequence | .incompleteAll
  | .collectionCountOutOfRange => false
  | _ => true

/--
The code with a given text.
-/
def ofText? (s : String) : Option ErrorCode := all.find? (·.text == s)

theorem mem_all (code : ErrorCode) : code ∈ all := by
  cases code <;> decide

end ErrorCode

end ContentModel
