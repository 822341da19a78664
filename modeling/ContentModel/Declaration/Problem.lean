import ContentModel.Attribute
import ContentModel.Content
import ContentModel.Diagnostic

/-!
This module contains what can be wrong with a declaration, one constructor for each cause, and the
diagnostic that is made of it.
-/

namespace ContentModel

inductive Problem where
  /-- An attribute with this name was declared before. -/
  | duplicateAttribute (name : String)
  /-- The range of a collection has its maximum below its minimum. -/
  | invertedOccurs (name : String) (occurs : Occurs)
  /-- A bound of a choice is not positive. -/
  | choiceBoundNotPositive
  /-- The bounds of a choice are positive and in the wrong order. -/
  | choiceBoundsInverted (min max : Int)
  | attributeInGroup
  | groupInGroup
  | allInGroup
  | secondChoiceInGroup
  | groupInAll
  | allInAll
  | choiceInAll
  | sequenceInAll
  | allInSequence
  | allInChoice
  /-- A particle was left without children. This is only a warning. -/
  | emptyParticle (kind : ParticleKind)
  /-- A rule has neither a target nor functions. -/
  | ruleWithoutTarget (field : String)
  /-- A rule has one of the two functions. -/
  | ruleWithOneFunction (field : String)
  /-- The target of a rule is not declared. -/
  | unknownTarget (field name : String)
  /-- The delegate of a rule is not declared. -/
  | unknownDelegate (field delegate : String)
  /-- The delegate of a rule holds no instances. -/
  | scalarDelegate (field delegate : String) (type : AttributeType)
  /-- A model that is no group class was declared without a root. -/
  | misplacedNoRoot
deriving DecidableEq, Repr

namespace Problem

def severity : Problem → Severity
  | .emptyParticle _ => .warning
  | _ => .error

def code? : Problem → Option ErrorCode
  | .duplicateAttribute _ => some .duplicateAttribute
  | .invertedOccurs .. => some .invalidOccurrenceRange
  | .choiceBoundNotPositive | .choiceBoundsInverted .. => some .invalidChoiceRange
  | .attributeInGroup | .groupInGroup | .allInGroup | .secondChoiceInGroup => some .invalidGroup
  | .groupInAll | .allInAll | .choiceInAll | .sequenceInAll | .allInChoice => some .invalidAll
  | .allInSequence => some .invalidSequence
  | .emptyParticle _ => none
  | .ruleWithoutTarget _ | .ruleWithOneFunction _ => some .incorrectMappingArguments
  | .unknownTarget .. | .unknownDelegate .. => some .unknownAttribute
  | .scalarDelegate .. => some .invalidDelegate
  | .misplacedNoRoot => some .noRootMapping

def message : Problem → String
  | .duplicateAttribute name => s!"attribute `{name}` is already declared"
  | .invertedOccurs name occurs =>
    s!"attribute `{name}` declares occurrence range {occurs.text}, minimum exceeds maximum"
  | .choiceBoundNotPositive | .choiceBoundsInverted .. => "Choice range must be positive"
  | .attributeInGroup => "Attributes can't be defined directly in group"
  | .groupInGroup => "Nested group definitions are not allowed"
  | .allInGroup => "Can't define all in group"
  | .secondChoiceInGroup => "Can't define multiple choices in group"
  | .groupInAll => "Can't define group in all"
  | .allInAll => "Nested all definitions are not allowed"
  | .choiceInAll => "Can't define choice in all"
  | .sequenceInAll => "Can't define sequence in all"
  | .allInSequence => "Can't define all in sequence"
  | .allInChoice => "all can only be declared at the top level of a model"
  | .emptyParticle kind => s!"{kind.keyword} declares no children"
  | .ruleWithoutTarget field => s!"`to` or `with` argument is required for mapping '{field}'"
  | .ruleWithOneFunction field =>
    s!"`with` argument for mapping '{field}' requires both read and write functions"
  | .unknownTarget field name => s!"mapping '{field}' targets unknown attribute `{name}`"
  | .unknownDelegate field delegate =>
    s!"mapping '{field}' delegates through unknown attribute `{delegate}`"
  | .scalarDelegate field delegate type =>
    s!"mapping '{field}' delegates through `{delegate}`, which holds a {type.text}"
  | .misplacedNoRoot => "`no_root` is only allowed for Group classes"

def help? : Problem → Option String
  | .invertedOccurs .. => some "use bounds like `Occurs::bounded(1, 3)`"
  | .choiceBoundNotPositive => some "use bounds of at least 1, e.g. `choice_in(1, 2, ..)`"
  | .choiceBoundsInverted min max => some s!"minimum {min} exceeds maximum {max}"
  | .ruleWithoutTarget _ =>
    some "map the field to an attribute, or give it custom read and write functions"
  | .scalarDelegate .. => some "delegate attributes must be declared with a model type"
  | .misplacedNoRoot => some "declare the model with `ModelBuilder::group_class`"
  | _ => none

/--
The diagnostic for a problem in the declaration of a model.
-/
def diagnostic (model : String) (problem : Problem) : Diagnostic where
  severity := problem.severity
  message := problem.message
  code := problem.code?
  model := some model
  help := problem.help?

def isError (problem : Problem) : Bool := problem.severity == .error

theorem isError_diagnostic (model : String) (problem : Problem) :
    (problem.diagnostic model).isError = problem.isError := rfl

end Problem

end ContentModel
