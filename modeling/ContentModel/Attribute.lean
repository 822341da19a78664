import ContentModel.Value

/-!
This module contains attributes, the leaves of a content model: a name, the type of its values, and
how often it may occur.
-/

namespace ContentModel

/--
The declared type of an attribute's value.
-/
inductive AttributeType where
  | string
  | integer
  | float
  | boolean
  /-- A nested instance of the model with this name. -/
  | model (name : String)
deriving DecidableEq, Repr

namespace AttributeType

def text : AttributeType → String
  | .string => "string"
  | .integer => "integer"
  | .float => "float"
  | .boolean => "boolean"
  | .model name => s!"model `{name}`"

/--
The model whose instances the attribute holds, if it holds instances.
-/
def model? : AttributeType → Option String
  | .model name => some name
  | _ => none

end AttributeType

/--
A range of item counts; without a `max` there is no upper bound.
-/
structure Occurs where
  min : Nat
  max : Option Nat
deriving DecidableEq, Repr

namespace Occurs

def one : Occurs := ⟨1, some 1⟩

def optional : Occurs := ⟨0, some 1⟩

instance : Inhabited Occurs := ⟨one⟩

/--
No item is needed at all.
-/
def isOptional (occurs : Occurs) : Bool := occurs.min == 0

def contains (occurs : Occurs) (count : Nat) : Bool :=
  occurs.min ≤ count && occurs.max.all (count ≤ ·)

/--
The maximum is below the minimum, so that no count is in range.
-/
def isInverted (occurs : Occurs) : Bool := occurs.max.any (· < occurs.min)

def text (occurs : Occurs) : String :=
  match occurs.max with
  | some max => s!"{occurs.min}..{max}"
  | none => s!"{occurs.min}..*"

end Occurs

/--
How often an attribute occurs: a scalar once or at most once, a collection as often as its range
allows.
-/
inductive Multiplicity where
  | one
  | optional
  | collection (occurs : Occurs)
deriving DecidableEq, Repr

/--
A declared attribute.
-/
structure Attribute where
  name : String
  type : AttributeType
  multiplicity : Multiplicity := .one
deriving DecidableEq, Repr

namespace Attribute

def occurs (a : Attribute) : Occurs :=
  match a.multiplicity with
  | .one => .one
  | .optional => .optional
  | .collection occurs => occurs

def isCollection (a : Attribute) : Bool :=
  match a.multiplicity with
  | .collection _ => true
  | _ => false

/--
The attribute may be left out.
-/
def isOptional (a : Attribute) : Bool := a.occurs.isOptional

theorem isOptional_iff {a : Attribute} : a.isOptional = true ↔ a.occurs.min = 0 := by
  simp [isOptional, Occurs.isOptional]

/--
The instance holds a present value under the name of the attribute.
-/
def isPresent (a : Attribute) (inst : Instance) : Bool := inst.isPresent a.name

end Attribute

end ContentModel
