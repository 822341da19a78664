/-!
This module contains `ElementOrder`, the names of a node's children as a document reader met them.
-/

namespace ContentModel

/--
The child names of a document node in document order. Text and CDATA children stand in `names`
under marker names; `mixed` says that text and elements are interleaved.
-/
structure ElementOrder where
  names : List String := []
  mixed : Bool := false
deriving DecidableEq, Repr, Inhabited

namespace ElementOrder

/--
The name recorded for a text child.
-/
def textMarker : String := "text"

/--
The name recorded for a CDATA child.
-/
def cdataMarker : String := "cdata"

/--
The child names without the markers.
-/
def elements (order : ElementOrder) : List String :=
  order.names.filter fun name => name != textMarker && name != cdataMarker

/--
No child was recorded at all, not even a marker.
-/
def isEmpty (order : ElementOrder) : Bool := order.names.isEmpty

theorem mem_elements {order : ElementOrder} {name : String} :
    name ∈ order.elements ↔ name ∈ order.names ∧ name ≠ textMarker ∧ name ≠ cdataMarker := by
  simp [elements]

end ElementOrder

end ContentModel
