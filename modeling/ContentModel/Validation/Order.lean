import ContentModel.Failure

/-!
This module contains the order check of a sequence, which compares the order in which its children
are declared with the element order of an instance.
-/

namespace ContentModel

/--
What a sequence makes of an element order that lacks its first expected child: let it pass, or
report it.
-/
inductive Anchor where
  | lenient
  | strict
deriving DecidableEq, Repr

namespace Anchor

def keyword : Anchor → String
  | .lenient => "lenient"
  | .strict => "strict"

/--
The anchor with a given keyword.
-/
def ofKeyword? (s : String) : Option Anchor := [lenient, strict].find? (·.keyword == s)

/--
What is said about a text that is no keyword of an anchor.
-/
def unsupported : String := "Unsupported sequence anchor"

end Anchor

/--
The outcome of an order check.
-/
inductive OrderVerdict where
  /-- The declared order is kept, or there is nothing to compare. -/
  | kept
  /-- The first expected child does not occur, and the check was passed over. -/
  | unanchored (expected : String)
  /-- Another element, or the end, stands where a child is expected. -/
  | broken (expected : String) (found : Option String)
deriving DecidableEq, Repr

namespace OrderVerdict

def failure? : OrderVerdict → Option Failure
  | .broken expected found => some (.incorrectSequence expected found)
  | _ => none

end OrderVerdict

namespace OrderCheck

/--
The elements that the sequence has a say about.
-/
def actual (declared : List Attribute) (order : ElementOrder) : List String :=
  order.elements.filter fun name => declared.any (·.name == name)

/--
The declared children that have to show up: all but the optional ones that do not occur.
-/
def expected (declared : List Attribute) (actual : List String) : List Attribute :=
  declared.filter fun a => actual.contains a.name || !a.isOptional

/--
Match children with elements from the left. A scalar takes one element, a collection all of its
elements that follow each other. The first child without an element is returned with the element
that stands in its place; elements behind the last child do not count.
-/
def mismatch : List Attribute → List String → Option (String × Option String)
  | [], _ => none
  | a :: _, [] => some (a.name, none)
  | a :: rest, found :: remaining =>
    if found = a.name then
      mismatch rest (if a.isCollection then remaining.dropWhile (· == a.name) else remaining)
    else
      some (a.name, some found)

theorem mem_actual {declared : List Attribute} {order : ElementOrder} {name : String} :
    name ∈ actual declared order ↔ name ∈ order.elements ∧ name ∈ declared.map (·.name) := by
  unfold actual
  rw [List.mem_filter, List.any_eq_true, List.mem_map]
  simp

end OrderCheck

open OrderCheck in
/--
Check the declared order of a sequence against the element order of an instance. The comparison
starts at the first occurrence of the first expected child.
-/
def checkOrder (anchor : Anchor) (order : Option ElementOrder) (declared : List Attribute) :
    OrderVerdict :=
  match order with
  | none => .kept
  | some order =>
    let actual := actual declared order
    match expected declared actual with
    | [] => .kept
    | first :: rest =>
      match actual.dropWhile (· != first.name) with
      | [] =>
        match anchor with
        | .lenient => .unanchored first.name
        | .strict => .broken first.name actual.head?
      | remaining =>
        match mismatch (first :: rest) remaining with
        | none => .kept
        | some (expected, found) => .broken expected found

end ContentModel
