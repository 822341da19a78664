import ContentModel.Declaration.Problem
import ContentModel.Mapping

/-!
This module contains declared mapping rules and the step from them to the rules of a mapping. Rules
that lack something are left out and leave one problem behind; the fields of a mapping group become
rules that share the number and the functions of the group.
-/

namespace ContentModel

/--
A mapping rule as it is declared, with whatever was said about it.
-/
structure RuleDraft where
  name : String
  target : Option String := none
  delegate : Option String := none
  renderNil : Option Bool := none
  read : Option Reader := none
  write : Option Writer := none

namespace RuleDraft

/--
The rule, if it is complete: it has both functions, or it has none and a target.
-/
def complete (draft : RuleDraft) : Except Problem Rule :=
  match draft.read, draft.write with
  | some read, some write =>
    .ok ⟨draft.name, .custom ⟨read, write⟩ draft.target draft.delegate, draft.renderNil⟩
  | none, none =>
    match draft.target with
    | some target => .ok ⟨draft.name, .target ⟨target, draft.delegate⟩, draft.renderNil⟩
    | none => .error (.ruleWithoutTarget draft.name)
  | _, _ => .error (.ruleWithOneFunction draft.name)

end RuleDraft

/--
An entry of a declared mapping: a rule, or a group of fields that share a pair of functions.
-/
inductive MappingEntry where
  | rule (draft : RuleDraft)
  | group (functions : Custom) (fields : List String)

namespace MappingEntry

def isGroup : MappingEntry → Bool
  | .rule _ => false
  | .group .. => true

/--
The rules of declared entries and the problems with them. Groups are numbered from `n`.
-/
def elaborate (n : Nat) : List MappingEntry → List Rule × List Problem
  | [] => ([], [])
  | .rule draft :: rest =>
    let (rules, problems) := elaborate n rest
    match draft.complete with
    | .ok complete => (complete :: rules, problems)
    | .error problem => (rules, problem :: problems)
  | .group functions fields :: rest =>
    let (rules, problems) := elaborate (n + 1) rest
    (fields.map (fun field => ⟨field, .group ⟨n⟩ functions, none⟩) ++ rules, problems)

end MappingEntry

/--
What a rule gets wrong about the attributes of its model. A delegate has to be declared and to hold
instances, and then the target is a matter of the nested model; without a delegate the target has to
be declared.
-/
def Rule.problem? (attributes : List Attribute) (rule : Rule) : Option Problem :=
  match rule.delegate? with
  | some delegate =>
    match attributes.find? (·.name == delegate) with
    | none => some (.unknownDelegate rule.name delegate)
    | some a =>
      if a.type.model?.isSome then none else some (.scalarDelegate rule.name delegate a.type)
  | none =>
    match rule.handler with
    | .target target =>
      if attributes.any (·.name == target.name) then
        none
      else
        some (.unknownTarget rule.name target.name)
    | _ => none

end ContentModel
