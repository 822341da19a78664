import ContentModel.Log
import ContentModel.Mapping.Rule

/-!
This module contains the collector of mapping groups. During one pass it keeps a bucket for each
group it has seen, so that the functions of a group run once for the group and not once for each of
its rules.
-/

namespace ContentModel

/--
The state of one group: its functions, the document values collected for it, and whether its write
function has run.
-/
structure Bucket where
  functions : Custom
  values : Document
  flushed : Bool

/--
The groups seen so far, in the order in which they were first seen.
-/
structure Collector where
  buckets : List (GroupId × Bucket)

namespace Collector

def empty : Collector := ⟨[]⟩

/--
The number of groups seen so far.
-/
def size (groups : Collector) : Nat := groups.buckets.length

def isEmpty (groups : Collector) : Bool := groups.buckets.isEmpty

/--
The numbers of the groups seen so far.
-/
def ids (groups : Collector) : List GroupId := groups.buckets.map Prod.fst

/--
The list of group numbers with the name of their type.
-/
def idsText (groups : Collector) : String :=
  "[" ++ ", ".intercalate (groups.ids.map GroupId.typedText) ++ "]"

/--
The bucket of a group.
-/
def find? (groups : Collector) (id : GroupId) : Option Bucket :=
  groups.buckets.lookup id

/--
Change the bucket of a group that was seen.
-/
def modify (groups : Collector) (id : GroupId) (f : Bucket → Bucket) : Collector :=
  ⟨groups.buckets.map fun entry => if entry.1 = id then (id, f entry.2) else entry⟩

/--
Take note of the group of a rule. The functions of the first rule seen count; a rule without a
group changes nothing.
-/
def enter (groups : Collector) (rule : Rule) : Collector :=
  match rule.handler with
  | .group id functions =>
    if id ∈ groups.ids then groups else ⟨groups.buckets ++ [(id, ⟨functions, .empty, false⟩)]⟩
  | _ => groups

/--
Collect a document value for the group of a rule, under the field name of the rule.
-/
def add (groups : Collector) (rule : Rule) (value : Value) : Collector :=
  match rule.group? with
  | some id =>
    (groups.enter rule).modify id fun bucket =>
      { bucket with values := bucket.values.insert rule.name value }
  | none => groups

/--
Run the write function of a group on the values collected for it, and merge what it wrote into the
document. The function runs once: the group counts as flushed, and gives up its values, before it
runs. A group that was not seen or is flushed already leaves the document as it is.
-/
def flush (groups : Collector) (id : GroupId) (inst : Instance) (doc : Document) :
    Collector × Logged (Except MappingError Document) :=
  match groups.find? id with
  | none => (groups, pure (.ok doc))
  | some bucket =>
    if bucket.flushed then
      (groups, pure (.ok doc))
    else
      let groups := groups.modify id fun bucket => { bucket with values := .empty, flushed := true }
      match bucket.functions.write inst bucket.values with
      | .error e _ => (groups, pure (.error e))
      | .ok () written =>
        (groups, do
          Logged.log .trace "Flushed mapping group"
            [("group", id.text), ("fields", toString written.size)]
          return .ok (doc.insertAll written.toList))

/--
Run the read function of each group on the map of its values, up to the first error.
-/
def apply (groups : Collector) (inst : Instance) :
    Logged (EStateM.Result MappingError Instance Unit) :=
  go groups.buckets inst
where
  go : List (GroupId × Bucket) → Instance → Logged (EStateM.Result MappingError Instance Unit)
    | [], inst => pure (.ok () inst)
    | (id, bucket) :: rest, inst => do
      Logged.log .trace "Applying mapping group"
        [("group", id.text), ("fields", toString bucket.values.size)]
      match bucket.functions.read (.map bucket.values) inst with
      | .ok () inst => go rest inst
      | .error e inst => return .error e inst

end Collector

end ContentModel
