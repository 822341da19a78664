import Mathlib.Data.List.Induction
import Mathlib.Data.List.ReduceOption
import Mathlib.Logic.Function.Basic
import ContentModel.Proofs.Latest
import ContentModel.Proofs.Mapping.Reading

/-!
This module contains the collector of mapping groups under arbitrary calls. The calls that concern one
group fall into three stretches: those before the group is seen, those up to its first flush, and those
that come later.
-/

namespace ContentModel

/--
The functions that a rule brings along for a group.
-/
def Rule.functions? (rule : Rule) (id : GroupId) : Option Custom :=
  match rule.handler with
  | .group other functions => if other = id then some functions else none
  | _ => none

namespace Collector

variable {groups : Collector} {id : GroupId}

/--
A call to a collector. Documents are known by the places in which they are kept.
-/
inductive Call where
  | enter (rule : Rule)
  | add (rule : Rule) (value : Value)
  | flush (id : GroupId) (inst : Instance) (place : Nat)

namespace Call

def rule? : Call → Option Rule
  | enter rule | add rule _ => some rule
  | flush .. => none

/--
The call comes with a rule that stands in no group.
-/
def isIdle (call : Call) : Bool :=
  call.rule?.any (·.group?.isNone)

def group? (call : Call) : Option GroupId :=
  call.rule?.bind (·.group?)

def functions? (call : Call) (id : GroupId) : Option Custom :=
  call.rule?.bind (·.functions? id)

/--
The field that the call collects for a group.
-/
def addition? (id : GroupId) : Call → Option (String × Value)
  | add rule value => if rule.group? = some id then some (rule.name, value) else none
  | _ => none

def flushes (id : GroupId) : Call → Bool
  | flush other _ _ => other == id
  | _ => false

/--
What the call makes of the bucket of a group.
-/
def touch (id : GroupId) (call : Call) : Option Bucket → Option Bucket
  | none =>
    (call.functions? id).map fun functions => ⟨functions, .ofList (call.addition? id).toList, false⟩
  | some bucket =>
    if call.flushes id && !bucket.flushed then
      some { bucket with values := .empty, flushed := true }
    else
      some { bucket with values := bucket.values.insertAll (call.addition? id).toList }

end Call

/--
A write function that runs, with what it runs on and the place of the document that is to take what
it writes.
-/
structure Run where
  id : GroupId
  write : Writer
  inst : Instance
  values : Document
  place : Nat

namespace Run

def part (run : Run) : Except MappingError Document :=
  written run.write run.inst run.values

/--
What the flush answers.
-/
def answer (run : Run) : Except MappingError Unit :=
  run.part.map fun _ => ()

/--
Merge what was written into the document at the place of the run.
-/
def land (documents : Nat → Document) (run : Run) : Nat → Document :=
  match run.part with
  | .ok part =>
    Function.update documents run.place ((documents run.place).insertAll part.toList)
  | .error _ => documents

end Run

/--
The bucket of a group whose write function has yet to run.
-/
def due? (groups : Collector) (id : GroupId) : Option Bucket :=
  (groups.find? id).filter fun bucket => !bucket.flushed

/--
The write function that a call runs.
-/
def run? (groups : Collector) : Call → Option Run
  | .flush id inst place =>
    (groups.due? id).map fun bucket => ⟨id, bucket.functions.write, inst, bucket.values, place⟩
  | _ => none

/--
A collector together with the documents around it.
-/
structure Session where
  groups : Collector
  documents : Nat → Document

namespace Session

/--
Make one call. A flush that fails hands back no document, and the one in its place stays.
-/
def call (session : Session) : Call → Session × Except MappingError Unit
  | .enter rule => ({ session with groups := session.groups.enter rule }, .ok ())
  | .add rule value => ({ session with groups := session.groups.add rule value }, .ok ())
  | .flush id inst place =>
    let (groups, document) := session.groups.flush id inst (session.documents place)
    match document.value with
    | .ok document => (⟨groups, Function.update session.documents place document⟩, .ok ())
    | .error e => (⟨groups, session.documents⟩, .error e)

def run (session : Session) (calls : List Call) : Session :=
  calls.foldl (fun session call => (session.call call).1) session

/--
What is seen of each call, right before it is made.
-/
def trace {α : Type} (see : Session → Call → α) : Session → List Call → List α
  | _, [] => []
  | session, call :: calls => see session call :: trace see (session.call call).1 calls

def answers (session : Session) (calls : List Call) : List (Except MappingError Unit) :=
  session.trace (fun session call => (session.call call).2) calls

def runs (session : Session) (calls : List Call) : List (Option Run) :=
  session.trace (fun session call => session.groups.run? call) calls

end Session

theorem find?_eq_none_iff : groups.find? id = none ↔ id ∉ groups.ids := by
  unfold find? ids
  rw [List.lookup_eq_none_iff]
  constructor
  . intro h hid
    rcases List.mem_map.mp hid with ⟨entry, hentry, rfl⟩
    simpa using h entry hentry
  . intro h entry hentry
    have hne : id ≠ entry.1 := fun heq => h (List.mem_map.mpr ⟨entry, hentry, heq.symm⟩)
    simpa using hne

theorem find?_modify (groups : Collector) (other id : GroupId) (f : Bucket → Bucket) :
    (groups.modify other f).find? id
      = (groups.find? id).map fun bucket => if other = id then f bucket else bucket := by
  rcases groups with ⟨buckets⟩
  unfold find? modify
  dsimp only
  induction buckets with
  | nil => rfl
  | cons entry rest ih =>
    rcases entry with ⟨key, bucket⟩
    have hkey : (if key = other then (other, f bucket) else (key, bucket))
        = (key, if other = key then f bucket else bucket) := by
      by_cases h : key = other
      . rw [if_pos h, if_pos h.symm, h]
      . rw [if_neg h, if_neg (Ne.symm h)]
    rw [List.map_cons, hkey, List.lookup_cons, List.lookup_cons]
    split
    . next heq =>
      rw [eq_of_beq heq]
      rfl
    . exact ih

theorem find?_append_of_ne {other : GroupId} (h : other ≠ id) (bucket : Bucket) :
    find? ⟨groups.buckets ++ [(other, bucket)]⟩ id = groups.find? id := by
  have hne : (id == other) = false := by
    simpa using Ne.symm h
  unfold find?
  rw [List.lookup_append, List.lookup_cons, hne]
  exact Option.or_none

theorem find?_enter (groups : Collector) (rule : Rule) (id : GroupId) :
    (groups.enter rule).find? id
      = (groups.find? id).or ((rule.functions? id).map (⟨·, .empty, false⟩)) := by
  rcases rule with ⟨name, handler, renderNil⟩
  cases handler with
  | target => exact Option.or_none.symm
  | custom => exact Option.or_none.symm
  | group other functions =>
    unfold enter Rule.functions?
    dsimp only
    by_cases hother : other = id
    . rw [if_pos hother, hother]
      split
      . next hid =>
        cases hfind : groups.find? id with
        | none => exact absurd hid (find?_eq_none_iff.mp hfind)
        | some bucket => rfl
      . next hid =>
        rw [find?_append_of_not_mem hid, find?_eq_none_iff.mpr hid]
        rfl
    . rw [if_neg hother, Option.map_none, Option.or_none]
      split
      . rfl
      . exact find?_append_of_ne hother _

theorem enter_of_group?_eq_none {rule : Rule} (h : rule.group? = none) : groups.enter rule = groups := by
  rcases rule with ⟨name, handler, renderNil⟩
  cases handler with
  | target => rfl
  | custom => rfl
  | group => cases h

theorem add_of_group?_eq_none {rule : Rule} (h : rule.group? = none) (value : Value) :
    groups.add rule value = groups := by
  rw [add, h]

theorem find?_add (groups : Collector) (rule : Rule) (value : Value) (id : GroupId) :
    (groups.add rule value).find? id
      = ((groups.enter rule).find? id).map fun bucket =>
          { bucket with
            values := bucket.values.insertAll ((Call.add rule value).addition? id).toList } := by
  have haddition : (Call.add rule value).addition? id
      = if rule.group? = some id then some (rule.name, value) else none := rfl
  rw [haddition]
  cases hgroup : rule.group? with
  | none =>
    rw [add_of_group?_eq_none hgroup, enter_of_group?_eq_none hgroup]
    exact Option.map_id'.symm
  | some other =>
    rw [add, hgroup, find?_modify]
    congr 1
    funext bucket
    by_cases hother : other = id
    . rw [if_pos hother, if_pos (congrArg some hother)]
      rfl
    . rw [if_neg hother, if_neg fun heq => hother (Option.some.inj heq)]
      rfl

theorem flush_of_due?_eq_none (h : groups.due? id = none) (inst : Instance) (doc : Document) :
    groups.flush id inst doc = (groups, pure (.ok doc)) := by
  unfold due? at h
  unfold flush
  split
  . rfl
  . next bucket hfind =>
    rw [hfind, Option.filter_some] at h
    split
    . rfl
    . next hflushed =>
      simp [hflushed] at h

/--
The document of the first flush of a group takes what the write function makes of the values collected so
far. The group is flushed and gives up its values whether the function fails or not.
-/
theorem flush_of_due?_eq_some {bucket : Bucket} (h : groups.due? id = some bucket) (inst : Instance)
    (doc : Document) :
    (groups.flush id inst doc).1
        = groups.modify id (fun bucket => { bucket with values := .empty, flushed := true })
      ∧ (groups.flush id inst doc).2.value
        = (written bucket.functions.write inst bucket.values).map fun part =>
            doc.insertAll part.toList := by
  rcases Option.filter_eq_some_iff.mp h with ⟨hfind, hflushed⟩
  rw [Bool.not_eq_true'] at hflushed
  unfold flush written
  rw [hfind]
  dsimp only
  rw [hflushed, if_neg Bool.false_ne_true]
  cases bucket.functions.write inst bucket.values <;> exact ⟨rfl, rfl⟩

theorem find?_flush (groups : Collector) (other id : GroupId) (inst : Instance) (doc : Document) :
    (groups.flush other inst doc).1.find? id
      = (groups.find? id).map fun bucket =>
          if other == id && !bucket.flushed then { bucket with values := .empty, flushed := true }
          else bucket := by
  cases hdue : groups.due? other with
  | none =>
    rw [flush_of_due?_eq_none hdue]
    cases hfind : groups.find? id with
    | none => rfl
    | some bucket =>
      rw [Option.map_some, if_neg]
      intro h
      rw [Bool.and_eq_true, beq_iff_eq] at h
      rw [h.1, due?, hfind, Option.filter_some, if_pos h.2] at hdue
      cases hdue
  | some due =>
    rcases Option.filter_eq_some_iff.mp hdue with ⟨hfind, hflushed⟩
    rw [(flush_of_due?_eq_some hdue inst doc).1, find?_modify]
    by_cases hother : other = id
    . rw [← hother, hfind, Option.map_some, Option.map_some, if_pos rfl, if_pos]
      simp [hflushed]
    . simp only [hother, beq_false_of_ne hother, Bool.false_and, if_false, Bool.false_eq_true]

theorem ids_enter (groups : Collector) (rule : Rule) :
    (groups.enter rule).ids
      = match rule.group? with
        | some id => if id ∈ groups.ids then groups.ids else groups.ids ++ [id]
        | none => groups.ids := by
  rcases rule with ⟨name, handler, renderNil⟩
  cases handler with
  | target => rfl
  | custom => rfl
  | group id functions =>
    unfold enter Rule.group?
    dsimp only
    split
    . rfl
    . exact ids_append groups id _

theorem ids_add (groups : Collector) (rule : Rule) (value : Value) :
    (groups.add rule value).ids = (groups.enter rule).ids := by
  cases hgroup : rule.group? with
  | none => rw [add_of_group?_eq_none hgroup, enter_of_group?_eq_none hgroup]
  | some id =>
    rw [add, hgroup]
    exact ids_modify _ id _

/--
The last value of each field that the calls collect for a group.
-/
def collected (id : GroupId) (calls : List Call) : Document :=
  .latest (calls.filterMap (·.addition? id))

theorem collected_concat (id : GroupId) (calls : List Call) (call : Call) :
    collected id (calls ++ [call]) = (collected id calls).insertAll (call.addition? id).toList := by
  have hone : [call].filterMap (·.addition? id) = (call.addition? id).toList := by
    cases h : call.addition? id <;> simp [h]
  unfold collected
  rw [List.filterMap_append, hone, ← Entries.ofList_eq_latest, ← Entries.ofList_eq_latest]
  exact List.foldl_append

theorem functions?_eq_none_iff {call : Call} :
    call.functions? id = none ↔ call.group? ≠ some id := by
  have hrule (rule : Rule) : rule.functions? id = none ↔ rule.group? ≠ some id := by
    rcases rule with ⟨name, handler, renderNil⟩
    cases handler with
    | target => simp [Rule.functions?, Rule.group?]
    | custom => simp [Rule.functions?, Rule.group?]
    | group other functions => simp [Rule.functions?, Rule.group?]
  cases call with
  | enter rule => exact hrule rule
  | add rule value => exact hrule rule
  | flush => simp [Call.functions?, Call.group?, Call.rule?]

/--
The write function that a call runs belongs to the group that the call flushes for the first time.
-/
theorem flushes_of_run?_eq_some {call : Call} {run : Run} (h : groups.run? call = some run) :
    call.flushes run.id = true ∧ groups.due? run.id ≠ none := by
  cases call with
  | enter => cases h
  | add => cases h
  | flush other inst place =>
    rcases Option.map_eq_some_iff.mp h with ⟨bucket, hdue, rfl⟩
    constructor
    . exact beq_self_eq_true other
    . rw [hdue]
      exact Option.some_ne_none bucket

theorem filter_run?_eq_nil {call : Call} (h : call.flushes id = false ∨ groups.due? id = none) :
    (groups.run? call).toList.filter (·.id == id) = [] := by
  rw [List.filter_eq_nil_iff]
  intro run hrun hid
  rcases flushes_of_run?_eq_some (Option.mem_toList.mp hrun) with ⟨hflushes, hdue⟩
  rw [eq_of_beq hid] at hflushes hdue
  rcases h with h | h
  . rw [h] at hflushes
    cases hflushes
  . exact hdue h

/--
How a group fares: the calls, the bucket that they leave for the group, and the runs of its write
function.
-/
inductive Life (id : GroupId) : List Call → Option Bucket → List Run → Prop where
  | unseen {calls : List Call} (h : ∀ call ∈ calls, call.group? ≠ some id) : Life id calls none []
  | gathering {before during : List Call} {first : Call} {functions : Custom}
    (hbefore : ∀ call ∈ before, call.group? ≠ some id)
    (hfirst : first.functions? id = some functions)
    (hduring : ∀ call ∈ during, call.flushes id = false) :
    Life id (before ++ first :: during) (some ⟨functions, collected id (first :: during), false⟩) []
  | flushed {before during after : List Call} {first : Call} {functions : Custom} {inst : Instance}
    {place : Nat}
    (hbefore : ∀ call ∈ before, call.group? ≠ some id)
    (hfirst : first.functions? id = some functions)
    (hduring : ∀ call ∈ during, call.flushes id = false) :
    Life id (before ++ first :: during ++ .flush id inst place :: after)
      (some ⟨functions, collected id after, true⟩)
      [⟨id, functions.write, inst, collected id (first :: during), place⟩]

theorem Life.step {calls : List Call} {runs : List Run} (h : Life id calls (groups.find? id) runs)
    (call : Call) :
    Life id (calls ++ [call]) (call.touch id (groups.find? id))
      (runs ++ (groups.run? call).toList.filter (·.id == id)) := by
  have hdue : groups.due? id = (groups.find? id).filter fun bucket => !bucket.flushed := rfl
  generalize groups.find? id = bucket? at h hdue ⊢
  -- Only a group that is gathering values has a write function to run.
  cases h with
  | unseen h =>
    rw [filter_run?_eq_nil (.inr hdue)]
    cases hfunctions : call.functions? id with
    | none =>
      rw [Call.touch, hfunctions]
      have hlonger : ∀ other ∈ calls ++ [call], other.group? ≠ some id := by
        rw [List.forall_mem_append, List.forall_mem_singleton]
        exact ⟨h, functions?_eq_none_iff.mp hfunctions⟩
      exact unseen hlonger
    | some functions =>
      rw [Call.touch, hfunctions]
      have hcollected : collected id [call] = .ofList (call.addition? id).toList :=
        collected_concat id [] call
      rw [Option.map_some, ← hcollected]
      exact gathering h hfunctions fun call hcall => nomatch hcall
  | @gathering before during first functions hbefore hfirst hduring =>
    cases hflushes : call.flushes id with
    | false =>
      rw [filter_run?_eq_nil (.inl hflushes), Call.touch, hflushes, Bool.false_and]
      rw [if_neg Bool.false_ne_true, ← collected_concat, List.append_assoc]
      have hlonger : ∀ other ∈ during ++ [call], other.flushes id = false := by
        rw [List.forall_mem_append, List.forall_mem_singleton]
        exact ⟨hduring, hflushes⟩
      exact gathering hbefore hfirst hlonger
    | true =>
      cases call with
      | enter => cases hflushes
      | add => cases hflushes
      | flush other inst place =>
        cases eq_of_beq hflushes
        rw [Option.filter_some, Bool.not_false, if_pos rfl] at hdue
        rw [run?, hdue, Call.touch, hflushes]
        rw [Option.map_some, Option.toList_some, List.filter_cons_of_pos (by exact hflushes)]
        exact flushed hbefore hfirst hduring
  | @flushed before during after first functions inst place hbefore hfirst hduring =>
    rw [filter_run?_eq_nil (.inr hdue), Call.touch, Bool.not_true, Bool.and_false]
    rw [if_neg Bool.false_ne_true, ← collected_concat, List.append_assoc]
    exact flushed hbefore hfirst hduring

namespace Session

theorem groups_call_flush (session : Session) (id : GroupId) (inst : Instance) (place : Nat) :
    (session.call (.flush id inst place)).1.groups
      = (session.groups.flush id inst (session.documents place)).1 := by
  unfold call
  dsimp only
  split <;> rfl

theorem find?_call (session : Session) (call : Call) (id : GroupId) :
    (session.call call).1.groups.find? id = call.touch id (session.groups.find? id) := by
  cases call with
  | enter rule =>
    rw [Session.call, find?_enter]
    cases session.groups.find? id with
    | none => rfl
    | some bucket => rfl
  | add rule value =>
    rw [Session.call, find?_add, find?_enter]
    cases session.groups.find? id with
    | none =>
      rw [Option.none_or, Option.map_map]
      rfl
    | some bucket => rfl
  | flush other inst place =>
    rw [groups_call_flush, find?_flush]
    cases session.groups.find? id with
    | none => rfl
    | some bucket =>
      rw [Option.map_some, apply_ite some]
      rfl

theorem ids_call (session : Session) (call : Call) :
    (session.call call).1.groups.ids
      = match call.group? with
        | some id => if id ∈ session.groups.ids then session.groups.ids else session.groups.ids ++ [id]
        | none => session.groups.ids := by
  cases call with
  | enter rule => exact ids_enter session.groups rule
  | add rule value => exact (ids_add session.groups rule value).trans (ids_enter session.groups rule)
  | flush id inst place =>
    rw [groups_call_flush]
    exact ids_flush session.groups id inst _

theorem call_of_isIdle {call : Call} (h : call.isIdle = true) (session : Session) :
    (session.call call).1 = session := by
  cases call with
  | enter rule =>
    have hgroup : rule.group? = none := Option.isNone_iff_eq_none.mp h
    rw [Session.call, enter_of_group?_eq_none hgroup]
  | add rule value =>
    have hgroup : rule.group? = none := Option.isNone_iff_eq_none.mp h
    rw [Session.call, add_of_group?_eq_none hgroup]
  | flush => cases h

/--
All that the documents and the caller see of a call is the run that it causes.
-/
theorem call_eq_run (session : Session) (call : Call) :
    (session.call call).1.documents
        = (session.groups.run? call).toList.foldl Run.land session.documents
      ∧ (session.call call).2 = ((session.groups.run? call).map Run.answer).getD (.ok ()) := by
  cases call with
  | enter => exact ⟨rfl, rfl⟩
  | add => exact ⟨rfl, rfl⟩
  | flush id inst place =>
    cases hdue : session.groups.due? id with
    | none =>
      rw [Session.call, flush_of_due?_eq_none hdue, run?, hdue]
      exact ⟨Function.update_eq_self place session.documents, rfl⟩
    | some bucket =>
      rcases flush_of_due?_eq_some hdue inst (session.documents place) with ⟨-, hvalue⟩
      rw [run?, hdue, Session.call]
      dsimp only [Option.map_some, Option.toList_some, List.foldl_cons, List.foldl_nil, Option.getD_some]
      rw [hvalue]
      unfold Run.land Run.answer Run.part
      dsimp only
      cases written bucket.functions.write inst bucket.values <;> exact ⟨rfl, rfl⟩

theorem run_concat (session : Session) (calls : List Call) (call : Call) :
    session.run (calls ++ [call]) = ((session.run calls).call call).1 :=
  List.foldl_concat ..

theorem trace_concat {α : Type} (see : Session → Call → α) (session : Session) (calls : List Call)
    (call : Call) :
    session.trace see (calls ++ [call]) = session.trace see calls ++ [see (session.run calls) call] := by
  induction calls generalizing session with
  | nil => rfl
  | cons first rest ih => exact congrArg (see session first :: ·) (ih (session.call first).1)

theorem runs_concat (session : Session) (calls : List Call) (call : Call) :
    (session.runs (calls ++ [call])).reduceOption
      = (session.runs calls).reduceOption ++ ((session.run calls).groups.run? call).toList := by
  rw [runs, trace_concat, List.reduceOption_append]
  rfl

theorem run_filter_isIdle (session : Session) (calls : List Call) :
    session.run (calls.filter fun call => !call.isIdle) = session.run calls := by
  induction calls generalizing session with
  | nil => rfl
  | cons call rest ih =>
    cases hidle : call.isIdle with
    | true =>
      rw [List.filter_cons_of_neg (by simp [hidle]), ih]
      change _ = (session.call call).1.run rest
      rw [call_of_isIdle hidle]
    | false =>
      rw [List.filter_cons_of_pos (by simp [hidle])]
      exact ih (session.call call).1

theorem answers_eq_runs (session : Session) (calls : List Call) :
    session.answers calls
      = (session.runs calls).map fun run? => (run?.map Run.answer).getD (.ok ()) := by
  unfold answers runs
  induction calls generalizing session with
  | nil => rfl
  | cons call rest ih =>
    rw [trace, trace, List.map_cons, ih, (session.call_eq_run call).2]

theorem documents_run (session : Session) (calls : List Call) :
    (session.run calls).documents
      = (session.runs calls).reduceOption.foldl Run.land session.documents := by
  induction calls using List.reverseRecOn with
  | nil => rfl
  | append_singleton calls call ih =>
    rw [run_concat, runs_concat, List.foldl_append, ← ih]
    exact (call_eq_run _ call).1

theorem ids_run (documents : Nat → Document) (calls : List Call) :
    (run ⟨.empty, documents⟩ calls).groups.ids = (calls.filterMap Call.group?).eraseDups := by
  induction calls using List.reverseRecOn with
  | nil => rfl
  | append_singleton calls call ih =>
    rw [run_concat, ids_call, ih, List.filterMap_append]
    cases hgroup : call.group? with
    | none => simp [hgroup]
    | some id =>
      have hone : [call].filterMap Call.group? = [id] := by simp [hgroup]
      rw [hone, eraseDups_concat]
      simp only [List.mem_eraseDups]

theorem life_run (documents : Nat → Document) (calls : List Call) (id : GroupId) :
    Life id calls ((run ⟨.empty, documents⟩ calls).groups.find? id)
      ((runs ⟨.empty, documents⟩ calls).reduceOption.filter (·.id == id)) := by
  induction calls using List.reverseRecOn with
  | nil => exact .unseen fun call hcall => nomatch hcall
  | append_singleton calls call ih =>
    rw [run_concat, find?_call, runs_concat, List.filter_append]
    exact ih.step call

end Session

/--
With no group held twice, the buckets are those found under the numbers.
-/
theorem buckets_eq_filterMap (h : groups.ids.Nodup) :
    groups.buckets.map Prod.snd = groups.ids.filterMap groups.find? := by
  rcases groups with ⟨buckets⟩
  unfold find? ids at *
  dsimp only at *
  induction buckets with
  | nil => rfl
  | cons entry rest ih =>
    rw [List.map_cons, List.nodup_cons] at h
    have hrest : ∀ id ∈ rest.map Prod.fst, (entry :: rest).lookup id = rest.lookup id := by
      intro id hid
      have hne : id ≠ entry.1 := fun heq => h.1 (heq ▸ hid)
      rw [List.lookup_cons, beq_false_of_ne hne]
    have hentry : (entry :: rest).lookup entry.1 = some entry.2 := List.lookup_cons_self
    rw [List.map_cons, List.map_cons, List.filterMap_cons_some (by rw [hentry])]
    rw [List.filterMap_congr hrest, ih h.2]

theorem value_apply_eq_forM (h : groups.ids.Nodup) (inst : Instance) :
    (groups.apply inst).value
      = (groups.ids.filterMap groups.find?).forM
          (fun bucket => bucket.functions.read (.map bucket.values)) inst := by
  have hread : (groups.buckets.map fun entry => (entry.2.functions, entry.2.values)).forM
        (fun part => part.1.read (.map part.2))
      = (groups.buckets.map Prod.snd).forM fun bucket => bucket.functions.read (.map bucket.values) := by
    simp only [List.forM_eq_forM, List.forM_map]
  rw [← buckets_eq_filterMap h, value_apply, hread]

/--
What any calls make of a fresh collector. It holds the groups in the order in which they are first seen.
Each of them fares by itself, and its write function runs at its first flush and never again; the
documents and the answers are those of the runs, and rules that stand in no group are as good as absent.
In the end each group reads what was collected for it last, up to the first error.
-/
theorem Session.run_fresh (documents : Nat → Document) (calls : List Call) :
    let fresh : Session := ⟨.empty, documents⟩
    let groups := (fresh.run calls).groups
    let runs := fresh.runs calls
    groups.ids = (calls.filterMap Call.group?).eraseDups
      ∧ (∀ id, Life id calls (groups.find? id) (runs.reduceOption.filter (·.id == id)))
      ∧ (fresh.run calls).documents = runs.reduceOption.foldl Run.land documents
      ∧ (fresh.answers calls = runs.map fun run? => (run?.map Run.answer).getD (.ok ()))
      ∧ fresh.run (calls.filter fun call => !call.isIdle) = fresh.run calls
      ∧ ∀ inst, (groups.apply inst).value
          = (groups.ids.filterMap groups.find?).forM
              (fun bucket => bucket.functions.read (.map bucket.values)) inst := by
  intro fresh groups runs
  have hids : groups.ids = (calls.filterMap Call.group?).eraseDups := ids_run documents calls
  refine ⟨hids, ?_, ?_, ?_, ?_, ?_⟩
  . exact life_run documents calls
  . exact documents_run fresh calls
  . exact answers_eq_runs fresh calls
  . exact run_filter_isIdle fresh calls
  . apply value_apply_eq_forM
    rw [hids]
    exact nodup_eraseDups _

-- The second flush would succeed, but the function has run.
example :
    let copying : Custom := {
      read := fun _ inst => .ok () inst
      write := fun inst doc =>
        match inst.get? "street" with
        | some value => .ok () (doc.insert "street" value)
        | none => .error (.custom "copy" "nothing to copy") doc }
    let inst := Instance.new "Invoice"
    let calls : List Call := [
      .flush ⟨0⟩ inst 0,
      .enter ⟨"street", .group ⟨0⟩ copying, none⟩,
      .flush ⟨0⟩ inst 0,
      .flush ⟨0⟩ (inst.set "street" (toValue "S")) 0]
    Session.answers ⟨.empty, fun _ => .empty⟩ calls
        = [.ok (), .ok (), .error (.custom "copy" "nothing to copy"), .ok ()]
      ∧ (Session.run ⟨.empty, fun _ => .empty⟩ calls).documents 0 = .empty :=
  ⟨rfl, rfl⟩

end Collector

end ContentModel
