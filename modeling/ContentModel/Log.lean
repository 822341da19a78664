import ContentModel.Text.Quoted

/-!
This module contains log records and computations that write them. A record is data: what is logged
and in which order is part of an answer, and where the records go is not decided here.
-/

namespace ContentModel

namespace Log

/--
The levels of log records, the most severe first.
-/
inductive Level where
  | error
  | warn
  | info
  | debug
  | trace
deriving DecidableEq, Repr

namespace Level

/--
All levels, the most severe first.
-/
def all : List Level := [.error, .warn, .info, .debug, .trace]

def text : Level → String
  | .error => "ERROR"
  | .warn => "WARN"
  | .info => "INFO"
  | .debug => "DEBUG"
  | .trace => "TRACE"

/--
The place among the levels: the more severe the smaller.
-/
def rank : Level → Nat
  | .error => 0
  | .warn => 1
  | .info => 2
  | .debug => 3
  | .trace => 4

/--
A log that is kept at `limit` takes records at this level.
-/
def within (level limit : Level) : Bool := level.rank ≤ limit.rank

/--
The level with a given text.
-/
def ofText? (s : String) : Option Level := all.find? (·.text == s)

end Level

/--
One log record: a message and named values, already written as text.
-/
structure Record where
  level : Level
  message : String
  fields : List (String × String) := []
deriving DecidableEq, Repr

end Log

/--
A value together with the records that were written while it was computed.
-/
structure Logged (α : Type) where
  value : α
  records : List Log.Record := []

namespace Logged

variable {α β : Type}

/--
Only write a record.
-/
def log (level : Log.Level) (message : String) (fields : List (String × String)) : Logged Unit :=
  ⟨(), [⟨level, message, fields⟩]⟩

instance : Monad Logged where
  pure a := ⟨a, []⟩
  bind a f :=
    let b := f a.value
    ⟨b.value, a.records ++ b.records⟩

@[simp]
theorem value_pure (a : α) : (pure a : Logged α).value = a := rfl

@[simp]
theorem value_bind (a : Logged α) (f : α → Logged β) : (a >>= f).value = (f a.value).value := rfl

@[simp]
theorem records_pure (a : α) : (pure a : Logged α).records = [] := rfl

@[simp]
theorem records_bind (a : Logged α) (f : α → Logged β) :
    (a >>= f).records = a.records ++ (f a.value).records := rfl

end Logged

end ContentModel
