import Slideshow.Service.Call
import Slideshow.Store.Ledger

/-! # The web service in memory

Store and queue in memory, with a journal of what is asked of them. A script lets calls fail; a call
that fails is in the journal and has no effect. -/

namespace Slideshow

/-- The state of a service in memory. -/
structure ServiceMemory where
  ledger : Ledger := {}
  queued : List (VideoRequest Float) := []
  /-- What was asked of store and queue. -/
  journal : List ServiceCall := []
  /-- How many jobs were given names. -/
  jobs : Nat := 0
  /-- What was counted. -/
  counters : List Counter := []

namespace ServiceMemory

/-- The answer to a call to the store that changes something. -/
def change (f : Ledger → Ledger) : StateM ServiceMemory (Except ServiceError Unit) := fun m =>
  (.ok (), { m with ledger := f m.ledger })

/-- The answer to a call that does not fail. -/
def perform (now : Timestamp) : (c : ServiceCall) → StateM ServiceMemory c.Answer
  | .create record => change fun l => l.insert record
  | .load id => fun m => (.ok (m.ledger.get? id), m)
  | .markFailed id reason =>
    change fun l => ((Ledger.update id (JobRecord.withFailure reason)).run l).2
  | .enqueue request => fun m => (.ok (), { m with queued := m.queued ++ [request] })
  | .checkStore | .checkQueue => pure (.ok ())
  | .newJobId => fun m => ("<job-" ++ Decimal.natText m.jobs ++ ">", { m with jobs := m.jobs + 1 })
  | .newRequestId => pure "<uuid>"
  | .now => pure now
  | .clock => pure (0 : Nat)
  | .count event => fun m => ((), { m with counters := m.counters ++ [event] })
  | .showCounters => fun m => ("\n".intercalate (Counter.lines m.counters), m)

/-- The answer of a call that fails, if it can. -/
def failed? (e : ServiceError) : (c : ServiceCall) → Option c.Answer
  | .load _ => some (.error e)
  | .create _ | .markFailed _ _ | .enqueue _ | .checkStore | .checkQueue => some (.error e)
  | .newJobId | .newRequestId | .now | .clock | .count _ | .showCounters => none

/-- The script of an outage: the calls that are named fail, as the store or the queue would let them
fail where that is named too. -/
def outage (down : List String) (name : String) : Option ServiceError :=
  if down.contains name then some (.internal (name ++ " down"))
  else if down.contains (name ++ ":firestore") then some (.store (.serverError 503 "down"))
  else if down.contains (name ++ ":queue") then some (.queue (.duplicate "k"))
  else none

/-- The answer to a call, where a script tells which calls fail and how. -/
def answer (now : Timestamp) (script : String → Option ServiceError) (c : ServiceCall) :
    StateM ServiceMemory c.Answer := do
  match c.name? with
  | none => perform now c
  | some name =>
    modify fun m => { m with journal := m.journal ++ [c] }
    match script name >>= fun e => failed? e c with
    | some a => return a
    | none => perform now c

end ServiceMemory

end Slideshow
