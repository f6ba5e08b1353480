import Slideshow.Metrics
import Slideshow.Program
import Slideshow.Service.Error

/-! # What the web service calls

The service keeps records of jobs in a store and hands requests to a queue. -/

namespace Slideshow

/-- A call of the web service. -/
inductive ServiceCall where
  /-- Creates the record of a job. -/
  | create (record : JobRecord)
  | load (id : JobId)
  | markFailed (id : JobId) (reason : String)
  /-- Hands a request to the queue. -/
  | enqueue (request : VideoRequest Float)
  | checkStore
  | checkQueue
  /-- A name that no other job has. -/
  | newJobId
  /-- A name that no other request has. -/
  | newRequestId
  | now
  /-- Milliseconds on a clock that only runs forward. -/
  | clock
  | count (event : Counter)
  /-- The text of all counters. -/
  | showCounters

/-- What a call is answered with. -/
def ServiceCall.Answer : ServiceCall → Type
  | create _ | markFailed _ _ | enqueue _ | checkStore | checkQueue => Except ServiceError Unit
  | load _ => Except ServiceError (Option JobRecord)
  | newJobId | newRequestId | showCounters => String
  | now => Timestamp
  | clock => Nat
  | count _ => Unit

/-- The name of a call to store or queue. -/
def ServiceCall.name? : ServiceCall → Option String
  | create _ => some "create_job"
  | load _ => some "get_job"
  | markFailed _ _ => some "mark_failed"
  | enqueue _ => some "enqueue"
  | checkStore => some "check_store"
  | checkQueue => some "check_queue"
  | newJobId | newRequestId | now | clock | count _ | showCounters => none

def ServiceCall.ask (c : ServiceCall) : Program ServiceCall.Answer c.Answer := Program.ask c

/-- A program of the service. -/
abbrev Serving (β : Type) := Program ServiceCall.Answer β

namespace Serving

/-- Creates the record of a job. -/
def create (record : JobRecord) : Serving (Except ServiceError Unit) :=
  ServiceCall.ask (.create record)

/-- The record of a job, if there is one. -/
def load (id : JobId) : Serving (Except ServiceError (Option JobRecord)) :=
  ServiceCall.ask (.load id)

/-- Marks a job as failed. -/
def markFailed (id : JobId) (reason : String) : Serving (Except ServiceError Unit) :=
  ServiceCall.ask (.markFailed id reason)

/-- Hands a request to the queue. -/
def enqueue (request : VideoRequest Float) : Serving (Except ServiceError Unit) :=
  ServiceCall.ask (.enqueue request)

/-- Checks the store. -/
def checkStore : Serving (Except ServiceError Unit) := ServiceCall.ask .checkStore

/-- Checks the queue. -/
def checkQueue : Serving (Except ServiceError Unit) := ServiceCall.ask .checkQueue

/-- A name that no other job has. -/
def newJobId : Serving JobId := ServiceCall.ask .newJobId

/-- A name that no other request has. -/
def newRequestId : Serving String := ServiceCall.ask .newRequestId

/-- The point in time at which this is asked. -/
def now : Serving Timestamp := ServiceCall.ask .now

/-- Milliseconds on a clock. -/
def clock : Serving Nat := ServiceCall.ask .clock

/-- Counts an event. -/
def count (event : Counter) : Serving Unit := ServiceCall.ask (.count event)

/-- The text of all counters. -/
def showCounters : Serving String := ServiceCall.ask .showCounters

end Serving

end Slideshow
