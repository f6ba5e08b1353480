import Slideshow.Queue.Basic
import Slideshow.Service.Call
import Slideshow.Store.Records

/-! # The web service with its store and queue

The calls of the service as programs that ask the document store and the queue server. -/

namespace Slideshow

/-- A call made while the service is running. -/
inductive BackendCall where
  | store (call : ClientCall)
  | queue (call : QueueCall)
  /-- Everything that is neither about the store nor about the queue. -/
  | other (call : ServiceCall)

/-- What a call is answered with. -/
def BackendCall.Answer : BackendCall → Type
  | store call => call.Answer
  | queue call => call.Answer
  | other call => call.Answer

/-- A program of the service with its store and queue. -/
abbrev Backing (β : Type) := Program BackendCall.Answer β

namespace Backend

variable {β : Type}

/-- A program that asks the store. -/
def asking (p : Asking (Except StoreError β)) : Backing (Except ServiceError β) := do
  let result : Except StoreError β ← p.embed .store fun _ answer => answer
  return result.mapError .store

/-- A program that uses the queue. -/
def queuing (p : Queuing β) : Backing (Except ServiceError β) := do
  let result : Except QueueError β ← p.run.embed .queue fun _ answer => answer
  return result.mapError .queue

/-- A call that is about neither. -/
def other (c : ServiceCall) : Backing c.Answer :=
  Program.call (.other c) fun answer => .done answer

/-- A document that need not be there; that it is not there shows that the store answers. -/
def healthDocument : JobId := "_health"

/-- Checks that the store answers. -/
def checkStore (s : RecordStore) : Asking (Except StoreError Unit) := do
  return (← s.load healthDocument).map fun _ => ()

/-- Queues a request. -/
def enqueue (q : QueueConfig) (request : VideoRequest Float) : Queuing Unit := do
  let _ ← Queue.enqueue q (.createVideo request)

/-- The answer to a call of the service. -/
def answer (s : RecordStore) (q : QueueConfig) : (c : ServiceCall) → Backing c.Answer
  | .create record => asking (s.create record)
  | .load id => asking do return (← s.load id).map fun stored => stored.map StoredRecord.record
  | .markFailed id reason => asking (s.markFailed id reason)
  | .enqueue request => queuing (enqueue q request)
  | .checkStore => asking (checkStore s)
  | .checkQueue => queuing Queue.ping
  | .newJobId => other .newJobId
  | .newRequestId => other .newRequestId
  | .now => other .now
  | .clock => other .clock
  | .count event => other (.count event)
  | .showCounters => other .showCounters

/-- A program of the service, with its store and queue. -/
def run (s : RecordStore) (q : QueueConfig) (p : Serving β) : Backing β := p.expand (answer s q)

end Backend

end Slideshow
