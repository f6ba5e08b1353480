import Slideshow.Queue.Basic
import Slideshow.Worker.Config

/-! # Working through the queue

Every message that is read is handled within a time limit and then leaves the queue: acknowledged if
it was handled, given up if not. A message that was delivered too often is given up without being
handled. There is no further try: a job that failed stays failed. -/

namespace Slideshow

/-- A call made while working through the queue. -/
inductive ExecutorCall where
  | work (call : WorkerCall Float)
  | queue (call : QueueCall)

/-- What a call is answered with. -/
def ExecutorCall.Answer : ExecutorCall → Type
  | work call => call.Answer
  | queue call => call.Answer

/-- A program that works through the queue. -/
abbrev Executing (β : Type) := Program ExecutorCall.Answer β

namespace Executor

variable {β : Type}

/-- A program of a worker. -/
def working (p : Program (WorkerCall.Answer (α := Float)) β) : Executing β :=
  p.embed .work fun _ answer => answer

/-- A program that uses the queue. -/
def queuing (p : Queuing β) : Executing (Except QueueError β) :=
  p.run.embed .queue fun _ answer => answer

/-- Handles a message within a time limit. `timeout` tells after how many calls the time is up, if
it is at all; the job is then marked as failed. -/
def handleInTime (c : WorkerConfig) (w : Workplace) (job : QueueJob Float)
    (timeout : Option Nat) : Executing (Except WorkerError Unit) := do
  match timeout with
  | none => working (Worker.handle c.limits w job)
  | some calls =>
    match ← working ((Worker.handle c.limits w job).cutAfter calls) with
    | some result => return result
    | none =>
      let e := WorkerError.timedOut c.jobTimeoutSecs
      working (Worker.noteFailure job.jobId e)
      return .error e

/-- Why a message is given up that was delivered too often. -/
def abandoned (deliveries : Nat) : WorkerError :=
  .jobFailed ("Abandoned after " ++ Decimal.natText (deliveries - 1) ++ " deliveries")

/-- Gives a message up; it does not matter whether that succeeds. -/
def giveUp (q : QueueConfig) (d : Delivery) (e : WorkerError) : Executing Unit := do
  let _ ← queuing (Queue.giveUp q d.id d.job e.message)
  return ()

/-- Works on a message that was read. -/
def execute (c : WorkerConfig) (q : QueueConfig) (w : Workplace) (timeout : Option Nat)
    (d : Delivery) : Executing Unit := do
  if q.maxDeliveries < d.deliveries then
    let e := abandoned d.deliveries
    working (Worker.noteFailure d.job.jobId e)
    giveUp q d e
  else
    match ← handleInTime c w d.job timeout with
    | .ok () =>
      let _ ← queuing (Queue.acknowledge d.id)
      return ()
    | .error e => giveUp q d e

/-- Works on messages one after another. -/
def executeAll (c : WorkerConfig) (q : QueueConfig) (w : Workplace) : List Delivery → Executing Unit
  | [] => return ()
  | d :: rest => do
    execute c q w none d
    executeAll c q w rest

/-- The messages that are read or taken over at once at most. -/
def maxRead : Nat := 5

/-- One turn: takes over messages that others left behind, reads new ones, and works on all of them.
A turn in which the queue cannot be read is a turn without messages. -/
def turn (c : WorkerConfig) (q : QueueConfig) (w : Workplace) (consumer : String) :
    Executing Unit := do
  let idle := (← queuing (Queue.claimIdle consumer maxRead)).toOption.getD []
  executeAll c q w idle
  let new := (← queuing (Queue.consume consumer (min c.maxConcurrentJobs maxRead))).toOption.getD []
  executeAll c q w new

/-- Takes turns until told to stop. -/
def turns (c : WorkerConfig) (q : QueueConfig) (w : Workplace) (consumer : String) :
    Nat → Executing Unit
  | 0 => return ()
  | left + 1 => do
    turn c q w consumer
    turns c q w consumer left

/-- Makes sure that the group is there, and takes a number of turns. -/
def run (c : WorkerConfig) (q : QueueConfig) (w : Workplace) (consumer : String) (count : Nat) :
    Executing (Except WorkerError Unit) := do
  match ← queuing Queue.prepare with
  | .error e => return .error (.queue e)
  | .ok () =>
    turns c q w consumer count
    return .ok ()

end Executor

end Slideshow
