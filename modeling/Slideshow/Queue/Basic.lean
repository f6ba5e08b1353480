import Slideshow.Queue.Command

/-! # The message queue

A message is added only if its key can be claimed first, and the key is given back when adding
fails, so that it can be tried again. A message leaves the queue when it is acknowledged: after it
was handled, after a copy of it was put into the stream of messages that were given up, or when no
worker will ever be able to read it. -/

namespace Slideshow

/-- A message that was read. -/
structure Delivery where
  id : String
  job : QueueJob Float
  /-- How often the message has been delivered, this time included. -/
  deliveries : Nat

namespace Queue

/-! ## Single commands -/

/-- Opens a connection. -/
def connect : Queuing Unit := do
  match ← ExceptT.lift (QueueCall.ask .connect) with
  | .ok () => return ()
  | .error reason => throw (.server reason)

/-- Sends a command and gives the result, also when the server refuses it. -/
def attempt (command : QueueCommand) : Queuing (Except String command.Reply) :=
  ExceptT.lift (QueueCall.ask (.send command))

/-- Sends a command. -/
def send (command : QueueCommand) : Queuing command.Reply := do
  match ← attempt command with
  | .ok reply => return reply
  | .error reason => throw (.server reason)

/-! ## Operations -/

/-- Makes sure that the group is there. -/
def prepare : Queuing Unit := do
  connect
  match ← attempt .createGroup with
  | .ok () => return ()
  | .error reason =>
    if (reason.splitOn "BUSYGROUP").length ≠ 1 then return () else throw (.server reason)

/-- Checks that the server answers. -/
def ping : Queuing Unit := do
  connect
  send .ping

/-- The key that keeps a message from being queued twice. -/
def dedupKey (job : QueueJob Float) : String := "reel:dedup:" ++ job.idempotencyKey

/-- The text of a message. -/
def payload (job : QueueJob Float) : String := job.toJson.compact

/-- The entry of a message. -/
def entryFields (job : QueueJob Float) : List (String × String) :=
  [("job", payload job), ("key", job.idempotencyKey)]

/-- The entry of a message that was given up. -/
def deadFields (id : String) (job : QueueJob Float) (reason : String) : List (String × String) :=
  [("job", payload job), ("error", reason), ("original_id", id)]

/-- Adds a message, unless its key was claimed a short time ago; gives the name of the entry. -/
def enqueue (c : QueueConfig) (job : QueueJob Float) : Queuing String := do
  connect
  let claimed : Bool ← send (.claimKey (dedupKey job) c.dedupSecs)
  if claimed then
    match ← attempt (.append c.stream (entryFields job)) with
    | .ok id => return id
    | .error reason =>
      let _ ← attempt (.removeKey (dedupKey job))
      throw (.enqueueFailed reason)
  else throw (.duplicate job.idempotencyKey)

/-- Adds the message of a batch. One that is in the queue already need not be added again. -/
def dispatch (c : QueueConfig) (batch : BatchJob Float) : Queuing Unit :=
  ExceptT.mk do
    match ← (enqueue c (.renderBatch batch)).run with
    | .ok _ => return .ok ()
    | .error e => return if e.isDuplicate then .ok () else .error e

/-- Ends the delivery of a message and removes it. -/
def acknowledge (id : String) : Queuing Unit := do
  connect
  send (.acknowledge id)
  send (.delete id)

/-- Gives a message up: keeps a copy with the reason, then acknowledges it. -/
def giveUp (c : QueueConfig) (id : String) (job : QueueJob Float) (reason : String) :
    Queuing Unit := do
  connect
  let _ ← send (.append c.deadStream (deadFields id job reason))
  acknowledge id

/-- How many messages a stream holds. -/
def length (stream : String) : Queuing Nat := do
  connect
  send (.length stream)

/-! ## Reading -/

/-- The message of an entry, if there is one. -/
def decode? (entry : StreamEntry) : Option (Except Json.DecodeError (QueueJob Float)) :=
  (entry.fields.lookup "job").map QueueJob.decoder.ofText

/-- The message of an entry. An entry without one is acknowledged, as no worker can handle it; it
does not matter whether that succeeds. -/
def accept (entry : StreamEntry) (deliveries : Nat) : Queuing (Option Delivery) := do
  match decode? entry with
  | some (.ok job) => return some ⟨entry.id, job, deliveries⟩
  | _ =>
    let _ ← ExceptT.lift (acknowledge entry.id).run
    return none

/-- The messages of entries, where a function tells how often each was delivered. -/
def acceptAll (deliveries : StreamEntry → Nat) : List StreamEntry → Queuing (List Delivery)
  | [] => return []
  | entry :: rest => do
    let first ← accept entry (deliveries entry)
    return first.toList ++ (← acceptAll deliveries rest)

/-- Reads new messages. -/
def consume (consumer : String) (count : Nat) : Queuing (List Delivery) := do
  connect
  let entries : List StreamEntry ← send (.read consumer count)
  acceptAll (fun _ => 1) entries

/-- How often a claimed entry has been delivered, this time included. -/
def claimedDeliveries (pending : List PendingEntry) (entry : StreamEntry) : Nat :=
  match pending.find? fun p => p.id == entry.id with
  | some p => p.deliveries + 1
  | none => 1

/-- Takes over messages that have been pending for long. -/
def claimIdle (consumer : String) (count : Nat) : Queuing (List Delivery) := do
  connect
  let pending : List PendingEntry ← send (.listIdle count)
  if pending.isEmpty then return []
  let entries : List StreamEntry ← send (.claim consumer (pending.map PendingEntry.id))
  acceptAll (claimedDeliveries pending) entries

end Queue

end Slideshow
