import Slideshow.Environment
import Slideshow.Job.Request
import Slideshow.Program
import Slideshow.Queue.Error

/-! # Commands to the queue server

The queue is a stream on a server that several workers read as a group. A message that was read
stays pending until it is acknowledged, and another worker can claim it when it has been idle for
long. -/

namespace Slideshow

/-- Where the queue is, and how it is used. -/
structure QueueConfig where
  url : String := "redis://localhost:6379"
  stream : String := "reel:jobs"
  group : String := "reel-workers"
  /-- The stream of messages that were given up. -/
  deadStream : String := "reel:dlq"
  /-- Milliseconds a read waits for messages. -/
  blockMs : Nat := 5000
  /-- Milliseconds after which a pending message can be claimed. -/
  claimIdleMs : Nat := 600000
  /-- How often a message is delivered at most. -/
  maxDeliveries : Nat := 3
  /-- Milliseconds for which a message with the same key is refused. -/
  dedupMs : Nat := 3600000
deriving Repr, DecidableEq

namespace QueueConfig

/-- The configuration that an environment asks for. -/
def ofEnvironment (env : Environment) : QueueConfig :=
  let text (name otherwise : String) := (env.lookup name).getD otherwise
  let number (name : String) (otherwise : Nat) := (env.number? 64 name).getD otherwise
  let usual : QueueConfig := {}
  { url := text "REDIS_URL" usual.url
    stream := text "QUEUE_STREAM" usual.stream
    group := text "QUEUE_GROUP" usual.group
    deadStream := text "QUEUE_DLQ" usual.deadStream
    blockMs := number "QUEUE_BLOCK_MS" usual.blockMs
    claimIdleMs := number "QUEUE_CLAIM_IDLE_MS" usual.claimIdleMs
    maxDeliveries := number "QUEUE_MAX_DELIVERIES" usual.maxDeliveries
    dedupMs := number "QUEUE_DEDUP_TTL_SECS" (usual.dedupMs / 1000) * 1000 }

/-- Seconds for which a message with the same key is refused, at least one. -/
def dedupSecs (c : QueueConfig) : Nat := max 1 (c.dedupMs / 1000)

def toJson (c : QueueConfig) : Json :=
  .object
    [("redis_url", .string c.url), ("stream", .string c.stream), ("group", .string c.group),
     ("dlq", .string c.deadStream), ("block_ms", .integer c.blockMs),
     ("claim_idle_ms", .integer c.claimIdleMs), ("max_deliveries", .integer c.maxDeliveries),
     ("dedup_ttl_ms", .integer c.dedupMs)]

end QueueConfig

/-- An entry of a stream. -/
structure StreamEntry where
  id : String
  fields : List (String × String)
deriving Repr, DecidableEq

/-- A message that is pending. -/
structure PendingEntry where
  id : String
  /-- How often it has been delivered. -/
  deliveries : Nat
deriving Repr, DecidableEq

/-- A command to the server. -/
inductive QueueCommand where
  /-- Creates the group, and the stream if it is not there. -/
  | createGroup
  | ping
  /-- Sets a key that goes away after some seconds, unless it is set already. -/
  | claimKey (key : String) (seconds : Nat)
  | removeKey (key : String)
  /-- Adds an entry to a stream. -/
  | append (stream : String) (fields : List (String × String))
  /-- Ends the delivery of a message to the group. -/
  | acknowledge (id : String)
  | delete (id : String)
  | length (stream : String)
  /-- Reads messages that no one in the group has read. -/
  | read (consumer : String) (count : Nat)
  /-- Lists messages that have been pending for long. -/
  | listIdle (count : Nat)
  /-- Takes over messages that have been pending for long. -/
  | claim (consumer : String) (ids : List String)
deriving Repr, DecidableEq

namespace QueueCommand

/-- What the server answers with when nothing goes wrong. -/
def Reply : QueueCommand → Type
  | claimKey _ _ => Bool
  | append _ _ => String
  | length _ => Nat
  | read _ _ | claim _ _ => List StreamEntry
  | listIdle _ => List PendingEntry
  | createGroup | ping | removeKey _ | acknowledge _ | delete _ => Unit

/-- The words of a command. -/
def words (c : QueueConfig) : QueueCommand → List String
  | createGroup => ["XGROUP", "CREATE", c.stream, c.group, "$", "MKSTREAM"]
  | ping => ["PING"]
  | claimKey key seconds => ["SET", key, "1", "NX", "EX", Decimal.natText seconds]
  | removeKey key => ["DEL", key]
  | append stream fields =>
    ["XADD", stream, "*"] ++ fields.flatMap fun (name, value) => [name, value]
  | acknowledge id => ["XACK", c.stream, c.group, id]
  | delete id => ["XDEL", c.stream, id]
  | length stream => ["XLEN", stream]
  | read consumer count =>
    ["XREADGROUP", "GROUP", c.group, consumer, "COUNT", Decimal.natText count, "BLOCK",
     Decimal.natText c.blockMs, "STREAMS", c.stream, ">"]
  | listIdle count =>
    ["XPENDING", c.stream, c.group, "IDLE", Decimal.natText c.claimIdleMs, "-", "+",
     Decimal.natText count]
  | claim consumer ids =>
    ["XCLAIM", c.stream, c.group, consumer, Decimal.natText c.claimIdleMs] ++ ids

end QueueCommand

/-- A call to the server. -/
inductive QueueCall where
  | connect
  | send (command : QueueCommand)
deriving Repr, DecidableEq

/-- What a call is answered with; one that fails says why. -/
def QueueCall.Answer : QueueCall → Type
  | connect => Except String Unit
  | send command => Except String command.Reply

def QueueCall.ask (c : QueueCall) : Program QueueCall.Answer c.Answer := Program.ask c

/-- A program that uses the queue and may fail. -/
abbrev Queuing (β : Type) := ExceptT QueueError (Program QueueCall.Answer) β

end Slideshow
