import Slideshow.Json.Decoder

/-! # What can go wrong with the message queue -/

namespace Slideshow

/-- An error of the message queue. -/
inductive QueueError where
  | connectionFailed (reason : String)
  | enqueueFailed (reason : String)
  /-- A message with the same key was queued a short time ago. -/
  | duplicate (key : String)
  /-- The server refused a command or its answer makes no sense. -/
  | server (reason : String)
  | unreadable (error : Json.DecodeError)

namespace QueueError

def kind : QueueError → String
  | connectionFailed _ => "ConnectionFailed"
  | enqueueFailed _ => "EnqueueFailed"
  | duplicate _ => "Duplicate"
  | server _ => "Redis"
  | unreadable _ => "Json"

def message : QueueError → String
  | connectionFailed reason => "Connection failed: " ++ reason
  | enqueueFailed reason => "Enqueue failed: " ++ reason
  | duplicate key => "Duplicate job: " ++ key
  | server reason => "Redis error: " ++ reason
  | unreadable error => "JSON error: " ++ error.reason

/-- Whether the message is in the queue already. -/
def isDuplicate : QueueError → Bool
  | duplicate _ => true
  | _ => false

end QueueError

end Slideshow
