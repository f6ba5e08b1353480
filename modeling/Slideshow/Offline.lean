import Slideshow.Blob.Client
import Slideshow.Fetch.Basic
import Slideshow.Queue.Basic
import Slideshow.Store.Client

/-! # Without a network

How things go when no server can be reached: requests get no answer, connections are refused, and
only what is local works. -/

namespace Slideshow.Offline

variable {β : Type}

/-- What was counted so far. -/
abbrev Counting := StateM (List Counter)

/-- Counts an event. -/
def count (event : Counter) : Counting Unit := modify fun counted => counted ++ [event]

/-- The answer to a call made while fetching. -/
def fetchAnswer : (c : FetchCall) → Counting c.Answer
  | .send _ => pure none
  | .freshName => pure ""
  | .createFile _ | .appendFile _ _ => pure (.ok ())
  | .wait _ | .removeFile _ => pure ()
  | .count event => count event

/-- The answer to a request to the document store at an address. -/
def refusal (base : String) (r : DocumentRequest) (token : String) : Http.Fault :=
  match r.toHttp base token with
  | .ok request => .noAnswer request.url
  | .error fault => fault

/-- The answer to a call made while asking the document store, at an address and a time, with a
token or without one. -/
def storeAnswer (base : String) (now : Timestamp) (token : Except StoreError String) :
    (c : ClientCall) → Counting c.Answer
  | .token => pure token
  | .invalidateToken => pure ()
  | .send r token => pure (.error (refusal base r token))
  | .now => pure now
  | .jitter _ => pure (0 : Nat)
  | .wait _ => pure ()
  | .count event => count event

/-- The answer to a call to the queue server. -/
def queueAnswer : (c : QueueCall) → c.Answer
  | .connect => .error "Connection refused"
  | .send _ => .error "Connection refused"

/-- The answer to a call to the object storage, where some files are there. -/
def blobAnswer (files : List String) : (c : BlobCall) → c.Answer
  | .openFile path => if files.contains path then .ok () else .error "IO error"
  | .put _ _ _ => .error "dispatch failure"
  | .get _ => .refused "dispatch failure"
  | .head => .error "dispatch failure"
  | .writeFile _ _ => .ok ()

/-- Uses the queue. -/
def queue (p : Queuing β) : Except QueueError β := Id.run (p.run.run fun c => pure (queueAnswer c))

/-- Uses the object storage. -/
def blob (files : List String) (p : Storing β) : Except BlobError β :=
  Id.run (p.run.run fun c => pure (blobAnswer files c))

end Slideshow.Offline
