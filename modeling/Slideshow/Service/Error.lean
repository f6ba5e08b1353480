import Slideshow.Job.Request
import Slideshow.Queue.Error
import Slideshow.Store.Error

/-! # What can go wrong with a request to the web service -/

namespace Slideshow

/-- Why a request is not served. -/
inductive ServiceError where
  | notFound (what : String)
  | badRequest (reason : String)
  | invalid (error : RequestError)
  | internal (reason : String)
  | store (error : StoreError)
  | queue (error : QueueError)

namespace ServiceError

def message : ServiceError → String
  | notFound what => "Not found: " ++ what
  | badRequest reason => "Bad request: " ++ reason
  | invalid error => "Validation error: " ++ error.message
  | internal reason => "Internal error: " ++ reason
  | store error => "Firestore error: " ++ error.message
  | queue error => "Queue error: " ++ error.message

/-- Whether the fault is not that of the client. -/
def isInternal : ServiceError → Bool
  | internal _ | store _ | queue _ => true
  | notFound _ | badRequest _ | invalid _ => false

/-- The status of an answer that reports an error. -/
def status : ServiceError → Nat
  | notFound _ => 404
  | badRequest _ | invalid _ => 400
  | internal _ | store _ | queue _ => 500

/-- What a client is told. In production what went wrong inside is not told. -/
def detail (production : Bool) (e : ServiceError) : String :=
  if e.isInternal && production then "An internal error occurred" else e.message

end ServiceError

end Slideshow
