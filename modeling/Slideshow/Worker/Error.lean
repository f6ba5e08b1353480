import Slideshow.Blob.Error
import Slideshow.Job.Request
import Slideshow.Queue.Error
import Slideshow.Store.Error

/-! # What can go wrong while a job is handled -/

namespace Slideshow

/-- Why a job failed. -/
inductive WorkerError where
  | jobFailed (reason : String)
  | jobNotFound (id : JobId)
  /-- No track fits a video; its length in seconds, as it is written. -/
  | noAudio (length : String)
  | misconfigured (reason : String)
  | timedOut (seconds : Nat)
  | invalidRequest (error : RequestError)
  | blob (error : BlobError)
  | store (error : StoreError)
  | media (error : MediaError)
  | queue (error : QueueError)
  | file (fault : FileFault)

namespace WorkerError

/-- The name under which an error is reported: that of the error itself, and after a colon that of
the error it wraps. -/
def kind : WorkerError → String
  | jobFailed _ => "JobFailed"
  | jobNotFound _ => "JobNotFound"
  | noAudio _ => "NoAudio"
  | misconfigured _ => "ConfigError"
  | timedOut _ => "Timeout"
  | invalidRequest e => "InvalidRequest:" ++ e.kind
  | blob e => "Storage:" ++ e.kind
  | store e => "Firestore:" ++ e.kind
  | media e => "Media:" ++ e.kind
  | queue e => "Queue:" ++ e.kind
  | file _ => "Io"

def message : WorkerError → String
  | jobFailed reason => "Job failed: " ++ reason
  | jobNotFound id => "Job record not found: " ++ id
  | noAudio length => "No eligible audio track for a " ++ length ++ "s video"
  | misconfigured reason => "Configuration error: " ++ reason
  | timedOut seconds => "Job timed out after " ++ Decimal.natText seconds ++ " seconds"
  | invalidRequest error => "Invalid request: " ++ error.message
  | blob error => "Storage error: " ++ error.message
  | store error => "Firestore error: " ++ error.message
  | media error => "Media error: " ++ error.message
  | queue error => "Queue error: " ++ error.message
  | file fault => "IO error: " ++ fault.message

/-- Whether a filter graph was put together wrongly. -/
def isDefect : WorkerError → Bool
  | media error => error.isGraphDefect
  | _ => false

end WorkerError

end Slideshow
