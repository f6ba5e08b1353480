import Slideshow.Url.Basic
import Slideshow.Options.Document
import Slideshow.Job.Record

/-! # Requests and batches

What a client asks for, the pieces into which a large request is split, and the messages that carry
both to the workers. -/

namespace Slideshow

open Json (Decoder Record)

/-- A slideshow that a client asks for. -/
structure VideoRequest (α : Type) where
  jobId : JobId
  /-- The slides in the order in which they are shown. -/
  urls : List String
  options : SceneOptions α
deriving Repr, DecidableEq

/-- Why a request is refused. -/
inductive RequestError where
  | invalidOptions (reason : SceneOptions.Invalid)
  | invalidUrl (url : String) (reason : String)
  | empty
  | tooManySlides (count limit : Nat)
deriving Repr, DecidableEq

def RequestError.kind : RequestError → String
  | .invalidOptions _ => "InvalidOptions"
  | .invalidUrl _ _ => "InvalidUrl"
  | .empty => "EmptyRequest"
  | .tooManySlides _ _ => "TooManySlides"

def RequestError.message : RequestError → String
  | .invalidOptions reason => "Invalid scene options: " ++ reason.reason
  | .invalidUrl url reason => "Invalid slide URL '" ++ url ++ "': " ++ reason
  | .empty => "Request contains no slide URLs"
  | .tooManySlides count limit =>
    "Request has " ++ toString count ++ " slides, limit is " ++ toString limit

namespace VideoRequest

variable {α : Type}

/-- Refuses what is not the address of a web page or file. -/
def checkUrl (text : String) : Except RequestError Unit :=
  match Url.parse text with
  | .error fault => .error (.invalidUrl text fault.message)
  | .ok url =>
    if url.scheme = "http" || url.scheme = "https" then .ok ()
    else .error (.invalidUrl text ("unsupported scheme '" ++ url.scheme ++ "'"))

/-- Checks the number of slides, their addresses and the options. Whether a slide can be reached is
found out later. -/
def validate [Scalar α] (r : VideoRequest α) (maxSlides : Nat) : Except RequestError Unit :=
  if r.urls.isEmpty then .error .empty
  else if maxSlides < r.urls.length then .error (.tooManySlides r.urls.length maxSlides)
  else do
    r.urls.forM checkUrl
    r.options.validate.mapError .invalidOptions

/-- The key under which the message of this request is queued once. -/
def idempotencyKey (r : VideoRequest α) : String := "create:" ++ r.jobId

end VideoRequest

/-- A part of a request that is rendered on its own. -/
structure BatchJob (α : Type) where
  jobId : JobId
  /-- The number of the batch, from one on. -/
  batch : Nat
  urls : List String
  /-- The options of the batch; audio is added when the batches are joined. -/
  options : SceneOptions α
deriving Repr, DecidableEq

namespace BatchJob

variable {α : Type}

/-- The batch with a number; every batch but the first continues the one before. -/
def ofRequest (jobId : JobId) (batch : Nat) (urls : List String) (options : SceneOptions α) :
    BatchJob α where
  jobId := jobId
  batch := batch
  urls := urls
  options :=
    { options with
      audio := false
      batchContinuation := if batch ≤ 1 then .initial else .continuation }

/-- The key under which the message of this batch is queued once. -/
def idempotencyKey (b : BatchJob α) : String := "batch:" ++ b.jobId ++ ":" ++ toString b.batch

/-- The name of the partial video. -/
def segmentName (b : BatchJob α) : String := "video" ++ toString b.batch

end BatchJob

/-- A message to the workers. -/
inductive QueueJob (α : Type) where
  /-- Check a request, then render it or split it into batches. -/
  | createVideo (request : VideoRequest α)
  /-- Render a batch, and join all batches if it is the last to report. -/
  | renderBatch (batch : BatchJob α)
deriving Repr, DecidableEq

namespace QueueJob

variable {α : Type}

/-- The job a message belongs to. -/
def jobId : QueueJob α → JobId
  | .createVideo r => r.jobId
  | .renderBatch b => b.jobId

/-- The number of the batch, if it is one. -/
def batch : QueueJob α → Option Nat
  | .createVideo _ => none
  | .renderBatch b => some b.batch

/-- The key under which a message is queued once. -/
def idempotencyKey : QueueJob α → String
  | .createVideo r => r.idempotencyKey
  | .renderBatch b => b.idempotencyKey

/-- The kind of a message. -/
inductive Kind where
  | createVideo
  | renderBatch
deriving Repr, DecidableEq

def Kind.text : Kind → String
  | .createVideo => "create_video"
  | .renderBatch => "render_batch"

def Kind.names : List (Kind × List String) :=
  [.createVideo, .renderBatch].map fun kind => (kind, [kind.text])

/-- The kind of a message. -/
def kind : QueueJob α → Kind
  | .createVideo _ => .createVideo
  | .renderBatch _ => .renderBatch

end QueueJob

/-! ## Documents -/

namespace VideoRequest

def decoder : Decoder (VideoRequest Float) :=
  Record.decoder "VideoRequest" <|
    pure VideoRequest.mk
      <*> .required "job_id" .string
      <*> .required "urls" (.list .string)
      <*> .defaulted "options" SceneOptions.decoder .standard

/-- The members of a request document. -/
def members (r : VideoRequest Float) : List (String × Json) :=
  [("job_id", .string r.jobId), ("urls", Json.strings r.urls), ("options", r.options.toJson)]

end VideoRequest

namespace BatchJob

def decoder : Decoder (BatchJob Float) :=
  Record.decoder "BatchJob" <|
    pure BatchJob.mk
      <*> .required "job_id" .string
      <*> .required "batch" (.unsigned 32)
      <*> .required "urls" (.list .string)
      <*> .required "options" SceneOptions.decoder

/-- The members of a batch document. -/
def members (b : BatchJob Float) : List (String × Json) :=
  [("job_id", .string b.jobId), ("batch", .integer b.batch), ("urls", Json.strings b.urls),
   ("options", b.options.toJson)]

end BatchJob

namespace QueueJob

/-- Reads a message; a member `type` says of which kind it is. -/
def decoder : Decoder (QueueJob Float) :=
  Json.tagged "QueueJob" "type" Kind.names fun
    | .createVideo => VideoRequest.decoder.map .createVideo
    | .renderBatch => BatchJob.decoder.map .renderBatch

def toJson (job : QueueJob Float) : Json :=
  .object <| ("type", .string job.kind.text) :: match job with
    | .createVideo r => r.members
    | .renderBatch b => b.members

end QueueJob

end Slideshow
