import Slideshow.Service.Call
import Slideshow.Service.Config
import Slideshow.Service.Message

/-! # What the web service does

A submission is checked, its record is created, and only then it is queued; if it cannot be queued
its record is marked as failed, so that nobody waits for it. Records are shown as they are stored.
-/

namespace Slideshow.Service

open Json (Decoder Record)

/-- What a client submits. -/
structure Submission where
  urls : List String
  options : SceneOptions Float

namespace Submission

def decoder : Decoder Submission :=
  Record.decoder "CreateVideoBody" <|
    pure Submission.mk
      <*> .required "urls" (.list .string)
      <*> .defaulted "options" SceneOptions.decoder .standard

/-- The request of a job. -/
def toRequest (s : Submission) (id : JobId) : VideoRequest Float := ⟨id, s.urls, s.options⟩

/-- Refuses a submission; this does not depend on the name of the job. -/
def validate (s : Submission) (maxSlides : Nat) : Except ServiceError Unit :=
  ((s.toRequest "").validate maxSlides).mapError .invalid

end Submission

/-- The counter of accepted submissions. -/
def submitted : Counter := ⟨"reel_jobs_submitted_total", []⟩

/-- What a record says when its request could not be queued. -/
def notQueued : String := "could not be queued"

/-- Accepts a submission; gives the record of its job. -/
def submit (c : ServiceConfig) (s : Submission) : Serving (Except ServiceError JobRecord) := do
  match s.validate c.maxSlides with
  | .error e => return .error e
  | .ok () =>
    let id ← Serving.newJobId
    let record := JobRecord.fresh id (← Serving.now)
    match ← Serving.create record with
    | .error e => return .error e
    | .ok () =>
      match ← Serving.enqueue (s.toRequest id) with
      | .error e =>
        let _ ← Serving.markFailed id notQueued
        return .error e
      | .ok () =>
        Serving.count submitted
        return .ok record

/-- The answer that reports an error. -/
def errorResponse (c : ServiceConfig) (e : ServiceError) : Response :=
  .json e.status (.object [("detail", .string (e.detail c.isProduction))])

/-- The longest body that is read, whatever the configuration allows. -/
def maxBodyRead : Nat := 2097152

/-- Reads the body of a request, which says that it is JSON and is not longer than `limit`. -/
def readBody {β : Type} (decoder : Decoder β) (limit : Nat) (r : Request) : Except Response β :=
  if !((r.header? "content-type").map isJsonType).getD false then
    .error (.text 415 "Expected request with \x60Content-Type: application/json\x60")
  else if min limit maxBodyRead < r.body.utf8ByteSize then
    .error (.text 413 "Failed to buffer the request body: length limit exceeded")
  else
    match decoder.ofBeginning r.body with
    | .ok b => .ok b
    | .error (.mismatch m) =>
      .error (.text 422
        ("Failed to deserialize the JSON body into the target type: " ++ m.message))
    | .error (.fault _) => .error (.text 400 "Failed to parse the request body as JSON")

/-- Answers a submission. -/
def createVideo (c : ServiceConfig) (limit : Nat) (r : Request) : Serving Response := do
  match readBody Submission.decoder limit r with
  | .error answer => return answer
  | .ok submission =>
    match ← submit c submission with
    | .error e => return errorResponse c e
    | .ok record =>
      return .json 202
        (.object [("job_id", .string record.id), ("status", .string record.status.text)])

/-- Whether a text can be the name of a job that is asked for: names of jobs are names of
documents. -/
def isJobId (id : String) : Bool :=
  id ≠ "" && id.utf8ByteSize ≤ 128 &&
    id.toList.all fun c => c.isAlphanum || c = '-' || c = '_'

/-- The record of a job that is asked for. -/
def lookup (id : String) : Serving (Except ServiceError JobRecord) := do
  if !isJobId id then return .error (.badRequest "invalid job id")
  else
    match ← Serving.load id with
    | .error e => return .error e
    | .ok none => return .error (.notFound ("job " ++ id))
    | .ok (some record) => return .ok record

/-- Shows the record of a job, whose name is given as it stands in the path. -/
def getVideo (c : ServiceConfig) (written : String) : Serving Response := do
  match Url.percentDecode? written with
  | none => return .text 400 "Invalid URL: Invalid UTF-8 in \x60job_id\x60"
  | some id =>
    match ← lookup id with
    | .error e => return errorResponse c e
    | .ok record => return .json 200 record.toJson

/-- Says that the service is running. -/
def health : Serving Response := do
  let now ← Serving.now
  return .json 200
    (.object
      [("status", .string "healthy"), ("version", .string "0.1.0"),
       ("timestamp", .string now.offsetText)])

/-- The result of a check, and how long it took. -/
def checkJson (result : Except ServiceError Unit) (milliseconds : Nat) : Json :=
  match result with
  | .ok () => .object [("status", .string "ok"), ("latency_ms", .integer milliseconds)]
  | .error e => .object [("status", .string "error"), ("error", .string e.message)]

/-- Performs a check and takes the time. -/
def timed (check : Serving (Except ServiceError Unit)) :
    Serving (Except ServiceError Unit × Nat) := do
  let start ← Serving.clock
  let result ← check
  return (result, (← Serving.clock) - start)

/-- Says whether queue and store can be used. -/
def ready : Serving Response := do
  let (queue, queueTime) ← timed Serving.checkQueue
  let (store, storeTime) ← timed Serving.checkStore
  let good := queue.isOk && store.isOk
  return .json (if good then 200 else 503)
    (.object
      [("status", .string (if good then "ready" else "degraded")),
       ("checks", .object
         [("redis", checkJson queue queueTime), ("firestore", checkJson store storeTime)])])

end Slideshow.Service
