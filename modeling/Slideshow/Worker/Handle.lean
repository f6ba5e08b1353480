import Slideshow.Blob.Key
import Slideshow.Job.Batching
import Slideshow.Worker.Call

/-! # Handling a message

A request is either rendered at once or split into batches that overlap in one slide, each of them a
message of its own. Every batch adds its output to the record of the job. The batch that completes
the set takes over the join: it fetches all parts in order, joins them and lays a track under the
result. When the message of that batch is delivered again, an unfinished join is taken up again.

A message that fails marks its job as failed. -/

namespace Slideshow

/-- Limits a worker observes. -/
structure WorkerLimits where
  /-- Slides in a batch. -/
  batchSize : Nat
  /-- Slides in the largest request. -/
  maxSlides : Nat
deriving Repr, DecidableEq

/-- What one delivery brings along: a directory for its files, and its random choices. -/
structure Workplace where
  directory : String
  /-- The choice among some tracks. -/
  choose : Nat → Nat
  /-- The words that decide random directions. -/
  words : Words

/-- A file in the directory. -/
def Workplace.path (w : Workplace) (name : String) : String := w.directory ++ "/" ++ name

namespace Worker

variable {α : Type} [Scalar α]

/-- The plan that shows some pictures as the options ask for. -/
def slideshowPlan (paths : List String) (options : SceneOptions α) (words : Words) :
    Except MediaError (RenderPlan α) :=
  RenderPlan.slideshow (paths.map (⟨·, .still⟩))
    (SceneSpec.ofOptions options (options.resolveSize none) words)

def record (id : JobId) : Task α JobRecord := do
  match ← Task.load id with
  | some r => return r
  | none => throw (.jobNotFound id)

/-- Notes that a job failed; it does not matter whether that succeeds. -/
def noteFailure (id : JobId) (error : WorkerError) : Program (WorkerCall.Answer (α := α)) Unit := do
  let _ ← WorkerCall.ask (.store (.markFailed id error.message))
  return ()

/-- One of the tracks that fit a video of `target` seconds, as a file, and its length. -/
def trackFor (w : Workplace) (target : α) : Task α (Option (String × α)) := do
  match ← Task.audioCatalog with
  | none => return none
  | some catalog =>
    match catalog.select target w.choose with
    | none => return none
    | some track =>
      let path ← Task.fetch track.url w.directory
      return some (path, track.length)

/-- The options with both sides of the frame fixed, so that all batches have the same frame. A
missing side is computed from the first slide. -/
def fixSize (w : Workplace) (options : SceneOptions α) (firstUrl : String) :
    Task α (SceneOptions α) := do
  if options.needsSourceSize then
    let path ← Task.fetch firstUrl w.directory
    let frame ← Task.frameSize path
    let (width, height) := options.resolveSize (some frame)
    return { options with width := some width, height := some height }
  else return options

/-- A plan with a track under it, if one can be had. -/
def withTrack (w : Workplace) (plan : RenderPlan α) (target : α) : Task α (RenderPlan α) := do
  match ← ExceptT.lift (trackFor w target).run with
  | .ok (some (track, native)) =>
    let (plan, _) ← Task.ofMedia (plan.withAudio track native)
    return plan
  | .ok none | .error _ => return plan

/-- Renders slides at once, with a track if the options ask for it and one can be had. -/
def renderSlides (w : Workplace) (urls : List String) (options : SceneOptions α) :
    Task α String := do
  let paths ← Task.fetchAll urls w.directory
  let plan ← Task.ofMedia (slideshowPlan paths options w.words)
  let plan ← match options.audio, plan.duration with
    | true, some target => withTrack w plan target
    | _, _ => pure plan
  let output := w.path "video.mp4"
  Task.render plan output
  return output

/-- Renders a request at once and stores the video. -/
def renderWhole (w : Workplace) (id : JobId) (urls : List String) (options : SceneOptions α) :
    Task α Unit := do
  let output ← renderSlides w urls options
  let url ← Task.upload id Blob.finalSegment output
  Task.setStatus id .processed (some url)

/-- Hands batches to the queue one by one. -/
def dispatchAll : List (BatchJob α) → Task α Unit
  | [] => return ()
  | batch :: rest => do
    Task.dispatch batch
    dispatchAll rest

/-- Splits a request into batches. Their number is noted before the first of them can report. -/
def split (limits : WorkerLimits) (id : JobId) (urls : List String) (options : SceneOptions α) :
    Task α Unit := do
  let batches := planBatches id urls options limits.batchSize
  Task.setBatchCount id (batches.length % UInt32.size)
  dispatchAll batches

/-- Handles a request. -/
def createVideo (limits : WorkerLimits) (w : Workplace) (request : VideoRequest α) :
    Task α Unit := do
  let r ← record request.jobId
  if r.status.isTerminal then return ()
  match request.validate limits.maxSlides with
  | .error e => throw (.invalidRequest e)
  | .ok () => pure ()
  match ← Task.filterValid request.urls with
  | [] => Task.setStatus request.jobId .processed none
  | first :: rest =>
    let urls := first :: rest
    let options ← fixSize w request.options first
    if !options.batchMode || urls.length ≤ limits.batchSize then
      renderWhole w request.jobId urls options
    else split limits request.jobId urls options

/-- Fetches the outputs of all batches. -/
def downloadParts (w : Workplace) : List BatchOutput → Task α (List String)
  | [] => return []
  | output :: rest => do
    let path := w.path ("part" ++ Decimal.natText output.batch ++ ".mp4")
    Task.download output.output path
    return path :: (← downloadParts w rest)

/-- Joins all batches of a job and lays a track under them. -/
def join (w : Workplace) (r : JobRecord) : Task α Unit := do
  let parts ← downloadParts w r.orderedOutputs
  let joined := w.path "joined.mp4"
  let plan ← Task.ofMedia (RenderPlan.concat (α := α) parts)
  Task.render plan joined
  let length ← Task.duration joined
  match ← trackFor w length with
  | none => throw (.noAudio (Scalar.inputText length))
  | some (track, native) =>
    let (plan, _) ← Task.ofMedia (RenderPlan.remuxWithAudio joined track native length)
    let output := w.path "video.mp4"
    Task.render plan output
    let url ← Task.upload r.id Blob.finalSegment output
    Task.setStatus r.id .processed (some url)

/-- Joins the batches if all have reported and this batch takes over the join, or has it already. -/
def joinIfComplete (w : Workplace) (id : JobId) (batch : Nat) : Task α Unit := do
  let r ← record id
  if r.joinOwnedBy batch then join w r
  else if r.readyToJoin then
    if ← Task.claimJoin id batch then join w r

/-- Renders a batch and stores it. -/
def renderPart (w : Workplace) (batch : BatchJob α) : Task α Unit := do
  let paths ← Task.fetchAll batch.urls w.directory
  let plan ← Task.ofMedia (slideshowPlan paths batch.options w.words)
  let output := w.path "batch.mp4"
  Task.render plan output
  let url ← Task.upload batch.jobId batch.segmentName output
  Task.appendOutput batch.jobId ⟨batch.batch, url⟩

/-- Handles a batch. -/
def renderBatch (w : Workplace) (batch : BatchJob α) : Task α Unit := do
  let r ← record batch.jobId
  if r.status = .failed then return ()
  if !r.hasReceived batch.batch then renderPart w batch
  joinIfComplete w batch.jobId batch.batch

/-- What a message asks for. -/
def perform (limits : WorkerLimits) (w : Workplace) : QueueJob α → Task α Unit
  | .createVideo request => createVideo limits w request
  | .renderBatch batch => renderBatch w batch

/-- Handles a message; a failure is noted in the record of the job. -/
def handle (limits : WorkerLimits) (w : Workplace) (job : QueueJob α) :
    Program (WorkerCall.Answer (α := α)) (Except WorkerError Unit) := do
  match ← (perform limits w job).run with
  | .ok () => return .ok ()
  | .error e =>
    noteFailure job.jobId e
    return .error e

end Worker

end Slideshow
