import Slideshow.Environment
import Slideshow.Fetch.Basic
import Slideshow.Worker.Handle

/-! # How a worker is set up -/

namespace Slideshow

/-- Limits, places and times of a worker. -/
structure WorkerConfig where
  maxConcurrentJobs : Nat := 2
  /-- Slides in a batch. -/
  batchSize : Nat := 20
  /-- Slides in the largest request. -/
  maxSlides : Nat := 1000
  /-- Where files are kept while a job is handled; the usual place if there is none. -/
  workDirectory : Option String := none
  fetchConcurrency : Nat := 8
  /-- Milliseconds by which the wait before a further attempt grows. -/
  fetchRetryUnitMs : Nat := 1000
  renderTimeoutSecs : Nat := 1800
  /-- Where the catalog of tracks is. -/
  catalogUrl : Option String := none
  jobTimeoutSecs : Nat := 3600
  shutdownTimeoutSecs : Nat := 60
  /-- Seconds between two looks for messages that others left behind. -/
  claimIntervalSecs : Nat := 30
  /-- The port on which counters are shown. -/
  metricsPort : Option Nat := none
deriving Repr, DecidableEq

namespace WorkerConfig

/-- The configuration that an environment asks for. A batch of one slide could not overlap with its
neighbour. -/
def ofEnvironment (env : Environment) : WorkerConfig :=
  let usual : WorkerConfig := {}
  let number (name : String) (otherwise : Nat) := (env.paddedNumber? 64 name).getD otherwise
  let atLeast (low : Nat) (name : String) (otherwise : Nat) :=
    ((env.paddedNumber? 64 name).filter (low ≤ ·)).getD otherwise
  { maxConcurrentJobs := atLeast 1 "WORKER_MAX_JOBS" usual.maxConcurrentJobs
    batchSize := atLeast 2 "BATCH_SIZE" usual.batchSize
    maxSlides := number "MAX_SLIDES_PER_REQUEST" usual.maxSlides
    workDirectory := env.nonblank? "WORK_DIR"
    fetchConcurrency := atLeast 1 "FETCH_CONCURRENCY" usual.fetchConcurrency
    fetchRetryUnitMs := number "FETCH_RETRY_UNIT_MS" usual.fetchRetryUnitMs
    renderTimeoutSecs := number "FFMPEG_TIMEOUT_SECS" usual.renderTimeoutSecs
    catalogUrl := env.nonblank? "AUDIO_INDEX_URL"
    jobTimeoutSecs := number "JOB_TIMEOUT_SECS" usual.jobTimeoutSecs
    shutdownTimeoutSecs := number "WORKER_SHUTDOWN_TIMEOUT" usual.shutdownTimeoutSecs
    claimIntervalSecs := number "WORKER_CLAIM_INTERVAL_SECS" usual.claimIntervalSecs
    metricsPort := env.paddedNumber? 16 "METRICS_PORT" }

/-- The limits that handling a message observes. -/
def limits (c : WorkerConfig) : WorkerLimits := ⟨c.batchSize, c.maxSlides⟩

/-- How files are fetched. -/
def fetchPolicy (c : WorkerConfig) : FetchPolicy := { retryUnitMs := c.fetchRetryUnitMs }

/-- The configuration as a document, with times in milliseconds and the usual place for files. -/
def toJson (c : WorkerConfig) (usualDirectory : String) : Json :=
  .object
    [("max_concurrent_jobs", .integer c.maxConcurrentJobs), ("batch_size", .integer c.batchSize),
     ("max_slides", .integer c.maxSlides),
     ("work_dir", .string (c.workDirectory.getD usualDirectory)),
     ("fetch_concurrency", .integer c.fetchConcurrency),
     ("fetch_retry_unit_ms", .integer c.fetchRetryUnitMs),
     ("ffmpeg_timeout_ms", .integer (1000 * c.renderTimeoutSecs)),
     ("audio_index_url", Json.ofOption .string c.catalogUrl),
     ("job_timeout_ms", .integer (1000 * c.jobTimeoutSecs)),
     ("shutdown_timeout_ms", .integer (1000 * c.shutdownTimeoutSecs)),
     ("claim_interval_ms", .integer (1000 * c.claimIntervalSecs)),
     ("metrics_port", Json.ofOption (fun n => .integer n) c.metricsPort)]

end WorkerConfig

end Slideshow
