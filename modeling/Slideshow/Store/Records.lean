import Slideshow.Store.Client
import Slideshow.Store.Layout
import Slideshow.Worker.Call

/-! # Job records in the document store

Outputs of batches are appended by the store itself, so that none is lost when several arrive at
once, and one that arrives twice is kept once. A join is taken over only if the record has not
changed since it was read; otherwise it is read again. -/

namespace Slideshow

/-- A record together with when the store says it was last written. -/
structure StoredRecord where
  record : JobRecord
  version : Option String

/-- Where the records of jobs are kept. -/
structure RecordStore where
  config : StoreConfig
  endpoint : String

namespace RecordStore

/-- Where all documents are. -/
def base (s : RecordStore) : String := s.config.base s.endpoint

/-- Tries something as often as the configuration says. -/
def retrying {β : Type} (s : RecordStore) (operation : String)
    (attempt : Asking (Except StoreError β)) : Asking (Except StoreError β) :=
  StoreClient.retrying s.config.retry operation attempt

/-- Creates a record; there must be none for the job. -/
def create (s : RecordStore) (r : JobRecord) : Asking (Except StoreError Unit) := do
  let created ← s.retrying "create_job"
    (StoreClient.createDocument s.base s.config.jobs r.id r.toFields)
  return created.map fun _ => ()

/-- The record of a job, if there is one. -/
def load (s : RecordStore) (id : JobId) : Asking (Except StoreError (Option StoredRecord)) := do
  match ← s.retrying "get_job" (StoreClient.getDocument s.base s.config.jobs id) with
  | .error e => return .error e
  | .ok none => return .ok none
  | .ok (some d) =>
    let now ← StoreClient.now
    return (JobRecord.ofDocument id now d).map fun record => some ⟨record, d.updateTime⟩

/-- Writes fields of a record, and when that was. -/
def patch (s : RecordStore) (operation : String) (id : JobId)
    (fields : List (String × StoreValue)) (mask : List String)
    (precondition : Option Precondition) : Asking (Except StoreError Document) := do
  let now ← StoreClient.now
  s.retrying operation <|
    StoreClient.patchDocument s.base s.config.jobs id
      (fields ++ [("updated_at", .ofTimestamp now)]) (mask ++ ["updated_at"]) precondition

/-- Sets into how many batches a job is split. -/
def setBatchCount (s : RecordStore) (id : JobId) (count : Nat) :
    Asking (Except StoreError Unit) := do
  let fields := [("batches", StoreValue.map (some [("count", .ofNat count)]))]
  return (← s.patch "set_batch_count" id fields ["batches.count"] (some .exists?)).map fun _ => ()

/-- Sets the status, and the video or that there is none. -/
def setStatus (s : RecordStore) (id : JobId) (status : JobStatus) (video : Option String) :
    Asking (Except StoreError Unit) := do
  let fields := ("status", StoreValue.string status.text) ::
    (video.map fun url => ("video", StoreValue.string url)).toList
  return (← s.patch "set_status" id fields ["status", "video"] none).map fun _ => ()

/-- Marks a job as failed. -/
def markFailed (s : RecordStore) (id : JobId) (reason : String) :
    Asking (Except StoreError Unit) := do
  let fields := [("status", StoreValue.string JobStatus.failed.text), ("error", .string reason)]
  return (← s.patch "mark_failed" id fields ["status", "error"] none).map fun _ => ()

/-- The write that appends the output of a batch. -/
def outputWrite (s : RecordStore) (id : JobId) (output : BatchOutput) (now : Timestamp) :
    DocumentWrite where
  update := some
    { name := some (s.config.documentName s.config.jobs id)
      fields := some [("updated_at", .ofTimestamp now)] }
  mask := some ["updated_at"]
  transforms := [⟨"batches.outputs", some (some [output.toValue])⟩]
  precondition := some .exists?

/-- Appends the output of a batch. -/
def appendOutput (s : RecordStore) (id : JobId) (output : BatchOutput) :
    Asking (Except StoreError Unit) := do
  let committed ← s.retrying "append_output" do
    StoreClient.commit s.base [s.outputWrite id output (← StoreClient.now)]
  return committed.map fun _ => ()

/-- How often a record is read again while a join is taken over. -/
def maxClaims : Nat := 8

/-- The counter of records that changed between reading and writing. -/
def conflicts : Counter := ⟨"reel_firestore_transition_conflicts_total", []⟩

/-- Lets a batch take over the join, with a number of tries left. -/
def claim (s : RecordStore) (id : JobId) (batch : Nat) : Nat → Asking (Except StoreError Bool)
  | 0 => return .error (.preconditionFailed
      ("job " ++ id ++ " kept changing while batch " ++ Decimal.natText batch ++
        " claimed the join"))
  | left + 1 => do
    match ← s.load id with
    | .error e => return .error e
    | .ok none => return .error (.notFound ("job " ++ id))
    | .ok (some stored) =>
      if stored.record.joinOwnedBy batch then return .ok true
      else if stored.record.status ≠ .processing then return .ok false
      else
        match stored.version with
        | none => return .error (.invalidResponse "document read without updateTime")
        | some version =>
          let fields :=
            [("status", StoreValue.string JobStatus.joining.text), ("joiner", .ofNat batch)]
          match ← s.patch "claim_join" id fields ["status", "joiner"]
              (some { updateTime := some version }) with
          | .ok _ => return .ok true
          | .error e =>
            if e.isPreconditionFailed then
              StoreClient.count conflicts
              s.claim id batch left
            else return .error e

/-- Lets a batch take over the join. -/
def claimJoin (s : RecordStore) (id : JobId) (batch : Nat) : Asking (Except StoreError Bool) :=
  s.claim id batch maxClaims

/-- A result of the store as that of a worker. -/
def forWorker {β : Type} (ask : Asking (Except StoreError β)) : Asking (Except WorkerError β) := do
  return (← ask).mapError .store

/-- Answers a call of a worker. -/
def answer (s : RecordStore) : (c : StoreCall) → Asking c.Answer
  | .load id => forWorker do return (← s.load id).map fun stored => stored.map StoredRecord.record
  | .setBatchCount id count => forWorker (s.setBatchCount id count)
  | .setStatus id status video => forWorker (s.setStatus id status video)
  | .appendOutput id output => forWorker (s.appendOutput id output)
  | .claimJoin id batch => forWorker (s.claimJoin id batch)
  | .markFailed id reason => forWorker (s.markFailed id reason)

end RecordStore

end Slideshow
