import Slideshow.Worker.Call

/-! # A store of job records in memory

The rules of the record store, with every call taking effect at once: updates of unknown jobs are
refused, an output that is there already is not added again, and only an open job can be taken over
for joining. -/

namespace Slideshow

/-- Job records, one for each job. -/
structure Ledger where
  records : List JobRecord := []
  /-- How many times a job was taken over for joining. -/
  claims : Nat := 0
deriving Repr

namespace Ledger

/-- The record of a job. -/
def get? (l : Ledger) (id : JobId) : Option JobRecord := l.records.find? fun r => r.id == id

/-- Replaces the record of the same job, or adds a record. -/
def insert (l : Ledger) (record : JobRecord) : Ledger :=
  if (l.get? record.id).isSome then
    { l with records := l.records.map fun r => if r.id == record.id then record else r }
  else { l with records := l.records ++ [record] }

end Ledger

namespace JobRecord

/-- The record of a job that is split into `count` batches. -/
def withBatchCount (count : Nat) (r : JobRecord) : JobRecord :=
  { r with batches := some { r.batches.getD {} with count := count } }

/-- The record with a status, and a video or none. -/
def withStatus (status : JobStatus) (video : Option String) (r : JobRecord) : JobRecord :=
  { r with status := status, video := video }

/-- The record with one more output, unless it is there already. -/
def withOutput (output : BatchOutput) (r : JobRecord) : JobRecord :=
  let summary := r.batches.getD {}
  { r with
    batches :=
      if summary.outputs.contains output then some summary
      else some { summary with outputs := summary.outputs ++ [output] } }

/-- The record of a job whose join a batch has taken over. -/
def withJoiner (batch : Nat) (r : JobRecord) : JobRecord :=
  { r with status := .joining, joiner := some batch }

/-- The record of a job that failed. -/
def withFailure (reason : String) (r : JobRecord) : JobRecord :=
  { r with status := .failed, error := some reason }

end JobRecord

namespace Ledger

/-- Changes the record of a job. -/
def update (id : JobId) (change : JobRecord → JobRecord) :
    StateM Ledger (Except WorkerError Unit) := fun l =>
  match l.get? id with
  | some r => (.ok (), l.insert (change r))
  | none => (.error (.jobNotFound id), l)

/-- Lets a batch take over the join of a job. -/
def claimJoin (id : JobId) (batch : Nat) : StateM Ledger (Except WorkerError Bool) := fun l =>
  match l.get? id with
  | none => (.error (.jobNotFound id), l)
  | some r =>
    if r.joinOwnedBy batch then (.ok true, l)
    else if r.status = .processing then
      (.ok true, { l.insert (r.withJoiner batch) with claims := l.claims + 1 })
    else (.ok false, l)

/-- The answer to a call. -/
def answer : (call : StoreCall) → StateM Ledger call.Answer
  | .load id => fun l => (.ok (l.get? id), l)
  | .setBatchCount id count => update id (JobRecord.withBatchCount count)
  | .setStatus id status video => update id (JobRecord.withStatus status video)
  | .appendOutput id output => update id (JobRecord.withOutput output)
  | .claimJoin id batch => claimJoin id batch
  | .markFailed id reason => update id (JobRecord.withFailure reason)

end Ledger

end Slideshow
