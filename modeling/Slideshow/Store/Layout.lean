import Slideshow.Job.Record
import Slideshow.Store.Document
import Slideshow.Store.Error

/-! # Job records as documents

The record of a job is a document with a field for each of its parts. Batches are a map of their
count and the array of their outputs. -/

namespace Slideshow

/-- The output of a batch as a value. -/
def BatchOutput.toValue (o : BatchOutput) : StoreValue :=
  .map (some [("batch", .ofNat o.batch), ("output", .string o.output)])

/-- The output of a batch, if a value is one. -/
def BatchOutput.ofValue? (v : StoreValue) : Option BatchOutput := do
  let batch ← v.field? "batch" >>= StoreValue.word?
  let output ← v.field? "output" >>= StoreValue.string?
  return ⟨batch, output⟩

/-- Batches as a value. -/
def BatchSummary.toValue (s : BatchSummary) : StoreValue :=
  .map (some
    [("count", .ofNat s.count), ("outputs", .array (some (s.outputs.map BatchOutput.toValue)))])

/-- Batches from a value; what is missing counts as nothing, and what is no output is left out. -/
def BatchSummary.ofValue (v : StoreValue) : BatchSummary where
  count := (v.field? "count" >>= StoreValue.word?).getD 0
  outputs := ((v.field? "outputs").map fun o => o.elements.filterMap BatchOutput.ofValue?).getD []

namespace JobRecord

/-- The fields of a record. -/
def toFields (r : JobRecord) : List (String × StoreValue) :=
  [("status", .string r.status.text), ("created_at", .ofTimestamp r.createdAt),
    ("updated_at", .ofTimestamp r.updatedAt)]
  ++ (r.video.map fun v => ("video", StoreValue.string v)).toList
  ++ (r.error.map fun e => ("error", StoreValue.string e)).toList
  ++ (r.joiner.map fun n => ("joiner", StoreValue.ofNat n)).toList
  ++ (r.batches.map fun s => ("batches", s.toValue)).toList

/-- The record in a document; `now` stands in for times that cannot be read. -/
def ofDocument (id : JobId) (now : Timestamp) (d : Document) : Except StoreError JobRecord :=
  match (d.field? "status" >>= StoreValue.string?) >>= JobStatus.ofText? with
  | none => .error (.invalidResponse ("job " ++ id ++ " has no valid status"))
  | some status =>
    .ok
      { id, status
        video := d.field? "video" >>= StoreValue.string?
        batches := (d.field? "batches").map BatchSummary.ofValue
        joiner := d.field? "joiner" >>= StoreValue.word?
        error := d.field? "error" >>= StoreValue.string?
        createdAt := (d.field? "created_at" >>= StoreValue.timestamp?).getD now
        updatedAt := (d.field? "updated_at" >>= StoreValue.timestamp?).getD now }

end JobRecord

end Slideshow
