import Slideshow.Report.Basic
import Slideshow.Service.Call
import Slideshow.Store.Value
import Slideshow.Worker.Rehearsal

/-! # Reports of jobs and of what is done for them -/

namespace Slideshow.Report

instance : Report BatchOutput := ⟨fun o => out (o.batch, o.output)⟩

instance : Report BatchSummary where
  out s := .object [item "count" s.count, item "outputs" s.outputs]

/-- The record of a job is reported without its times. -/
instance : Report JobRecord where
  out r := .object
    [item "id" r.id, item "status" r.status.text, item "video" r.video, item "batches" r.batches,
     item "joiner" r.joiner, item "error" r.error]

instance : Report (Content Float) where
  out
    | .text t => out t
    | .video s => out s

/-- A call to the record store is reported by what it is about. -/
def storeCall : StoreCall → List Json
  | .load id => [out id]
  | .setBatchCount id n => [out id, out n]
  | .setStatus id status video => [out id, out status.text, out video]
  | .appendOutput id o => [out id, out o.batch, out o.output]
  | .claimJoin id batch => [out id, out batch]
  | .markFailed id reason => [out id, out reason]

/-- The last part of a path. -/
def fileName (path : String) : String := ((path.splitOn "/").getLast?).getD path

/-- What a call in a journal is about. -/
def callDetails (e : JournalEntry Float) : List Json :=
  match e.call with
  | .store call => storeCall call
  | .dispatch batch => [out (Json.object batch.members).compact]
  | .upload id segment _ => [out id, out segment, out e.content]
  | .download url path => [out url, out (fileName path)]
  | .render plan path => [out (plan.toCommand path {}).args, out plan.duration]
  | .filterValid urls => [out urls.length]
  | .fetch url _ => [out url]
  | .duration _ | .frameSize _ | .fetchAll _ _ | .audioCatalog => []

instance : Report (JournalEntry Float) where
  out e := .array (out e.call.name :: callDetails e)

instance : Report ServiceCall where
  out c := .array [out c.name?, match c with
    | .create record => out record
    | .load id => out id
    | .markFailed id reason => out (id, reason)
    | .enqueue request => out (Json.object request.members).compact
    | _ => .null]

/-- A value of the document store is reported by all that it can be read as. -/
instance : Report StoreValue where
  out x := .object
    [item "string" x.string?, item "i64" x.int?, item "u32" x.word?, item "f64" x.float?,
     item "bool" x.bool?, item "time" (x.timestamp?.map Timestamp.offsetText)]

end Slideshow.Report
