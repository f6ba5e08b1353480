import Slideshow.Timestamp
import Slideshow.Json.Decoder

/-! # The record of a job

What is stored about a job: its status, the outputs of its batches in order of arrival, who joins
them, and how it ended. The outputs of a batch that reported more than once count once, and the
first report wins. -/

namespace Slideshow

open Json (Decoder Record)

/-- The name of a job, any text. -/
abbrev JobId := String

/-- Where a job stands. -/
inductive JobStatus where
  /-- Slides or batches are being rendered. -/
  | processing
  /-- All batches have reported and one worker joins them. -/
  | joining
  /-- Done, with or without a video. -/
  | processed
  /-- Ended with an error. -/
  | failed
deriving Repr, DecidableEq

namespace JobStatus

def text : JobStatus → String
  | .processing => "processing"
  | .joining => "joining"
  | .processed => "processed"
  | .failed => "failed"

def all : List JobStatus := [.processing, .joining, .processed, .failed]

def ofText? (s : String) : Option JobStatus := all.find? fun status => status.text == s

def names : List (JobStatus × List String) := all.map fun status => (status, [status.text])

/-- Whether nothing more is expected to happen. -/
def isTerminal : JobStatus → Bool
  | .processed | .failed => true
  | .processing | .joining => false

end JobStatus

/-- The output of one batch. -/
structure BatchOutput where
  /-- The number of the batch, from one on. -/
  batch : Nat
  /-- Where the partial video is. -/
  output : String
deriving Repr, DecidableEq

/-- How far the batches of a job have come. -/
structure BatchSummary where
  /-- Into how many batches the job was split. -/
  count : Nat := 0
  /-- The outputs in order of arrival. -/
  outputs : List BatchOutput := []
deriving Repr, DecidableEq

/-- What is stored about a job. -/
structure JobRecord where
  id : JobId
  status : JobStatus
  /-- Where the finished video is. -/
  video : Option String
  batches : Option BatchSummary
  /-- The batch whose delivery joins all batches. -/
  joiner : Option Nat
  /-- Why the job failed. -/
  error : Option String
  createdAt : Timestamp
  updatedAt : Timestamp
deriving Repr, DecidableEq

namespace JobRecord

/-- The record of a job that was just accepted. -/
def fresh (id : JobId) (now : Timestamp) : JobRecord :=
  ⟨id, .processing, none, none, none, none, now, now⟩

/-- How many batches have to report; none when the job is not split. -/
def expectedBatches (r : JobRecord) : Nat := (r.batches.map BatchSummary.count).getD 0

/-- All reports in order of arrival. -/
def outputs (r : JobRecord) : List BatchOutput := (r.batches.map BatchSummary.outputs).getD []

/-- Files an output under its batch number, unless that batch has one already. -/
def file (output : BatchOutput) : List BatchOutput → List BatchOutput
  | [] => [output]
  | first :: rest =>
    if output.batch < first.batch then output :: first :: rest
    else if output.batch = first.batch then first :: rest
    else first :: file output rest

/-- The first output of every batch that has reported, by batch number. -/
def orderedOutputs (r : JobRecord) : List BatchOutput :=
  r.outputs.foldl (fun filed output => file output filed) []

/-- Whether a batch has reported. -/
def hasReceived (r : JobRecord) (batch : Nat) : Bool :=
  r.outputs.any fun output => output.batch == batch

/-- Whether every batch has reported while the job is still open. -/
def readyToJoin (r : JobRecord) : Bool :=
  r.status == .processing && 0 < r.expectedBatches && r.orderedOutputs.length == r.expectedBatches

/-- Whether a batch took over the join and the join is not finished. -/
def joinOwnedBy (r : JobRecord) (batch : Nat) : Bool :=
  r.status == .joining && r.joiner == some batch

end JobRecord

/-! ## Documents -/

def Timestamp.decoder : Decoder Timestamp
  | _, .string s =>
    match Timestamp.parse true s with
    | .ok t => .ok t
    | .error fault => Decoder.fail (.custom fault.message)
  | _, draft => Decoder.unexpected "an RFC 3339 formatted date and time string" draft

def BatchOutput.decoder : Decoder BatchOutput :=
  Record.decoder "BatchOutput" <|
    pure BatchOutput.mk <*> .required "batch" (.unsigned 32) <*> .required "output" .string

def BatchOutput.toJson (o : BatchOutput) : Json :=
  .object [("batch", .integer o.batch), ("output", .string o.output)]

def BatchSummary.decoder : Decoder BatchSummary :=
  Record.decoder "BatchSummary" <|
    pure BatchSummary.mk
      <*> .required "count" (.unsigned 32)
      <*> .defaulted "outputs" (.list BatchOutput.decoder) []

def BatchSummary.toJson (s : BatchSummary) : Json :=
  .object [("count", .integer s.count), ("outputs", .array (s.outputs.map BatchOutput.toJson))]

def JobRecord.decoder : Decoder JobRecord :=
  Record.decoder "JobRecord" <|
    pure JobRecord.mk
      <*> .required "id" .string
      <*> .required "status" (.enumeration JobStatus.names)
      <*> .optional "video" .string
      <*> .optional "batches" BatchSummary.decoder
      <*> .optional "joiner" (.unsigned 32)
      <*> .optional "error" .string
      <*> .required "created_at" Timestamp.decoder
      <*> .required "updated_at" Timestamp.decoder

def JobRecord.toJson (r : JobRecord) : Json :=
  .object <|
    [("id", .string r.id), ("status", .string r.status.text)]
    ++ Json.member? "video" (r.video.map .string)
    ++ Json.member? "batches" (r.batches.map BatchSummary.toJson)
    ++ Json.member? "joiner" (r.joiner.map fun n => .integer n)
    ++ Json.member? "error" (r.error.map .string)
    ++ [("created_at", .string r.createdAt.text), ("updated_at", .string r.updatedAt.text)]

end Slideshow
