import Slideshow.Program
import Slideshow.Audio.Catalog
import Slideshow.Render.Plan
import Slideshow.Worker.Error

/-! # What a worker calls

A worker keeps the record of a job in a store, hands batches to a queue, keeps videos in object
storage, renders and probes files, and fetches slides and tracks. Each of these is a call, and a
worker is a program over them. -/

namespace Slideshow

/-- A call to the store of job records. -/
inductive StoreCall where
  | load (id : JobId)
  /-- Sets into how many batches a job is split. -/
  | setBatchCount (id : JobId) (count : Nat)
  /-- Sets the status, and the video or that there is none. -/
  | setStatus (id : JobId) (status : JobStatus) (video : Option String)
  /-- Adds the output of a batch. -/
  | appendOutput (id : JobId) (output : BatchOutput)
  /-- Lets a batch take over the join, if the job is open or the batch has it already. -/
  | claimJoin (id : JobId) (batch : Nat)
  | markFailed (id : JobId) (reason : String)
deriving Repr, DecidableEq

/-- What the store answers with when nothing goes wrong. -/
def StoreCall.Reply : StoreCall → Type
  | load _ => Option JobRecord
  | claimJoin _ _ => Bool
  | setBatchCount _ _ | setStatus _ _ _ | appendOutput _ _ | markFailed _ _ => Unit

/-- What the store answers with. -/
def StoreCall.Answer (c : StoreCall) : Type := Except WorkerError c.Reply

/-- The job a call is about. -/
def StoreCall.jobId : StoreCall → JobId
  | load id | setBatchCount id _ | setStatus id _ _ | appendOutput id _ | claimJoin id _
  | markFailed id _ => id

/-- A call of a worker. Files are named by their paths. -/
inductive WorkerCall (α : Type) where
  | store (call : StoreCall)
  /-- Hands a batch to the queue. -/
  | dispatch (batch : BatchJob α)
  /-- Stores a file as a part of a job; the answer is its address. -/
  | upload (jobId : JobId) (segment : String) (path : String)
  | download (url : String) (path : String)
  | render (plan : RenderPlan α) (path : String)
  | duration (path : String)
  | frameSize (path : String)
  /-- Keeps the addresses that lead to pictures. -/
  | filterValid (urls : List String)
  /-- Fetches a file into a directory; the answer is its path. -/
  | fetch (url : String) (directory : String)
  | fetchAll (urls : List String) (directory : String)
  /-- The catalog of tracks, if there is one. -/
  | audioCatalog

/-- What a call is answered with. -/
def WorkerCall.Answer {α : Type} : WorkerCall α → Type
  | store c => c.Answer
  | dispatch _ => Except WorkerError Unit
  | upload _ _ _ => Except WorkerError String
  | download _ _ => Except WorkerError Unit
  | render _ _ => Except WorkerError Unit
  | duration _ => Except WorkerError α
  | frameSize _ => Except WorkerError (Nat × Nat)
  | filterValid _ => List String
  | fetch _ _ => Except WorkerError String
  | fetchAll _ _ => Except WorkerError (List String)
  | audioCatalog => Except WorkerError (Option (AudioCatalog α))

def WorkerCall.ask {α : Type} (c : WorkerCall α) : Program (WorkerCall.Answer (α := α)) c.Answer :=
  Program.ask c

/-- A program of a worker that may fail. -/
abbrev Task (α β : Type) := ExceptT WorkerError (Program (WorkerCall.Answer (α := α))) β

namespace Task

variable {α β : Type}

/-- The record of a job, if there is one. -/
def load (id : JobId) : Task α (Option JobRecord) := ExceptT.mk (WorkerCall.ask (.store (.load id)))

/-- Sets into how many batches a job is split. -/
def setBatchCount (id : JobId) (count : Nat) : Task α Unit :=
  ExceptT.mk (WorkerCall.ask (.store (.setBatchCount id count)))

/-- Sets the status and the video. -/
def setStatus (id : JobId) (status : JobStatus) (video : Option String) : Task α Unit :=
  ExceptT.mk (WorkerCall.ask (.store (.setStatus id status video)))

/-- Adds the output of a batch. -/
def appendOutput (id : JobId) (output : BatchOutput) : Task α Unit :=
  ExceptT.mk (WorkerCall.ask (.store (.appendOutput id output)))

/-- Whether a batch has taken over the join. -/
def claimJoin (id : JobId) (batch : Nat) : Task α Bool :=
  ExceptT.mk (WorkerCall.ask (.store (.claimJoin id batch)))

/-- Hands a batch to the queue. -/
def dispatch (batch : BatchJob α) : Task α Unit := ExceptT.mk (WorkerCall.ask (.dispatch batch))

/-- Stores a file as a part of a job. -/
def upload (id : JobId) (segment path : String) : Task α String :=
  ExceptT.mk (WorkerCall.ask (.upload id segment path))

/-- Copies a stored video into a file. -/
def download (url path : String) : Task α Unit := ExceptT.mk (WorkerCall.ask (.download url path))

/-- Renders a plan into a file. -/
def render (plan : RenderPlan α) (path : String) : Task α Unit :=
  ExceptT.mk (WorkerCall.ask (.render plan path))

/-- How long a video is. -/
def duration (path : String) : Task α α := ExceptT.mk (WorkerCall.ask (.duration path))

/-- The size of a picture. -/
def frameSize (path : String) : Task α (Nat × Nat) := ExceptT.mk (WorkerCall.ask (.frameSize path))

/-- The addresses that lead to pictures. -/
def filterValid (urls : List String) : Task α (List String) :=
  ExceptT.lift (WorkerCall.ask (.filterValid urls))

/-- Fetches a file. -/
def fetch (url directory : String) : Task α String :=
  ExceptT.mk (WorkerCall.ask (.fetch url directory))

/-- Fetches files, in order. -/
def fetchAll (urls : List String) (directory : String) : Task α (List String) :=
  ExceptT.mk (WorkerCall.ask (.fetchAll urls directory))

/-- The catalog of tracks. -/
def audioCatalog : Task α (Option (AudioCatalog α)) := ExceptT.mk (WorkerCall.ask .audioCatalog)

/-- A step that renders or compiles. -/
def ofMedia (result : Except MediaError β) : Task α β :=
  ExceptT.mk (.done (result.mapError .media))

end Task

end Slideshow
