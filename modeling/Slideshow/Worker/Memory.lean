import Slideshow.Store.Ledger

/-! # Surroundings in memory

Everything a worker calls, kept in memory: files and objects hold an address or a video of a known
length, the queue is a list, and slides are fetched by writing their addresses into files. -/

namespace Slideshow

/-- What a file or an object holds. -/
inductive Content (α : Type) where
  | text (content : String)
  /-- A video that lasts some seconds. -/
  | video (seconds : α)
deriving Repr, DecidableEq

/-- How the surroundings behave. -/
structure Surroundings (α : Type) where
  /-- Addresses that do not lead to pictures. -/
  invalid : List String
  /-- Addresses from which nothing can be fetched. -/
  failing : List String
  catalog : Option (AudioCatalog α)
  /-- Whether every render fails. -/
  rendererFails : Bool
  /-- How long videos are whose plan does not tell. -/
  joinedDuration : α
  /-- The size of every picture. -/
  frame : Nat × Nat

/-- What the surroundings hold. -/
structure Memory (α : Type) where
  ledger : Ledger := {}
  dispatched : List (BatchJob α) := []
  objects : List (String × Content α) := []
  files : List (String × Content α) := []
  /-- How many files were fetched. -/
  fetched : Nat := 0

namespace Memory

variable {α : Type}

/-- Puts content under a name, in place of what was there. -/
def put (name : String) (content : Content α) (store : List (String × Content α)) :
    List (String × Content α) :=
  (name, content) :: store.filter fun entry => entry.1 != name

/-- Where a part of a job is stored. -/
def address (id : JobId) (segment : String) : String := "mem://" ++ id ++ "/" ++ segment

/-- Stores a file. -/
def upload (id : JobId) (segment path : String) : StateM (Memory α) (Except WorkerError String) :=
  fun m =>
    match m.files.lookup path with
    | some content =>
      (.ok (address id segment), { m with objects := put (address id segment) content m.objects })
    | none => (.error (.file .notFound), m)

/-- Copies an object into a file. -/
def download (url path : String) : StateM (Memory α) (Except WorkerError Unit) := fun m =>
  match m.objects.lookup url with
  | some content => (.ok (), { m with files := put path content m.files })
  | none => (.error (.blob (.notFound url)), m)

/-- Renders a plan by writing down how long the video is. -/
def render (s : Surroundings α) (plan : RenderPlan α) (path : String) :
    StateM (Memory α) (Except WorkerError Unit) := fun m =>
  if s.rendererFails then (.error (.media (.internal "render failed")), m)
  else
    let content := .video (plan.duration.getD s.joinedDuration)
    (.ok (), { m with files := put path content m.files })

/-- How long the video in a file is. -/
def duration (path : String) : StateM (Memory α) (Except WorkerError α) := fun m =>
  match m.files.lookup path with
  | some (.video seconds) => (.ok seconds, m)
  | some (.text _) => (.error (.media (.internal "unreadable duration")), m)
  | none => (.error (.file .notFound), m)

/-- Fetches a file by writing its address down. -/
def fetch (s : Surroundings α) (url directory : String) :
    StateM (Memory α) (Except WorkerError String) := fun m =>
  if s.failing.contains url then (.error (.media (.fetchFailed url 3 "connection refused")), m)
  else
    let path := directory ++ "/input-" ++ Decimal.natText m.fetched
    (.ok path, { m with files := put path (.text url) m.files, fetched := m.fetched + 1 })

/-- Fetches files until one cannot be fetched. -/
def fetchAll (s : Surroundings α) (directory : String) :
    List String → StateM (Memory α) (Except WorkerError (List String))
  | [] => pure (.ok [])
  | url :: rest => do
    match ← fetch s url directory with
    | .error e => return .error e
    | .ok path => return (← fetchAll s directory rest).map (path :: ·)

/-- The answer to a call to the record store. -/
def answerStore (call : StoreCall) : StateM (Memory α) call.Answer := fun m =>
  let (answer, ledger) := (Ledger.answer call).run m.ledger
  (answer, { m with ledger })

/-- The answer to a call. -/
def answer (s : Surroundings α) : (call : WorkerCall α) → StateM (Memory α) call.Answer
  | .store call => answerStore call
  | .dispatch batch => fun m => (.ok (), { m with dispatched := m.dispatched ++ [batch] })
  | .upload id segment path => upload id segment path
  | .download url path => download url path
  | .render plan path => render s plan path
  | .duration path => duration path
  | .frameSize _ => pure (.ok s.frame)
  | .filterValid urls => pure (urls.filter fun url => !s.invalid.contains url)
  | .fetch url directory => fetch s url directory
  | .fetchAll urls directory => fetchAll s directory urls
  | .audioCatalog => pure (.ok s.catalog)

end Memory

end Slideshow
