import Slideshow.Blob.Config
import Slideshow.Blob.Key
import Slideshow.Program

/-! # Storing and fetching objects -/

namespace Slideshow

/-- What the storage answers to a request for an object. -/
inductive ObjectReply where
  | content (text : String)
  /-- The object began to arrive and broke off. -/
  | broken (reason : String)
  | refused (reason : String)
deriving Repr, DecidableEq

/-- A call made while using the storage. -/
inductive BlobCall where
  /-- Opens a file to be stored. -/
  | openFile (path : String)
  /-- Stores a file under a key, where everyone can read it. -/
  | put (key path contentType : String)
  | get (key : String)
  /-- Asks whether the bucket is there. -/
  | head
  /-- Writes a file, and the directory it is in if that is not there. -/
  | writeFile (path content : String)
deriving Repr, DecidableEq

/-- What a call is answered with; one that fails says why. -/
def BlobCall.Answer : BlobCall → Type
  | openFile _ | put _ _ _ | head => Except String Unit
  | get _ => ObjectReply
  | writeFile _ _ => Except FileFault Unit

def BlobCall.ask (c : BlobCall) : Program BlobCall.Answer c.Answer := Program.ask c

/-- A program that uses the storage and may fail. -/
abbrev Storing (β : Type) := ExceptT BlobError (Program BlobCall.Answer) β

namespace Bucket

/-- The type of all objects. -/
def contentType : String := "video/mp4"

/-- Stores a file under a key. -/
def put (key path : String) : Storing Unit := do
  match ← ExceptT.lift (BlobCall.ask (.openFile path)) with
  | .error reason => throw (.upload key reason)
  | .ok () =>
    match ← ExceptT.lift (BlobCall.ask (.put key path contentType)) with
    | .error reason => throw (.upload key reason)
    | .ok () => return ()

/-- Stores a file as a part of a job; gives its address. -/
def upload (b : Bucket) (id : JobId) (segment path : String) : Storing String := do
  put (Blob.videoKey id segment) path
  return b.publicUrl (Blob.videoKey id segment)

/-- The error of a request for an object that was refused. -/
def refusal (key reason : String) : BlobError :=
  if (reason.splitOn "NoSuchKey").length ≠ 1 then .notFound key else .download key reason

/-- Copies the object under a key into a file. -/
def fetch (key path : String) : Storing Unit := do
  match ← ExceptT.lift (BlobCall.ask (.get key)) with
  | .refused reason => throw (refusal key reason)
  | .broken reason => throw (.download key reason)
  | .content text =>
    match ← ExceptT.lift (BlobCall.ask (.writeFile path text)) with
    | .error fault => throw (.file fault)
    | .ok () => return ()

/-- Copies the object at an address into a file. -/
def download (b : Bucket) (url path : String) : Storing Unit :=
  match b.keyOf? url with
  | some key => fetch key path
  | none => throw (.foreignUrl url)

/-- Checks that the bucket is there. -/
def check (b : Bucket) : Storing Unit := do
  match ← ExceptT.lift (BlobCall.ask .head) with
  | .error reason => throw (.unreachable b.name reason)
  | .ok () => return ()

end Bucket

end Slideshow
