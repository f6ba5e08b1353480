import Slideshow.Audio.Catalog
import Slideshow.Http.Basic
import Slideshow.Local.Directory
import Slideshow.Metrics
import Slideshow.Text.Blank

/-! # Fetching slides, tracks and the catalog

Slides are checked before they are fetched; whatever is fetched is tried several times, with longer
and longer waits. An attempt that fails leaves no file behind. -/

namespace Slideshow

/-- How often and how patiently something is tried. -/
structure FetchPolicy where
  attempts : Nat := 3
  /-- The wait before the second attempt; every further one is longer by as much. -/
  retryUnitMs : Nat := 1000
  /-- Milliseconds after which a request is given up. -/
  requestTimeoutMs : Nat := 60000
deriving Repr, DecidableEq

/-- The wait before attempt `k`, counted from zero. -/
def FetchPolicy.delayBefore (p : FetchPolicy) (k : Nat) : Nat := p.retryUnitMs * k

/-- A call made while fetching. -/
inductive FetchCall where
  | send (request : Http.Request)
  | wait (milliseconds : Nat)
  /-- A name that no other file has. -/
  | freshName
  | createFile (path : String)
  | appendFile (path chunk : String)
  | removeFile (path : String)
  | count (event : Counter)
deriving Repr, DecidableEq

/-- What a call is answered with. -/
def FetchCall.Answer : FetchCall → Type
  | send _ => Option Http.Response
  | freshName => String
  | createFile _ | appendFile _ _ => Except FileFault Unit
  | wait _ | removeFile _ | count _ => Unit

def FetchCall.ask (c : FetchCall) : Program FetchCall.Answer c.Answer := Program.ask c

/-- A program that fetches. -/
abbrev Fetching (β : Type) := Program FetchCall.Answer β

namespace Fetching

/-- Sends a request; `none` when no answer arrives. -/
def send (r : Http.Request) : Fetching (Option Http.Response) := FetchCall.ask (.send r)

/-- Waits, unless there is nothing to wait for. -/
def wait (milliseconds : Nat) : Fetching Unit :=
  if milliseconds = 0 then return () else FetchCall.ask (.wait milliseconds)

/-- A name that no other file has. -/
def freshName : Fetching String := FetchCall.ask .freshName

/-- Creates an empty file. -/
def createFile (path : String) : Fetching (Except FileFault Unit) :=
  FetchCall.ask (.createFile path)

/-- Adds to a file. -/
def appendFile (path chunk : String) : Fetching (Except FileFault Unit) :=
  FetchCall.ask (.appendFile path chunk)

/-- Removes a file, if it is there. -/
def removeFile (path : String) : Fetching Unit := FetchCall.ask (.removeFile path)

/-- Counts an event. -/
def count (name : String) : Fetching Unit := FetchCall.ask (.count ⟨name, []⟩)

end Fetching

namespace Fetch

/-! ## Checking slides -/

/-- Whether a type of content is that of pictures. -/
def isImageType (contentType : String) : Bool :=
  ("image/".toList).isPrefixOf ((Text.trimmed contentType.toList).map Char.toLower)

/-- Whether an answer promises a picture. -/
def promisesImage (r : Http.Response) : Bool :=
  r.succeeded && ((r.header? "content-type").map isImageType).getD false

/-- Whether an address leads to a picture. Servers that do not answer to a mere look are asked for
the whole. -/
def validateImage (url : String) : Fetching Bool := do
  match ← Http.exchange Fetching.send .head url with
  | .error _ => return false
  | .ok (answer, _) =>
    if answer.status = 405 || answer.status = 501 then
      match ← Http.exchange Fetching.send .get url with
      | .error _ => return false
      | .ok (answer, _) => return promisesImage answer
    else return promisesImage answer

/-- The addresses that lead to pictures, in order. -/
def filterValid : List String → Fetching (List String)
  | [] => return []
  | url :: rest => do
    let valid ← validateImage url
    let others ← filterValid rest
    return if valid then url :: others else others

/-! ## Fetching files -/

/-- The longest extension that is kept. -/
def maxExtension : Nat := 5

/-- The extension of a file fetched from an address, with its dot: that of the path if it is short
and made of letters and digits. -/
def extensionOf (url : String) : String :=
  let segments := match Url.parse url with
    | .ok u => ((String.ofList u.pathText).splitOn "/").filter (· ≠ "")
    | .error _ => []
  match segments.getLast?.bind DirectoryEntry.extension? with
  | some extension =>
    let extension := extension.toList.map Char.toLower
    if !extension.isEmpty && extension.length ≤ maxExtension && extension.all Char.isAlphanum then
      String.ofList ('.' :: extension)
    else ""
  | none => ""

/-- Writes pieces into a file until one cannot be written. -/
def writeChunks (path : String) : List String → Fetching (Except MediaError Unit)
  | [] => return .ok ()
  | chunk :: rest => do
    match ← Fetching.appendFile path chunk with
    | .error fault => return .error (.file fault)
    | .ok () => writeChunks path rest

/-- Fetches into a file, once. -/
def attempt (url path : String) : Fetching (Except MediaError Unit) := do
  match ← Http.exchange Fetching.send .get url with
  | .error fault => return .error (.http fault.message)
  | .ok (answer, address) =>
    match answer.successOrFault address with
    | .error fault => return .error (.http fault.message)
    | .ok answer =>
      match ← Fetching.createFile path with
      | .error fault => return .error (.file fault)
      | .ok () =>
        match ← writeChunks path answer.chunks with
        | .error e => return .error e
        | .ok () =>
          if answer.complete then return .ok ()
          else return .error (.http Http.Fault.unreadableBody.message)

/-- Attempt `k` to fetch a file, after its wait. An attempt that fails takes its file away. -/
def attemptAfterWait (p : FetchPolicy) (url directory : String) (k : Nat) :
    Fetching (Except MediaError String) := do
  Fetching.wait (p.delayBefore k)
  let path := directory ++ "/" ++ (← Fetching.freshName) ++ extensionOf url
  Fetching.count "reel_fetch_attempts_total"
  match ← attempt url path with
  | .ok () => return .ok path
  | .error e =>
    Fetching.removeFile path
    return .error e

/-- Attempt `k` to fetch a file, and if it fails as many more as are left. -/
def attempts (p : FetchPolicy) (url directory : String) (k : Nat) :
    Nat → Fetching (Except MediaError String)
  | 0 => attemptAfterWait p url directory k
  | left + 1 => do
    match ← attemptAfterWait p url directory k with
    | .ok path => return .ok path
    | .error _ => attempts p url directory (k + 1) left

/-- Fetches a file into a directory; gives its path. -/
def fetch (p : FetchPolicy) (url directory : String) : Fetching (Except MediaError String) := do
  let tries := max p.attempts 1
  match ← attempts p url directory 0 (tries - 1) with
  | .ok path => return .ok path
  | .error e =>
    Fetching.count "reel_fetch_failures_total"
    return .error (.fetchFailed url tries e.message)

/-- Fetches every file, also after one could not be fetched. -/
def fetchEach (p : FetchPolicy) (directory : String) :
    List String → Fetching (List (Except MediaError String))
  | [] => return []
  | url :: rest => do
    let first ← fetch p url directory
    return first :: (← fetchEach p directory rest)

/-- Fetches files; gives their paths in order, or the first error. -/
def fetchAll (p : FetchPolicy) (urls : List String) (directory : String) :
    Fetching (Except MediaError (List String)) := do
  return (← fetchEach p directory urls).mapM id

/-! ## Fetching documents -/

variable {β : Type}

/-- Fetches and reads a document, once. -/
def readOnce (decoder : Json.Decoder β) (url : String) : Fetching (Except MediaError β) := do
  match ← Http.exchange Fetching.send .get url with
  | .error fault => return .error (.http fault.message)
  | .ok (answer, address) =>
    let body := answer.successOrFault address >>= Http.Response.text?
    match body with
    | .error fault => return .error (.http fault.message)
    | .ok text => return (decoder.ofText text).mapError .unreadableJson

/-- Attempt `k` to fetch a document, and if it fails as many more as are left. A document that
cannot be read will not be better the next time. -/
def documentAttempts (p : FetchPolicy) (decoder : Json.Decoder β) (url : String) (k : Nat) :
    Nat → Fetching (Except MediaError β)
  | 0 => do
    Fetching.wait (p.delayBefore k)
    readOnce decoder url
  | left + 1 => do
    Fetching.wait (p.delayBefore k)
    match ← readOnce decoder url with
    | .ok document => return .ok document
    | .error (.unreadableJson e) => return .error (.unreadableJson e)
    | .error _ => documentAttempts p decoder url (k + 1) left

/-- Fetches and reads a document. -/
def document (p : FetchPolicy) (decoder : Json.Decoder β) (url : String) :
    Fetching (Except MediaError β) := do
  let tries := max p.attempts 1
  match ← documentAttempts p decoder url 0 (tries - 1) with
  | .ok document => return .ok document
  | .error (.unreadableJson e) => return .error (.unreadableJson e)
  | .error e => return .error (.fetchFailed url tries e.message)

/-- The catalog at an address, if there is one. -/
def catalog (p : FetchPolicy) (index : Option String) :
    Fetching (Except MediaError (Option (AudioCatalog Float))) :=
  match index with
  | none => return .ok none
  | some url => do return (← document p AudioCatalog.decoder url).map some

end Fetch

end Slideshow
