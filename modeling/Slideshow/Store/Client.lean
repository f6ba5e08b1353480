import Slideshow.Http.Basic
import Slideshow.Store.Config
import Slideshow.Store.Document

/-! # Asking the document store

The store is asked over the web, with a token. A token that the store calls expired is replaced once
within a request. What the store answers is turned into a document or an error. -/

namespace Slideshow

/-- What the store is asked. -/
inductive DocumentRequest where
  | get (collection id : String)
  /-- Creates a document that must not be there yet. -/
  | create (collection id : String) (fields : List (String × StoreValue))
  /-- Writes the fields in the mask; those that are not given are deleted. -/
  | patch (collection id : String) (fields : List (String × StoreValue)) (mask : List String)
    (precondition : Option Precondition)
  /-- Writes that happen together. -/
  | commit (writes : List DocumentWrite)

namespace DocumentRequest

/-- The name under which a request is counted. -/
def operation : DocumentRequest → String
  | get _ _ => "get_document"
  | create _ _ _ => "create_document"
  | patch _ _ _ _ _ => "patch_document"
  | commit _ => "commit"

/-- The method of a request. -/
def method : DocumentRequest → Http.Method
  | get _ _ => .get
  | create _ _ _ | commit _ => .post
  | patch _ _ _ _ _ => .patch

/-- The parameters that say which fields are written and when. -/
def patchParameters (mask : List String) (precondition : Option Precondition) : List String :=
  mask.map (fun path => "updateMask.fieldPaths=" ++ Url.encodeComponent path) ++
  match precondition with
  | none => []
  | some p =>
    (p.present.map fun b => "currentDocument.exists=" ++ (if b then "true" else "false")).toList ++
    (p.updateTime.map fun t => "currentDocument.updateTime=" ++ Url.encodeComponent t).toList

/-- The address of a request, where `base` is that of all documents. -/
def address (base : String) : DocumentRequest → String
  | get collection id => base ++ "/" ++ collection ++ "/" ++ id
  | create collection id _ =>
    base ++ "/" ++ collection ++ "?documentId=" ++ Url.encodeComponent id
  | patch collection id _ mask precondition =>
    let parameters := patchParameters mask precondition
    base ++ "/" ++ collection ++ "/" ++ id ++
      (if parameters.isEmpty then "" else "?" ++ "&".intercalate parameters)
  | commit _ => base ++ ":commit"

/-- The document that goes with a request. -/
def body : DocumentRequest → Option Json
  | get _ _ => none
  | create _ _ fields | patch _ _ fields _ _ => some (Document.toJson { fields := some fields })
  | commit writes => some (.object [("writes", .array (writes.map DocumentWrite.toJson))])

/-- The request as it goes over the web. -/
def toHttp (base token : String) (r : DocumentRequest) : Except Http.Fault Http.Request := do
  let request ← Http.Request.ofText r.method (r.address base)
  return { request with token := some token, body := r.body.map Json.compact }

end DocumentRequest

/-- The body of an answer. -/
inductive ReplyBody where
  | text (content : String)
  | json (content : Json)
  /-- A body that broke off. -/
  | broken

/-- An answer of the store. -/
structure StoreReply where
  status : Nat
  body : ReplyBody

namespace ReplyBody

/-- The body as text; nothing if it broke off. -/
def content : ReplyBody → String
  | text s => s
  | json v => v.compact
  | broken => ""

/-- Reads the body. One that cannot be read counts as not having arrived. -/
def read {β : Type} (decoder : Json.Decoder β) (body : ReplyBody) : Except StoreError β :=
  let result := match body with
    | text s => (decoder.ofText s).toOption
    | json v => (decoder.ofValue v).toOption
    | broken => none
  match result with
  | some b => .ok b
  | none => .error (.network Http.Fault.unreadableBody.message)

end ReplyBody

/-- A call made while asking the store. -/
inductive ClientCall where
  /-- A token to ask with. -/
  | token
  /-- Forgets a token that was refused. -/
  | invalidateToken
  | send (request : DocumentRequest) (token : String)
  | now
  | jitter (limit : Nat)
  | wait (milliseconds : Nat)
  | count (event : Counter)

/-- What a call is answered with; a request that got no answer says why. -/
def ClientCall.Answer : ClientCall → Type
  | token => Except StoreError String
  | send _ _ => Except Http.Fault StoreReply
  | now => Timestamp
  | jitter _ => Nat
  | invalidateToken | wait _ | count _ => Unit

/-- A program that asks the store. -/
abbrev Asking (β : Type) := Program ClientCall.Answer β

namespace StoreClient

variable {β : Type}

def ask (c : ClientCall) : Asking c.Answer := Program.ask c

/-- A token. -/
def token : Asking (Except StoreError String) := ask .token

/-- The point in time at which this is asked. -/
def now : Asking Timestamp := ask .now

/-- Counts an event. -/
def count (event : Counter) : Asking Unit := ask (.count event)

/-- Sends a request with a token. -/
def sendWith (r : DocumentRequest) (token : String) : Asking (Except StoreError StoreReply) := do
  let answer : Except Http.Fault StoreReply ← ask (.send r token)
  return answer.mapError fun fault => .network fault.message

/-- Whether the store refused a request because its token has expired. -/
def saysExpired (content : String) : Bool :=
  StoreError.occursIn "ACCESS_TOKEN_EXPIRED" content ||
    StoreError.occursIn "\"UNAUTHENTICATED\"" content

/-- Sends a request; with a new token once more if the first one has expired. -/
def send (r : DocumentRequest) : Asking (Except StoreError StoreReply) := do
  match ← token with
  | .error e => return .error e
  | .ok first =>
    match ← sendWith r first with
    | .error e => return .error e
    | .ok reply =>
      if reply.status ≠ 401 then return .ok reply
      else if !saysExpired reply.body.content then
        return .error (.ofStatus 401 reply.body.content)
      else
        ask .invalidateToken
        match ← token with
        | .error e => return .error e
        | .ok second => sendWith r second

/-- The counter of requests. -/
def requests (operation : String) (status : Nat) : Counter :=
  ⟨"reel_firestore_requests_total", [("operation", operation), ("status", toString status)]⟩

/-- The status that a result is counted under. -/
def countedStatus : Except StoreError β → Nat
  | .ok _ => 200
  | .error e => e.status?.getD 500

/-- Sends a request, reads the answer and counts the result. -/
def request (r : DocumentRequest) (read : StoreReply → Except StoreError β) :
    Asking (Except StoreError β) := do
  let result := (← send r) >>= read
  count (requests r.operation (countedStatus result))
  return result

/-- The error of an answer that is none of those expected. -/
def unexpected (base : String) (r : DocumentRequest) (reply : StoreReply) : StoreError :=
  .ofStatus reply.status (r.address base ++ " failed: " ++ reply.body.content)

/-- A document, if it is there. -/
def getDocument (base collection id : String) : Asking (Except StoreError (Option Document)) :=
  let r := DocumentRequest.get collection id
  request r fun reply => match reply.status with
    | 200 => (reply.body.read Document.decoder).map some
    | 404 => .ok none
    | _ => .error (unexpected base r reply)

/-- Creates a document. -/
def createDocument (base collection id : String) (fields : List (String × StoreValue)) :
    Asking (Except StoreError Document) :=
  let r := DocumentRequest.create collection id fields
  request r fun reply => match reply.status with
    | 200 | 201 => reply.body.read Document.decoder
    | 409 => .error (.alreadyExists (collection ++ "/" ++ id))
    | _ => .error (unexpected base r reply)

/-- Writes fields of a document. -/
def patchDocument (base collection id : String) (fields : List (String × StoreValue))
    (mask : List String) (precondition : Option Precondition) :
    Asking (Except StoreError Document) :=
  let r := DocumentRequest.patch collection id fields mask precondition
  request r fun reply => match reply.status with
    | 200 => reply.body.read Document.decoder
    | 404 => .error (.notFound (collection ++ "/" ++ id))
    | _ => .error (unexpected base r reply)

/-- Makes writes happen together. -/
def commit (base : String) (writes : List DocumentWrite) : Asking (Except StoreError CommitReply) :=
  if writes.isEmpty then return .error (.requestFailed "Commit without writes")
  else
    let r := DocumentRequest.commit writes
    request r fun reply => match reply.status with
      | 200 => reply.body.read CommitReply.decoder
      | _ => .error (unexpected base r reply)

/-- Answers a call made while trying, where a try is a program of its own. -/
def answerRetry (attempt : Asking (Except StoreError β)) :
    (c : RetryCall) → Asking (c.Answer β)
  | .attempt => attempt
  | .jitter limit => ask (.jitter limit)
  | .wait milliseconds => ask (.wait milliseconds)
  | .count event => ask (.count event)

/-- Tries something until it succeeds, fails for good, or has failed too often. -/
def retrying (p : RetryPolicy) (operation : String) (attempt : Asking (Except StoreError β)) :
    Asking (Except StoreError β) :=
  (Retry.run p operation).expand (answerRetry attempt)

end StoreClient

end Slideshow
