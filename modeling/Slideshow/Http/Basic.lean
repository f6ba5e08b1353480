import Slideshow.Program
import Slideshow.Url.Basic

/-! # Requests and answers

A request names a method and an address; the answer has a status, headers, and a body that may break
off. Answers that point elsewhere are followed a limited number of times. -/

namespace Slideshow.Http

/-- What a request asks for. -/
inductive Method where
  | get
  | head
  | post
  | put
  | patch
deriving Repr, DecidableEq

def Method.text : Method → String
  | .get => "GET"
  | .head => "HEAD"
  | .post => "POST"
  | .put => "PUT"
  | .patch => "PATCH"

/-- A request. -/
structure Request where
  method : Method
  url : Url
  /-- The token that says who asks. -/
  token : Option String := none
  body : Option String := none
deriving Repr, DecidableEq

/-- An answer. -/
structure Response where
  status : Nat
  /-- The words after the status. -/
  reason : String
  headers : List (String × String)
  /-- The pieces of the body that arrived. -/
  chunks : List String
  /-- Whether the body arrived as a whole. -/
  complete : Bool
deriving Repr, DecidableEq

/-- Why a request gave no usable answer. -/
inductive Fault where
  | unreadableUrl
  /-- An address that does not lead to the web. -/
  | unusableUrl (url : Url)
  | noAnswer (url : Url)
  | tooManyRedirects (url : Url)
  /-- A status that reports an error. -/
  | status (code : Nat) (reason : String) (url : Url)
  /-- A body that broke off or is not what was asked for. -/
  | unreadableBody
deriving Repr, DecidableEq

def Fault.message : Fault → String
  | .unreadableUrl => "builder error"
  | .unusableUrl url => "builder error for url (" ++ url.text ++ ")"
  | .noAnswer url => "error sending request for url (" ++ url.text ++ ")"
  | .tooManyRedirects url => "error following redirect for url (" ++ url.text ++ ")"
  | .status code reason url =>
    "HTTP status " ++ (if code < 500 then "client" else "server") ++ " error (" ++
      toString code ++ " " ++ reason ++ ") for url (" ++ url.text ++ ")"
  | .unreadableBody => "error decoding response body"

/-- A request to an address given as text. Names and passwords are not part of the address that is
shown. -/
def Request.ofText (method : Method) (text : String) : Except Fault Request :=
  match Url.parse text with
  | .error _ => .error .unreadableUrl
  | .ok url =>
    let url := { url with username := [], password := [] }
    if url.scheme = "http" || url.scheme = "https" then .ok { method, url }
    else .error (.unusableUrl url)

namespace Response

/-- The value of a header. -/
def header? (r : Response) (name : String) : Option String :=
  (r.headers.find? fun h => h.1.toLower == name).map Prod.snd

/-- Whether the status reports success. -/
def succeeded (r : Response) : Bool := 200 ≤ r.status && r.status < 300

/-- The body as a whole. -/
def text? (r : Response) : Except Fault String :=
  if r.complete then .ok (String.join r.chunks) else .error .unreadableBody

/-- The answer, or a fault if its status reports an error. -/
def successOrFault (r : Response) (url : Url) : Except Fault Response :=
  if 400 ≤ r.status && r.status < 600 then .error (.status r.status r.reason url) else .ok r

end Response

/-! ## Redirects -/

/-- How many redirects are followed. -/
def maxRedirects : Nat := 10

/-- The request that an answer points to, if it does. -/
def Request.redirected? (r : Request) (answer : Response) : Option Request := do
  let location ← answer.header? "location"
  let url ← (r.url.join location).toOption
  match answer.status with
  | 301 | 302 | 303 =>
    if r.method = .get || r.method = .head then some { r with url }
    else some { r with method := .get, url, body := none }
  | 307 | 308 => some { r with url }
  | _ => none

variable {Call : Type} {Answer : Call → Type}

/-- Sends a request and follows at most `hops` redirects; gives the last answer and its address. -/
def follow (ask : Request → Program Answer (Option Response)) (hops : Nat) (r : Request) :
    Program Answer (Except Fault (Response × Url)) := do
  match ← ask r with
  | none => return .error (.noAnswer r.url)
  | some answer =>
    match r.redirected? answer with
    | none => return .ok (answer, r.url)
    | some next =>
      match hops with
      | 0 => return .error (.tooManyRedirects next.url)
      | hops + 1 => follow ask hops next

/-- Sends a request to an address given as text. -/
def exchange (ask : Request → Program Answer (Option Response)) (method : Method) (text : String) :
    Program Answer (Except Fault (Response × Url)) :=
  match Request.ofText method text with
  | .ok r => follow ask maxRedirects r
  | .error fault => return .error fault

end Slideshow.Http
