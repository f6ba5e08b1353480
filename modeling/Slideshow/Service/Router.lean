import Slideshow.Service.Handlers

/-! # From requests to answers

A path leads to a route, and a route has one method. Around the routes lie layers, from inside to
outside: the limit on bodies, counting, headers that make browsers careful, names of requests, and
leave for web pages of other origins to use the service. -/

namespace Slideshow.Service

/-! ## Routes -/

/-- Where a path leads. -/
inductive Route where
  | videos
  /-- The record of a job, whose name is given as it stands in the path. -/
  | video (written : String)
  | health
  | ready
  | counters
deriving Repr, DecidableEq

namespace Route

/-- The route of a path, given as its parts between slashes. -/
def ofParts? (showsCounters : Bool) : List String → Option Route
  | ["", "api", "videos"] => some .videos
  | ["", "api", "videos", id] => if id = "" then none else some (.video id)
  | ["", "health"] => some .health
  | ["", "ready"] => some .ready
  | ["", "metrics"] => if showsCounters then some .counters else none
  | _ => none

/-- Whether a route is for submissions; all others are for reading. -/
def submits : Route → Bool
  | videos => true
  | _ => false

/-- Whether a route has a method. What can be read can also be looked at without a body. -/
def accepts (route : Route) (method : String) : Bool :=
  if route.submits then method = "POST" else method = "GET" || method = "HEAD"

/-- The methods of a route. -/
def methods (route : Route) : String := if route.submits then "POST" else "GET,HEAD"

/-- Serves a request for a route, with a limit on its body. -/
def serve (c : ServiceConfig) (limit : Nat) (r : Request) : Route → Serving Response
  | videos => createVideo c limit r
  | video written => getVideo c written
  | health => Service.health
  | ready => Service.ready
  | counters => do return .text 200 (← Serving.showCounters)

end Route

/-- The parts of a path between slashes. -/
def pathParts (r : Request) : List String := (String.ofList r.path).splitOn "/"

/-- Serves a request for a route it may have, with a limit on its body. -/
def serveRoute (c : ServiceConfig) (limit : Nat) (route : Option Route) (r : Request) :
    Serving Response := do
  match route with
  | none => return .plain 404
  | some route => if route.accepts r.method then route.serve c limit r else return .plain 405

/-! ## Layers -/

/-- The length that a request says its body has. -/
def announcedLength? (r : Request) : Option Nat :=
  r.header? "content-length" >>= Decimal.natBelow? UInt64.size

/-- Serves a request whose body is not too long. The body of a request that announces a length is
not read any further. -/
def limited (c : ServiceConfig) (route : Option Route) (r : Request) : Serving Response :=
  match announcedLength? r with
  | none => serveRoute c c.maxBodySize route r
  | some n =>
    if c.maxBodySize < n then return .text 413 "length limit exceeded"
    else serveRoute c n route r

/-- The parts of a path under which requests are counted: names of jobs are left out. -/
def countedParts (afterVideos : Bool) : List String → List String
  | [] => []
  | part :: rest =>
    (if afterVideos && part ≠ "" then ":job_id" else part) :: countedParts (part = "videos") rest

/-- The counter of requests. -/
def served (r : Request) (status : Nat) : Counter :=
  ⟨"reel_http_requests_total",
    [("method", r.method), ("path", "/".intercalate (countedParts false (pathParts r))),
     ("status", Decimal.natText status)]⟩

/-- Headers that make browsers careful. -/
def carefulHeaders : List (String × String) :=
  [("x-content-type-options", "nosniff"), ("x-frame-options", "DENY"),
   ("referrer-policy", "strict-origin-when-cross-origin")]

/-- Whether a text can be sent back as the name of a request. -/
def isVisible (text : String) : Bool :=
  text.toList.all fun c => (32 ≤ c.toNat && c.toNat < 127) || c = '\t'

/-- The name that a request brings along, or a new one. -/
def requestId (r : Request) : Serving String :=
  match (r.header? "x-request-id").filter isVisible with
  | some id => return id
  | none => Serving.newRequestId

/-- Whether a text can be the value of a header. -/
def isHeaderValue (text : String) : Bool :=
  text.toList.all fun c => (32 ≤ c.toNat && c.toNat ≠ 127) || c = '\t'

/-- The header that lets a web page use the answer, if its origin is one of those configured. -/
def originHeaders (c : ServiceConfig) (r : Request) : List (String × String) :=
  if c.origins.contains "*" then [("access-control-allow-origin", "*")]
  else
    match (r.header? "origin").filter (c.origins.filter isHeaderValue).contains with
    | some origin => [("access-control-allow-origin", origin)]
    | none => []

/-- What a browser is told that asks which requests a web page may make. -/
def leaveHeaders (c : ServiceConfig) : List (String × String) :=
  let (methods, headers) :=
    if c.origins.contains "*" then ("*", "*")
    else ("GET,POST,OPTIONS", "authorization,content-type,accept")
  [("access-control-allow-methods", methods), ("access-control-allow-headers", headers),
   ("access-control-max-age", "600")]

/-- Serves and counts a request, and adds the headers of all answers. -/
def counted (c : ServiceConfig) (route : Option Route) (r : Request) : Serving Response := do
  let id ← requestId r
  let answer ← limited c route r
  Serving.count (served r answer.status)
  return answer.withHeaders (carefulHeaders ++ [("x-request-id", id)])

/-- Adds what depends on the origin of a request. A request that only asks for leave goes no
further. -/
def crossOrigin (c : ServiceConfig) (route : Option Route) (r : Request) : Serving Response := do
  if r.method = "OPTIONS" then
    return (Response.plain 200).withHeaders (originHeaders c r ++ leaveHeaders c)
  else return (← counted c route r).withHeaders (originHeaders c r)

/-- Serves a request. -/
def serve (c : ServiceConfig) (showsCounters : Bool) (r : Request) : Serving Response := do
  let route := Route.ofParts? showsCounters (pathParts r)
  let answer ← crossOrigin c route r
  let answer := if r.method = "HEAD" then answer.withoutBody else answer
  match route with
  | some route =>
    return if route.accepts r.method then answer
      else answer.withHeaders [("allow", route.methods)]
  | none => return answer

end Slideshow.Service
