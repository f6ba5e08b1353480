import Slideshow.Environment
import Slideshow.Store.Retry

/-! # Where the document store is

The store is told apart by its project and database. An emulator of it is asked without a real
token. -/

namespace Slideshow

/-- The policy that an environment asks for. -/
def RetryPolicy.ofEnvironment (env : Environment) : RetryPolicy :=
  let number (name : String) (otherwise : Nat) := (env.number? 64 name).getD otherwise
  let usual : RetryPolicy := {}
  { maxRetries := number "FIRESTORE_MAX_RETRIES" usual.maxRetries % UInt32.size
    baseDelayMs := number "FIRESTORE_RETRY_BASE_MS" usual.baseDelayMs
    maxDelayMs := number "FIRESTORE_RETRY_MAX_MS" usual.maxDelayMs }

def RetryPolicy.toJson (p : RetryPolicy) : Json :=
  .array [.integer p.maxRetries, .integer p.baseDelayMs, .integer p.maxDelayMs]

/-- Where the documents are, and how the store is asked. -/
structure StoreConfig where
  project : String
  database : String
  /-- The collection of job records. -/
  jobs : String
  /-- Host and port of an emulator that is asked in place of the store. -/
  emulator : Option String
  timeoutSecs : Nat
  connectTimeoutSecs : Nat
  retry : RetryPolicy
deriving Repr, DecidableEq

namespace StoreConfig

/-- Where all documents of the database are, at an endpoint. -/
def base (c : StoreConfig) (endpoint : String) : String :=
  let endpoint := String.ofList (endpoint.toList.reverse.dropWhile (· = '/')).reverse
  endpoint ++ "/v1/projects/" ++ c.project ++ "/databases/" ++ c.database ++ "/documents"

/-- The full name of a document. -/
def documentName (c : StoreConfig) (collection id : String) : String :=
  "projects/" ++ c.project ++ "/databases/" ++ c.database ++ "/documents/" ++ collection ++
    "/" ++ id

/-- The name of the project in an environment. -/
def projectOf (env : Environment) : Except StoreError String :=
  match env.lookup "GCP_PROJECT_ID" <|> env.lookup "FIREBASE_PROJECT_ID" with
  | none => .error (.misconfigured
      "GCP_PROJECT_ID or FIREBASE_PROJECT_ID must be set to access Firestore")
  | some project =>
    if Environment.isBlankText project then
      .error (.misconfigured "GCP_PROJECT_ID or FIREBASE_PROJECT_ID cannot be empty")
    else .ok project

/-- The configuration that an environment asks for. -/
def ofEnvironment (env : Environment) : Except StoreError StoreConfig := do
  let project ← projectOf env
  return {
    project
    database := (env.lookup "FIRESTORE_DATABASE_ID").getD "(default)"
    jobs := (env.nonblank? "FIRESTORE_JOBS_COLLECTION").getD "jobs"
    emulator := env.nonblank? "FIRESTORE_EMULATOR_HOST"
    timeoutSecs := (env.number? 64 "FIRESTORE_TIMEOUT_SECS").getD 30
    connectTimeoutSecs := (env.number? 64 "FIRESTORE_CONNECT_TIMEOUT_SECS").getD 5
    retry := RetryPolicy.ofEnvironment env }

/-- Where the store is asked. -/
def endpoint (c : StoreConfig) : String :=
  match c.emulator with
  | some host => "http://" ++ host
  | none => "https://firestore.googleapis.com"

/-- Checks that there is someone to ask for tokens: an emulator takes any token, and otherwise an
environment has to name an account. -/
def checkAccount (c : StoreConfig) (env : Environment) : Except StoreError Unit :=
  if c.emulator.isSome || (env.lookup "GOOGLE_APPLICATION_CREDENTIALS").isSome then .ok ()
  else .error (.unauthenticated <|
    "GOOGLE_APPLICATION_CREDENTIALS not set. " ++
    "Set it to the path of your service account JSON file.")

def toJson (c : StoreConfig) : Json :=
  .object
    [("project", .string c.project), ("database", .string c.database),
     ("collection", .string c.jobs), ("emulator", Json.ofOption .string c.emulator),
     ("timeout_ms", .integer (1000 * c.timeoutSecs)),
     ("connect_timeout_ms", .integer (1000 * c.connectTimeoutSecs)), ("retry", c.retry.toJson)]

end StoreConfig

end Slideshow
