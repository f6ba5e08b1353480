import Slideshow.Environment
import Slideshow.Json.Basic

/-! # How the web service is set up -/

namespace Slideshow

/-- Address and limits of the web service. -/
structure ServiceConfig where
  host : String := "0.0.0.0"
  port : Nat := 8000
  /-- Web pages that may use the service from a browser; a star stands for all of them. -/
  origins : List String := ["*"]
  /-- Bytes in the largest body of a request. -/
  maxBodySize : Nat := 1048576
  /-- Slides in the largest request. -/
  maxSlides : Nat := 1000
  environment : String := "development"
deriving Repr, DecidableEq

namespace ServiceConfig

/-- Origins in a list with commas. -/
def originsOf (text : String) : List String :=
  (text.splitOn ",").map fun origin => String.ofList (Text.trimmed origin.toList)

/-- The configuration that an environment asks for. -/
def ofEnvironment (env : Environment) : ServiceConfig :=
  let usual : ServiceConfig := {}
  { host := (env.lookup "API_HOST").getD usual.host
    port := (env.number? 16 "API_PORT").getD usual.port
    origins := ((env.lookup "CORS_ORIGINS").map originsOf).getD usual.origins
    maxBodySize := (env.number? 64 "MAX_BODY_SIZE").getD usual.maxBodySize
    maxSlides := ((env.number? 64 "MAX_SLIDES_PER_REQUEST").filter (0 < ·)).getD usual.maxSlides
    environment := (env.lookup "ENVIRONMENT").getD usual.environment }

/-- Whether the service is in production, where it does not tell what went wrong inside. -/
def isProduction (c : ServiceConfig) : Bool :=
  c.environment.toList.map Char.toLower == "production".toList

def toJson (c : ServiceConfig) : Json :=
  .object
    [("host", .string c.host), ("port", .integer c.port), ("cors_origins", Json.strings c.origins),
     ("max_body_size", .integer c.maxBodySize), ("max_slides", .integer c.maxSlides),
     ("environment", .string c.environment), ("production", .bool c.isProduction)]

end ServiceConfig

end Slideshow
