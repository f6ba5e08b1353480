import Slideshow.Json.Decoder
import Slideshow.Filter.Graph

/-! # What can go wrong with media files -/

namespace Slideshow

/-- Why a file cannot be read or written. -/
inductive FileFault where
  | notFound
  | notDirectory
deriving Repr, DecidableEq

/-- The words for a fault of the file system. -/
def FileFault.message : FileFault → String
  | .notFound => "No such file or directory (os error 2)"
  | .notDirectory => "Not a directory (os error 20)"

/-- An error in fetching, compiling, rendering or probing. -/
inductive MediaError where
  /-- There is no renderer. -/
  | rendererMissing
  /-- There is no prober. -/
  | proberMissing
  /-- The renderer failed; the last lines it wrote, and its exit code if it was not killed. -/
  | renderFailed (reason : String) (stderr : Option String) (exitCode : Option Int)
  /-- The prober failed, and what it wrote. -/
  | probeFailed (reason : String) (stderr : Option String)
  | fetchFailed (url : String) (attempts : Nat) (reason : String)
  | http (reason : String)
  | graph (error : GraphError)
  | fileNotFound (path : String)
  | cancelled
  | timedOut (seconds : Nat)
  | file (fault : FileFault)
  | unreadableJson (error : Json.DecodeError)
  | invalidMedia (reason : String)
  | internal (reason : String)

namespace MediaError

def kind : MediaError → String
  | rendererMissing => "FfmpegNotFound"
  | proberMissing => "FfprobeNotFound"
  | renderFailed _ _ _ => "FfmpegFailed"
  | probeFailed _ _ => "FfprobeFailed"
  | fetchFailed _ _ _ => "FetchFailed"
  | http _ => "Http"
  | graph e => "Graph:" ++ e.kind
  | fileNotFound _ => "FileNotFound"
  | cancelled => "Cancelled"
  | timedOut _ => "Timeout"
  | file _ => "Io"
  | unreadableJson _ => "JsonParse"
  | invalidMedia _ => "InvalidMedia"
  | internal _ => "Internal"

def message : MediaError → String
  | rendererMissing => "FFmpeg not found in PATH"
  | proberMissing => "FFprobe not found in PATH"
  | renderFailed reason _ _ => "FFmpeg command failed: " ++ reason
  | probeFailed reason _ => "FFprobe command failed: " ++ reason
  | fetchFailed url attempts reason =>
    "Fetch of " ++ url ++ " failed after " ++ Decimal.natText attempts ++ " attempts: " ++ reason
  | http reason => "HTTP error: " ++ reason
  | graph error => "Filter graph error: " ++ error.message
  | fileNotFound path => "File not found: " ++ path
  | cancelled => "Operation cancelled"
  | timedOut seconds => "Operation timed out after " ++ Decimal.natText seconds ++ " seconds"
  | file fault => "IO error: " ++ fault.message
  | unreadableJson error => "JSON parse error: " ++ error.reason
  | invalidMedia reason => "Invalid media file: " ++ reason
  | internal reason => "Internal error: " ++ reason

/-- Whether the graph was put together wrongly. -/
def isGraphDefect : MediaError → Bool
  | graph _ => true
  | _ => false

end MediaError

end Slideshow
