import Slideshow.Decimal.Reader
import Slideshow.Media.Error

/-! # Probing media files

The prober describes a file as a JSON document of its format and its streams. Still images have no
duration. -/

namespace Slideshow

open Json (Decoder Record)

/-- What is known about a media file. -/
structure MediaInfo where
  /-- The duration in seconds. -/
  duration : Option Float
  width : Nat
  height : Nat
  codec : String

namespace MediaInfo

/-- One stream of a description. -/
structure Stream where
  kind : String
  codec : Option String
  width : Option Nat
  height : Option Nat

/-- A description of a file. -/
structure Description where
  /-- The text of the duration, if there is a format and it has one. -/
  duration : Option String
  streams : List Stream

def Stream.decoder : Decoder Stream :=
  Record.decoder "FfprobeStream" <|
    pure Stream.mk
      <*> .required "codec_type" .string
      <*> .nullable "codec_name" .string
      <*> .nullable "width" (.unsigned 32)
      <*> .nullable "height" (.unsigned 32)

/-- Reads the format: the text of the duration. -/
def formatDecoder : Decoder (Option String) :=
  Record.decoder "FfprobeFormat" (.nullable "duration" .string)

def Description.decoder : Decoder Description :=
  Record.decoder "FfprobeOutput" <|
    pure (fun format streams => ⟨format.join, streams⟩)
      <*> .optional "format" formatDecoder
      <*> .defaulted "streams" (.list Stream.decoder) []

/-- A duration that a file can have. -/
def usableDuration (text : String) : Option Float :=
  (Decimal.float? text).filter fun d => d.isFinite && 0.0 < d

/-- What the first video stream of a description says. -/
def ofDescription (text : String) : Except MediaError MediaInfo := do
  let description ← (Description.decoder.ofText text).mapError .unreadableJson
  match description.streams.find? fun stream => stream.kind = "video" with
  | none => throw (.invalidMedia "No video stream found")
  | some stream =>
    return { duration := description.duration.bind usableDuration
             width := stream.width.getD 0
             height := stream.height.getD 0
             codec := stream.codec.getD "" }

/-- The duration of the file at a path. -/
def requireDuration (path : String) (info : MediaInfo) : Except MediaError Float :=
  match info.duration with
  | some d => .ok d
  | none => .error (.invalidMedia (path ++ " has no duration"))

/-- The frame size of the file. -/
def requireFrameSize (info : MediaInfo) : Except MediaError (Nat × Nat) :=
  if info.width = 0 || info.height = 0 then .error (.invalidMedia "video stream has no frame size")
  else .ok (info.width, info.height)

end MediaInfo

/-- What became of running the prober on a file. -/
structure ProbeRun where
  /-- Whether there is a prober. -/
  available : Bool
  succeeded : Bool
  output : String
  complaint : String

/-- What is known about the file at a path after running the prober. -/
def MediaInfo.ofRun (path : String) (pathExists : Bool) (run : ProbeRun) :
    Except MediaError MediaInfo :=
  if !pathExists then .error (.fileNotFound path)
  else if !run.available then .error .proberMissing
  else if !run.succeeded then
    .error (.probeFailed ("FFprobe failed for " ++ path) (some run.complaint))
  else ofDescription run.output

end Slideshow
