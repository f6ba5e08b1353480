import Slideshow.Json.Decoder

/-! # Video encoding

How a render is encoded: codec, preset and quality of the video, codec and bit rate of the audio. -/

namespace Slideshow

open Json (Decoder Record)

/-- Frames per second of every render. -/
def framesPerSecond : Nat := 25

/-- Choices made for the encoder. -/
structure EncodingConfig where
  codec : String := "libx264"
  preset : String := "fast"
  /-- The quality, lower is better. -/
  crf : Nat := 18
  pixelFormat : String := "yuv420p"
  audioCodec : String := "aac"
  audioBitrate : String := "128k"
deriving Repr, DecidableEq

namespace EncodingConfig

def record : Record EncodingConfig :=
  let c : EncodingConfig := {}
  pure EncodingConfig.mk
    <*> .defaulted "codec" .string c.codec
    <*> .defaulted "preset" .string c.preset
    <*> .defaulted "crf" (.unsigned 8) c.crf
    <*> .defaulted "pixel_format" .string c.pixelFormat
    <*> .defaulted "audio_codec" .string c.audioCodec
    <*> .defaulted "audio_bitrate" .string c.audioBitrate

def decoder : Decoder EncodingConfig := record.decoder "EncodingConfig"

def toJson (c : EncodingConfig) : Json :=
  .object [("codec", .string c.codec), ("preset", .string c.preset), ("crf", .integer c.crf),
    ("pixel_format", .string c.pixelFormat), ("audio_codec", .string c.audioCodec),
    ("audio_bitrate", .string c.audioBitrate)]

/-- The arguments for the video encoder. -/
def videoArgs (c : EncodingConfig) : List String :=
  ["-c:v", c.codec, "-preset", c.preset, "-crf", toString c.crf, "-pix_fmt", c.pixelFormat,
   "-r", toString framesPerSecond]

/-- The arguments for the audio encoder. -/
def audioArgs (c : EncodingConfig) : List String :=
  ["-c:a", c.audioCodec, "-b:a", c.audioBitrate]

end EncodingConfig

end Slideshow
