import Slideshow.Scalar
import Slideshow.Json.Decoder

/-! # Background tracks

A catalog lists the tracks that may be laid under a video. A loop fits every video; a complete piece
fits only videos that are at least as long. -/

namespace Slideshow

open Json (Decoder Record)

/-- How a track may be used. -/
inductive AudioKind where
  /-- A complete piece. -/
  | track
  /-- A loop without seams. -/
  | loop
deriving Repr, DecidableEq

def AudioKind.text : AudioKind → String
  | .track => "track"
  | .loop => "loop"

def AudioKind.names : List (AudioKind × List String) :=
  [.track, .loop].map fun kind => (kind, [kind.text])

/-- One entry of a catalog. -/
structure AudioTrack (α : Type) where
  url : String
  /-- The length in seconds. -/
  length : α
  kind : AudioKind
deriving Repr, DecidableEq

/-- Whether a track may be laid under a video of `target` seconds. -/
def AudioTrack.isEligible {α : Type} [Scalar α] (t : AudioTrack α) (target : α) : Bool :=
  if Scalar.atMost t.length (Scalar.ofNat 0) then false
  else match t.kind with
    | .loop => true
    | .track => Scalar.atMost t.length target

/-- The tracks to choose from. -/
structure AudioCatalog (α : Type) where
  tracks : List (AudioTrack α)
deriving Repr, DecidableEq

namespace AudioCatalog

variable {α : Type} [Scalar α]

/-- The tracks that may be laid under a video of `target` seconds. -/
def eligible (c : AudioCatalog α) (target : α) : List (AudioTrack α) :=
  c.tracks.filter (·.isEligible target)

/-- One of the eligible tracks, given a way to choose among several. -/
def select (c : AudioCatalog α) (target : α) (choose : Nat → Nat) : Option (AudioTrack α) :=
  let tracks := c.eligible target
  tracks[choose tracks.length]?

end AudioCatalog

/-! ## Documents -/

def AudioTrack.decoder : Decoder (AudioTrack Float) :=
  Record.decoder "AudioTrack" <|
    pure AudioTrack.mk
      <*> .required "url" .string
      <*> .required "length" .float
      <*> .required "type" (.enumeration AudioKind.names)

def AudioTrack.toJson (t : AudioTrack Float) : Json :=
  .object [("url", .string t.url), ("length", .real t.length), ("type", .string t.kind.text)]

def AudioCatalog.decoder : Decoder (AudioCatalog Float) :=
  Record.decoder "AudioCatalog" <|
    pure AudioCatalog.mk <*> .defaulted "tracks" (.list AudioTrack.decoder) []

def AudioCatalog.toJson (c : AudioCatalog Float) : Json :=
  .object [("tracks", .array (c.tracks.map AudioTrack.toJson))]

end Slideshow
