import Slideshow.Scalar
import Slideshow.Encoding
import Slideshow.Random
import Slideshow.Filter.Graph

/-! # Filter expressions

What is done to a single stream: cutting, scaling, zooming, fading. An expression is written for the
stream at a position, because some take a different variant at every position. -/

namespace Slideshow

/-- How one of several variants is chosen for a stream. -/
inductive Variants (τ : Type) where
  /-- The same for every stream. -/
  | fixed (variant : τ)
  /-- One after another, over and over. -/
  | alternate (choices : List τ)
deriving Repr, DecidableEq

namespace Variants

variable {τ : Type}

/-- One variant, drawn once for all streams. -/
def random (choices : List τ) (words : Words) : Option (Variants τ × Words) :=
  (words.pick choices).map fun (variant, rest) => (.fixed variant, rest)

/-- The variant of the stream at a position. -/
def pick (variants : Variants τ) (i : Nat) : Except GraphError τ :=
  match variants with
  | .fixed variant => .ok variant
  | .alternate choices =>
    match choices[i % choices.length]? with
    | some variant => .ok variant
    | none => .error .noVariants

end Variants

/-- Whether a zoom goes in or out. -/
inductive ZoomDirection where
  | inward
  | outward
deriving Repr, DecidableEq

/-- Both directions, in the order in which they alternate. -/
def ZoomDirection.all : List ZoomDirection := [.inward, .outward]

/-- The way an incoming slide travels. -/
inductive WipeDirection where
  | leftToRight
  | topToBottom
  | rightToLeft
  | bottomToTop
deriving Repr, DecidableEq

/-- All directions, in the order in which they alternate. -/
def WipeDirection.all : List WipeDirection :=
  [.leftToRight, .topToBottom, .rightToLeft, .bottomToTop]

/-- A zoom between 1 and a maximum, spread over a number of frames. -/
structure PanZoom (α : Type) where
  maxZoom : α
  frames : Nat
  width : Nat
  height : Nat
  directions : Variants ZoomDirection
deriving Repr, DecidableEq

/-- What is done to a stream. -/
inductive Expression (α : Type) where
  /-- Keep the first seconds. -/
  | trim (duration : α)
  /-- Keep the seconds from a start up to an end. -/
  | segment (start stop : α)
  /-- Fit the picture into a frame and fill the rest. -/
  | scale (width height : Nat)
  /-- Square pixels, and time that begins at zero. -/
  | normalize
  | panZoom (zoom : PanZoom α)
  /-- Fade in at the start and out at the end of a stream of a total length. -/
  | fade (duration total : α)
  /-- Keep the first seconds of sound. -/
  | audioTrim (length : α)
  /-- Fade the sound out from a start on. -/
  | audioFade (start length : α)
  /-- One after another. -/
  | sequence (parts : List (Expression α))
deriving Repr

/-- The greatest zoom of a scene. -/
def PanZoom.standardMaxZoom {α : Type} [Scalar α] : α := Scalar.ofNat 3 / Scalar.ofNat 2

namespace PanZoom

variable {α : Type} [Scalar α]

/-- The frames over which the zoom is spread, at least one. -/
def spread (z : PanZoom α) : Nat := max 1 z.frames

/-- The change of the zoom from frame to frame. -/
def step (z : PanZoom α) : α := (z.maxZoom - Scalar.ofNat 1) / Scalar.ofNat z.spread

/-- The zoom of the next frame. -/
def zoomText (z : PanZoom α) : ZoomDirection → String
  | .inward =>
    "min(zoom+" ++ Scalar.filterText z.step ++ "," ++ Scalar.filterText z.maxZoom ++ ")"
  | .outward =>
    "if(lte(zoom,1.0)," ++ Scalar.filterText z.maxZoom ++ ",max(1.001,zoom-" ++
      Scalar.filterText z.step ++ "))"

/-- The expression of a zoom in a direction. -/
def text (z : PanZoom α) (direction : ZoomDirection) : String :=
  "zoompan=z='" ++ z.zoomText direction ++ "':x='iw/2-(iw/zoom/2)':y='ih/2-(ih/zoom/2)':d=" ++
    Decimal.natText z.spread ++ ":s=" ++ Decimal.natText z.width ++ "x" ++
    Decimal.natText z.height ++ ":fps=" ++ Decimal.natText framesPerSecond

end PanZoom

namespace Expression

variable {α : Type} [Scalar α]

/-- The expression that fits a picture into a frame. -/
def scaleText (width height : Nat) : String :=
  let size := Decimal.natText width ++ ":" ++ Decimal.natText height
  "scale=" ++ size ++ ":force_original_aspect_ratio=decrease,pad=" ++ size ++
    ":(ow-iw)/2:(oh-ih)/2"

mutual

/-- The text of an expression for the stream at a position. -/
def text (i : Nat) : Expression α → Except GraphError String
  | .trim duration => .ok ("trim=duration=" ++ Scalar.filterText duration)
  | .segment start stop =>
    .ok ("trim=start=" ++ Scalar.filterText start ++ ":end=" ++ Scalar.filterText stop)
  | .scale width height => .ok (scaleText width height)
  | .normalize => .ok "setsar=1:1,setpts=PTS-STARTPTS"
  | .panZoom zoom => (zoom.directions.pick i).map zoom.text
  | .fade duration total =>
    let d := Scalar.filterText duration
    .ok ("fade=t=in:st=0:d=" ++ d ++ ",fade=t=out:st=" ++ Scalar.filterText (total - duration) ++
      ":d=" ++ d)
  | .audioTrim length =>
    .ok ("atrim=duration=" ++ Scalar.filterText length ++ ",asetpts=PTS-STARTPTS")
  | .audioFade start length =>
    .ok ("afade=t=out:st=" ++ Scalar.filterText start ++ ":d=" ++ Scalar.filterText length)
  | .sequence parts => (texts i parts).map fun ts => ",".intercalate ts

/-- The texts of several expressions. -/
def texts (i : Nat) : List (Expression α) → Except GraphError (List String)
  | [] => .ok []
  | part :: rest => do
    let t ← part.text i
    return t :: (← texts i rest)

end

end Expression

end Slideshow
