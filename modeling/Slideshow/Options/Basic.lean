import Slideshow.Scalar

/-! # Scene options

How slides are timed, sized and joined. Durations are measured in any `Scalar`; frame sizes are
counted in pixels, as 32-bit words. -/

namespace Slideshow

/-- What happens to a slide while it is shown. -/
inductive Effect where
  | none
  /-- The picture is slowly zoomed. -/
  | panZoom
deriving Repr, DecidableEq

/-- How one slide gives way to the next. -/
inductive Transition where
  /-- A hard cut. -/
  | none
  /-- Each slide fades in from black and out to black. -/
  | fade
  /-- The next slide slides over the previous one. -/
  | slideWipe
  /-- A slide wipe between slides that are zoomed while nothing moves over them. -/
  | slideWipeWithPanZoom
deriving Repr, DecidableEq

/-- Whether consecutive slides share a stretch of time. -/
def Transition.overlaps : Transition → Bool
  | .slideWipe | .slideWipeWithPanZoom => true
  | .none | .fade => false

/-- How slide wipes choose their direction. -/
inductive WipeMode where
  | alternate
  /-- One direction, drawn once for the whole render. -/
  | random
  | leftToRight
  | topToBottom
  | rightToLeft
  | bottomToTop
deriving Repr, DecidableEq

/-- How zooms choose between in and out. -/
inductive ZoomMode where
  | alternate
  /-- One direction, drawn once for the whole render. -/
  | random
  | inward
  | outward
deriving Repr, DecidableEq

/-- The place of a render within a job that was split into batches. -/
inductive BatchContinuation where
  /-- The job is not split. -/
  | none
  /-- The first batch. -/
  | initial
  /-- A later batch, whose first slide repeats the last slide of the batch before. -/
  | continuation
deriving Repr, DecidableEq

/-- Options of one render. -/
structure SceneOptions (α : Type) where
  /-- Seconds for which each slide is shown. -/
  sceneDuration : α
  /-- Seconds that two consecutive slides share. -/
  transitionDuration : α
  width : Option Nat
  height : Option Nat
  effect : Effect
  transition : Transition
  wipeDirection : WipeMode
  zoomDirection : ZoomMode
  /-- Whether a background track is laid under the video. -/
  audio : Bool
  batchContinuation : BatchContinuation
  /-- Whether a large request may be split into batches. -/
  batchMode : Bool
deriving Repr, DecidableEq

namespace SceneOptions

variable {α : Type} [Scalar α]

/-- Five seconds for each slide, hard cuts, no effect, no audio. -/
def standard : SceneOptions α where
  sceneDuration := Scalar.ofNat 5
  transitionDuration := Scalar.ofNat 1 / Scalar.ofNat 2
  width := Option.none
  height := Option.none
  effect := .none
  transition := .none
  wipeDirection := .alternate
  zoomDirection := .alternate
  audio := false
  batchContinuation := .none
  batchMode := true

/-- The smallest width or height that may be asked for. -/
def minDimension : Nat := 16

/-- The largest width or height that may be asked for. -/
def maxDimension : Nat := 7680

/-- The width and height used when neither is asked for. -/
def standardSize : Nat × Nat := (1000, 1000)

/-- A side of the frame. -/
inductive Side where
  | width
  | height
deriving Repr, DecidableEq

/-- Why options are refused. -/
inductive Invalid where
  | sceneDurationNotPositive
  | transitionDurationNegative
  | transitionNotShorterThanScene
  /-- Every inner slide of a wipe gives up one transition at either end. -/
  | noRoomForTwoTransitions
  | outOfRange (side : Side)
  /-- An argument that assigns nothing. -/
  | notAssignment (argument : String)
  /-- A document that is no options document. -/
  | unreadable (complaint : String)
deriving Repr, DecidableEq

def Side.text : Side → String
  | .width => "width"
  | .height => "height"

/-- The words for a refusal. -/
def Invalid.reason : Invalid → String
  | .sceneDurationNotPositive => "scene_duration must be positive"
  | .transitionDurationNegative => "transition_duration must not be negative"
  | .transitionNotShorterThanScene => "transition_duration must be shorter than scene_duration"
  | .noRoomForTwoTransitions =>
    "slide transitions need scene_duration longer than twice transition_duration"
  | .outOfRange side =>
    side.text ++ " must be within " ++ toString minDimension ++ "..=" ++ toString maxDimension
  | .notAssignment argument => "expected key=value, got '" ++ argument ++ "'"
  | .unreadable complaint => complaint

/-- Refuses a side outside the accepted range. -/
def checkSide (side : Side) : Option Nat → Except Invalid Unit
  | some n => if minDimension ≤ n && n ≤ maxDimension then .ok () else .error (.outOfRange side)
  | Option.none => .ok ()

/-- Checks the timing and then the size. -/
def validate (o : SceneOptions α) : Except Invalid Unit :=
  let zero : α := Scalar.ofNat 0
  if !(Scalar.isFinite o.sceneDuration && Scalar.less zero o.sceneDuration) then
    .error .sceneDurationNotPositive
  else if !(Scalar.isFinite o.transitionDuration && Scalar.atMost zero o.transitionDuration) then
    .error .transitionDurationNegative
  else if Scalar.atMost o.sceneDuration o.transitionDuration then
    .error .transitionNotShorterThanScene
  else if o.transition.overlaps &&
      Scalar.atMost o.sceneDuration (o.transitionDuration * Scalar.ofNat 2) then
    .error .noRoomForTwoTransitions
  else do
    checkSide .width o.width
    checkSide .height o.height

/-- The even pixel count nearest to a length, at least two; counts wrap at 32 bits. -/
def evenCount (length : α) : Nat :=
  max 2 (Scalar.nearestNat maxWord32 (length / Scalar.ofNat 2) * 2 % UInt32.size)

/-- The length of one side that goes with `own` pixels on the other, in the ratio
`opposite : along` of a source frame; the same length without a usable source. -/
def derivedLength (own : Nat) (source : Option (Nat × Nat)) : α :=
  match source with
  | some (along, opposite) =>
    if 0 < along then Scalar.ofNat own * Scalar.ofNat opposite / Scalar.ofNat along
    else Scalar.ofNat own
  | Option.none => Scalar.ofNat own

/-- The frame size. A side that is not asked for follows the aspect ratio of the source, or equals
the other one without a source; all sides are made even. -/
def resolveSize (o : SceneOptions α) (source : Option (Nat × Nat)) : Nat × Nat :=
  match o.width, o.height with
  | some w, some h => (evenCount (Scalar.ofNat w : α), evenCount (Scalar.ofNat h : α))
  | some w, Option.none => (evenCount (Scalar.ofNat w : α), evenCount (derivedLength w source : α))
  | Option.none, some h =>
    (evenCount (derivedLength h (source.map Prod.swap) : α), evenCount (Scalar.ofNat h : α))
  | Option.none, Option.none => standardSize

/-- Whether the frame size depends on a source frame. -/
def needsSourceSize (o : SceneOptions α) : Bool := o.width.isSome != o.height.isSome

end SceneOptions

/-- Whether the first slide repeats one that was shown before. -/
def BatchContinuation.isContinuation : BatchContinuation → Bool
  | .continuation => true
  | .none | .initial => false

end Slideshow
