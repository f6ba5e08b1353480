import Slideshow.Filter.Compile

/-! # Fitting a track to a video

A track is repeated until it is long enough, cut to the length of the video, and faded out at the
end. -/

namespace Slideshow

/-- How a track is fitted. -/
structure AudioFit (α : Type) where
  repetitions : Nat
  duration : α
  fadeStart : α
  fadeLength : α
deriving Repr, DecidableEq

namespace AudioFit

variable {α : Type} [Scalar α]

/-- Seconds over which a track is faded out, in videos that are long enough. -/
def fadeOutSeconds : Nat := 4

/-- The fit of a track of `native` seconds to a video of `target` seconds. -/
def compute (native target : α) : AudioFit α :=
  let repetitions :=
    if Scalar.less (Scalar.ofNat 0) native then max 1 (Scalar.ceilNat maxWord64 (target / native))
    else 1
  let fadeLength := Scalar.smaller (Scalar.ofNat fadeOutSeconds) target
  ⟨repetitions, target, target - fadeLength, fadeLength⟩

/-- Adds a fitted track to a graph. -/
def apply (input : Label) (native target : α) : Graph.Build (Label × AudioFit α) := do
  let fit := compute native target
  let copies ← Graph.labeler "alp"
  let joined ← Graph.labeler "acat"
  let faded ← Graph.labeler "aud"
  let filter : Filter α := .chain
    [.audioLoop copies fit.repetitions, .concat joined .audio fit.repetitions,
     .combine faded [.audioTrim fit.duration, .audioFade fit.fadeStart fit.fadeLength] 0]
  match (← filter.appendTo [input]).getLast? with
  | some output => return (output, fit)
  | none => throw .noOutputs

end AudioFit

end Slideshow
